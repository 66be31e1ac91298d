import Mathlib.Data.List.TakeDrop
import Mathlib.Data.List.TakeWhile
import Preflight.Deployment.Identity
import Preflight.Proofs.Ensures
import Preflight.Proofs.Pieces

/-! # Types as they are written

A resource type that was read is written as the text it was read from: the pieces between the
slashes are joined again, and the version keeps whatever characters it has. -/

namespace Preflight
set_option autoImplicit false

/-- No capital letter is made a slash, and none is one. -/
theorem toLower_eq_slash_iff (c : Char) : c.toLower = '/' ↔ c = '/' := by
  unfold Char.toLower
  split
  next h =>
    obtain ⟨hlower, hupper⟩ := h
    have hlow : 65 ≤ c.val.toNat := hlower
    have hhigh : c.val.toNat ≤ 90 := hupper
    have hsum : (c.val + 32).toNat = c.val.toNat + 32 := by
      rw [UInt32.toNat_add]
      exact Nat.mod_eq_of_lt (show c.val.toNat + 32 < 4294967296 by omega)
    constructor
    · intro heq
      have hval : (c.val + 32).toNat = 47 := congrArg (fun d : Char => d.val.toNat) heq
      omega
    · rintro rfl
      exact absurd hlow (by decide)
  next => exact Iff.rfl

namespace ResourceType

/-! ## Reading -/

/-- What stands before the version. -/
def typePart (text : List Char) : List Char := text.takeWhile (· != '@')

/-- The version, if there is one, is what follows the first `@`. -/
theorem splitVersion_cases (text : List Char) :
    (splitVersion text = (typePart text, none) ∧ '@' ∉ text) ∨
    ∃ version, splitVersion text = (typePart text, some version) ∧
      text = typePart text ++ '@' :: version := by
  have htext : typePart text ++ text.dropWhile (· != '@') = text := List.takeWhile_append_dropWhile
  rw [splitVersion, List.span_eq_takeWhile_dropWhile]
  cases hdrop : text.dropWhile (· != '@') with
  | nil =>
    rw [hdrop, List.append_nil] at htext
    refine .inl ⟨rfl, fun hmem => ?_⟩
    rw [← htext] at hmem
    have hne := List.mem_takeWhile_imp hmem
    cases hne
  | cons c version =>
    have hc : (c != '@') = false := by
      have hhead := List.head?_dropWhile_not (· != '@') text
      rw [hdrop] at hhead
      exact hhead
    rw [hdrop, bne_eq_false_iff_eq.mp hc] at htext
    exact .inr ⟨version, rfl, htext.symm⟩

theorem typePart_eq_self {text : List Char} (h : '@' ∉ text) : typePart text = text := by
  rw [typePart, List.takeWhile_eq_self_iff]
  intro c hc
  exact bne_iff_ne.mpr fun heq => h (heq ▸ hc)

theorem splitVersion_fst (text : List Char) : (splitVersion text).1 = typePart text := by
  rcases splitVersion_cases text with ⟨h, -⟩ | ⟨version, h, -⟩ <;> rw [h]

theorem ofChars_eq_ok_iff {text : List Char} {t : ResourceType} : ofChars text = .ok t ↔
    (splitVersion text).2 ≠ some [] ∧
    (∀ segment ∈ (typePart text).splitOn '/', isBlankText segment = false) ∧
    ∃ namespacePart first children,
      (typePart text).splitOn '/' = namespacePart :: first :: children ∧
      t = { types := .ofList (namespacePart ++ '/' :: first) :: children.map .ofList
            apiVersion := (splitVersion text).2.map .ofList } := by
  unfold ofChars
  dsimp only
  rw [splitVersion_fst]
  by_cases hversion : (splitVersion text).2 = some []
  · rw [if_pos hversion]
    exact iff_of_false nofun fun h => h.1 hversion
  · rw [if_neg hversion]
    by_cases hblank : ((typePart text).splitOn '/').any isBlankText = true
    · rw [if_pos hblank]
      obtain ⟨segment, hmem, hsegment⟩ := List.any_eq_true.mp hblank
      exact iff_of_false nofun fun h => by simp [h.2.1 segment hmem] at hsegment
    · rw [if_neg hblank]
      have hsegments : ∀ segment ∈ (typePart text).splitOn '/', isBlankText segment = false := by
        simpa using hblank
      rw [and_iff_right hversion, and_iff_right hsegments]
      split
      next namespacePart first children hsplit =>
        constructor
        · intro h
          exact ⟨namespacePart, first, children, hsplit, (Except.ok.inj h).symm⟩
        · rintro ⟨namespacePart', first', children', hsplit', rfl⟩
          cases hsplit.symm.trans hsplit'
          rfl
      next hnone =>
        refine iff_of_false nofun ?_
        rintro ⟨namespacePart, first, children, hsplit, -⟩
        exact hnone _ _ _ hsplit

/-- What the text of a type looks like: at least two pieces, none of them blank, and a version that
is not empty if there is an `@`. -/
structure Legible (text : List Char) : Prop where
  slash : '/' ∈ typePart text
  segments : ∀ segment ∈ (typePart text).splitOn '/', ∃ c ∈ segment, isWhiteSpace c = false
  version : '@' ∈ text → ∃ c rest, text = typePart text ++ '@' :: c :: rest

theorem isBlankText_eq_false_iff {text : List Char} :
    isBlankText text = false ↔ ∃ c ∈ text, isWhiteSpace c = false := by
  simp [isBlankText]

theorem splitVersion_ne_empty_iff {text : List Char} : (splitVersion text).2 ≠ some [] ↔
    ('@' ∈ text → ∃ c rest, text = typePart text ++ '@' :: c :: rest) := by
  rcases splitVersion_cases text with ⟨h, hnot⟩ | ⟨version, h, htext⟩
  · rw [h]
    exact iff_of_true nofun fun hmem => absurd hmem hnot
  · have hmem : '@' ∈ text := htext ▸ List.mem_append_right _ List.mem_cons_self
    rw [h, forall_prop_of_true hmem]
    cases version with
    | nil =>
      refine iff_of_false (fun hne => hne rfl) ?_
      rintro ⟨c, rest, heq⟩
      have hsame := List.append_cancel_left (htext.symm.trans heq)
      cases hsame
    | cons c rest => exact iff_of_true nofun ⟨c, rest, htext⟩

theorem slash_mem_iff {text : List Char} : '/' ∈ text ↔
    ∃ namespacePart first children, text.splitOn '/' = namespacePart :: first :: children := by
  have hlength := length_splitOn '/' text
  rw [← List.count_pos_iff]
  constructor
  · intro hpos
    match hsplit : text.splitOn '/', hlength with
    | [], hlength => cases hlength
    | [_], hlength =>
      rw [List.length_singleton] at hlength
      omega
    | namespacePart :: first :: children, _ => exact ⟨namespacePart, first, children, rfl⟩
  · rintro ⟨namespacePart, first, children, hsplit⟩
    rw [hsplit, List.length_cons, List.length_cons] at hlength
    omega

theorem exists_ofChars_iff {text : List Char} : (∃ t, ofChars text = .ok t) ↔ Legible text := by
  constructor
  · rintro ⟨t, h⟩
    obtain ⟨hversion, hsegments, namespacePart, first, children, hsplit, -⟩ :=
      ofChars_eq_ok_iff.mp h
    exact ⟨slash_mem_iff.mpr ⟨namespacePart, first, children, hsplit⟩,
      fun segment hmem => isBlankText_eq_false_iff.mp (hsegments segment hmem),
      splitVersion_ne_empty_iff.mp hversion⟩
  · rintro ⟨hslash, hsegments, hversion⟩
    obtain ⟨namespacePart, first, children, hsplit⟩ := slash_mem_iff.mp hslash
    exact ⟨_, ofChars_eq_ok_iff.mpr ⟨splitVersion_ne_empty_iff.mpr hversion,
      fun segment hmem => isBlankText_eq_false_iff.mpr (hsegments segment hmem),
      namespacePart, first, children, hsplit, rfl⟩⟩

theorem parse_eq_ok_iff {text : String} {t : ResourceType} :
    parse text = .ok t ↔ ofChars text.toList = .ok t := by
  unfold parse
  cases ofChars text.toList <;> simp [Except.mapError]

/-! ## Writing -/

section

variable {text : String} {t : ResourceType}

/-- The names of the types are the pieces of the text, the first two of them together. -/
theorem exists_pieces (h : parse text = .ok t) : ∃ namespacePart first children,
    (typePart text.toList).splitOn '/' = namespacePart :: first :: children ∧
    t.types.map String.toList = (namespacePart ++ '/' :: first) :: children := by
  obtain ⟨-, -, namespacePart, first, children, hsplit, rfl⟩ :=
    ofChars_eq_ok_iff.mp (parse_eq_ok_iff.mp h)
  exact ⟨namespacePart, first, children, hsplit, by simp [Function.comp_def]⟩

theorem toString_eq (t : ResourceType) : toString t =
    t.fullyQualified ++ (t.apiVersion.map ("@" ++ ·)).getD "" := by
  obtain ⟨types, _ | version⟩ := t
  · exact String.append_empty.symm
  · exact String.append_assoc

theorem fullyQualified_of_parse (h : parse text = .ok t) :
    t.fullyQualified.toList = typePart text.toList := by
  obtain ⟨namespacePart, first, children, hsplit, htypes⟩ := exists_pieces h
  have hjoin : ['/'].intercalate ((typePart text.toList).splitOn '/') = typePart text.toList :=
    List.intercalate_splitOn '/'
  rw [hsplit] at hjoin
  rw [fullyQualified, String.toList_intercalate, htypes, ← hjoin]
  cases children <;> simp

theorem toString_of_parse (h : parse text = .ok t) : toString t = text := by
  have hfully := fullyQualified_of_parse h
  obtain ⟨-, -, namespacePart, first, children, -, ht⟩ :=
    ofChars_eq_ok_iff.mp (parse_eq_ok_iff.mp h)
  have hversion : t.apiVersion = (splitVersion text.toList).2.map .ofList := by
    rw [ht]
  rw [toString_eq, hversion, ← String.toList_inj]
  rcases splitVersion_cases text.toList with ⟨hsplit, hnot⟩ | ⟨version, hsplit, htext⟩
  · rw [hsplit]
    simp [hfully, typePart_eq_self hnot]
  · rw [hsplit]
    simp [hfully, ← htext]

/-- The first name has the slash after the namespace in it. No other name has one. -/
theorem slashes_of_parse (h : parse text = .ok t) :
    t.types.length = (typePart text.toList).count '/' ∧ ∃ first children,
      t.types = first :: children ∧ first.toList.count '/' = 1 ∧
      ∀ child ∈ children, '/' ∉ child.toList := by
  obtain ⟨namespacePart, first, children, hsplit, htypes⟩ := exists_pieces h
  have hlength := length_splitOn '/' (typePart text.toList)
  have hmapped := congrArg List.length htypes
  have hpieces : ∀ piece ∈ namespacePart :: first :: children, '/' ∉ piece := by
    intro piece hpiece
    rw [← hsplit] at hpiece
    exact not_mem_of_mem_splitOn hpiece
  rw [List.forall_mem_cons, List.forall_mem_cons] at hpieces
  obtain ⟨hnamespace, hfirst, hchildren⟩ := hpieces
  rw [hsplit, List.length_cons, List.length_cons] at hlength
  rw [List.length_map, List.length_cons] at hmapped
  constructor
  · omega
  · obtain ⟨name, names, htypes', hname, hnames⟩ := List.map_eq_cons_iff.mp htypes
    refine ⟨name, names, htypes', ?_, ?_⟩
    · rw [hname, List.count_append, List.count_cons_self, List.count_eq_zero.mpr hnamespace,
        List.count_eq_zero.mpr hfirst]
    · intro child hchild
      exact hchildren _ (hnames ▸ List.mem_map_of_mem hchild)

end

/-! ## Letter case -/

theorem asciiLowercase_eq_iff {a b : String} : asciiLowercase a = asciiLowercase b ↔
    a.toList.map Char.toLower = b.toList.map Char.toLower := by
  rw [← String.toList_inj, asciiLowercase, asciiLowercase, String.toList_map, String.toList_map]

/-- As many names of types, which differ in letter case at most. -/
def SameNames (t t' : ResourceType) : Prop :=
  List.Forall₂ (fun a b => asciiLowercase a = asciiLowercase b) t.types t'.types

theorem sameNames_iff {t t' : ResourceType} : t.SameNames t' ↔
    (t.types.map String.toList).map (List.map Char.toLower) =
      (t'.types.map String.toList).map (List.map Char.toLower) := by
  rw [← List.forall₂_eq_eq_eq, List.map_map, List.map_map, List.forall₂_map_left_iff,
    List.forall₂_map_right_iff]
  simp only [SameNames, asciiLowercase_eq_iff, Function.comp_apply]

variable {text text' : String} {t t' : ResourceType}

/-- Slashes have no case, so names that are joined by them are the same joined just if they are the
same one by one. -/
theorem fullyQualified_sameCase_iff (h : parse text = .ok t) (h' : parse text' = .ok t') :
    asciiLowercase t.fullyQualified = asciiLowercase t'.fullyQualified ↔ t.SameNames t' := by
  rw [asciiLowercase_eq_iff, sameNames_iff]
  constructor
  · intro heq
    rw [fullyQualified_of_parse h, fullyQualified_of_parse h'] at heq
    have hpieces := congrArg (List.splitOn '/') heq
    rw [splitOn_map toLower_eq_slash_iff, splitOn_map toLower_eq_slash_iff] at hpieces
    obtain ⟨namespacePart, first, children, hsplit, htypes⟩ := exists_pieces h
    obtain ⟨namespacePart', first', children', hsplit', htypes'⟩ := exists_pieces h'
    rw [hsplit, hsplit'] at hpieces
    simp only [List.map_cons, List.cons.injEq] at hpieces
    obtain ⟨hnamespace, hfirst, hchildren⟩ := hpieces
    rw [htypes, htypes']
    simp only [List.map_cons, List.map_append, hnamespace, hfirst, hchildren]
  · intro heq
    rw [fullyQualified, fullyQualified, String.toList_intercalate, String.toList_intercalate,
      map_intercalate, map_intercalate, heq]

/-- A text is read as a type just if it is legible, and the type is written as the text again. Types
are the same up to letter case as a whole just if they are so name by name. -/
theorem parse_toString_inverse :
    (∀ text : String, (∃ t, parse text = .ok t) ↔ Legible text.toList) ∧
    (∀ text t, parse text = .ok t →
      toString t = text ∧
      t.fullyQualified.toList = typePart text.toList ∧
      t.types.length = (typePart text.toList).count '/' ∧
      (∃ first children, t.types = first :: children ∧ first.toList.count '/' = 1 ∧
        ∀ child ∈ children, '/' ∉ child.toList) ∧
      parse (toString t) = .ok t) ∧
    ∀ text text' t t', parse text = .ok t → parse text' = .ok t' →
      (asciiLowercase t.fullyQualified = asciiLowercase t'.fullyQualified ↔ t.SameNames t') := by
  refine ⟨fun text => ?_, fun text t h => ?_, fun _ _ _ _ => fullyQualified_sameCase_iff⟩
  · simp only [parse_eq_ok_iff]
    exact exists_ofChars_iff
  · have hwritten := toString_of_parse h
    obtain ⟨hlength, hslashes⟩ := slashes_of_parse h
    exact ⟨hwritten, fullyQualified_of_parse h, hlength, hslashes, by rw [hwritten, h]⟩

theorem parse_toString_inverse_laterMarks :
    parse "Ns/a/B@1@/x" = .ok ⟨["Ns/a", "B"], some "1@/x"⟩ ∧
    parse "nS/A/b" = .ok ⟨["nS/A", "b"], none⟩ ∧
    toString (⟨["Ns/a", "B"], some "1@/x"⟩ : ResourceType) = "Ns/a/B@1@/x" ∧
    asciiLowercase "Ns/a/B" = asciiLowercase "nS/A/b" := by
  have h : parse "Ns/a/B@1@/x" = .ok ⟨["Ns/a", "B"], some "1@/x"⟩ := by
    cbv
  have h' : parse "nS/A/b" = .ok ⟨["nS/A", "b"], none⟩ := by
    cbv
  have hnames : SameNames ⟨["Ns/a", "B"], some "1@/x"⟩ ⟨["nS/A", "b"], none⟩ :=
    sameNames_iff.mpr (by decide)
  have written := (parse_toString_inverse.2.1 _ _ h).1
  exact ⟨h, h', written, (parse_toString_inverse.2.2 _ _ _ _ h h').mpr hnames⟩

end ResourceType

end Preflight
