import Preflight.OnePass.Rules
import Preflight.Proofs.Layout.Cursor
import Preflight.Proofs.Layout.Lines

/-! # Looking at single bytes

What is looked for byte by byte are characters of one byte. The first byte of any other character
is none of them, so a look at a byte between two characters tells as much as a look at the
character there. -/

namespace Preflight
set_option autoImplicit false

namespace OnePass

/-! ## The first byte of a character -/

def leadByte (c : Char) : Char := Char.ofUInt8 ((String.utf8EncodeChar c).headD 0)

theorem toNat_leadByte (c : Char) :
    (leadByte c).toNat = c.toNat ∨ 128 ≤ c.toNat ∧ 128 ≤ (leadByte c).toNat := by
  have toNat (b : UInt8) : (Char.ofUInt8 b).toNat = b.toNat := rfl
  show _ = c.val.toNat ∨ 128 ≤ c.val.toNat ∧ _
  rw [leadByte, toNat, String.utf8EncodeChar]
  split
  next h =>
    left
    rw [List.headD_cons, UInt8.toNat_ofNat']
    omega
  next h =>
    right
    refine ⟨by omega, ?_⟩
    -- each longer encoding begins with a byte of its own range
    split_ifs
    all_goals
      rw [List.headD_cons, UInt8.toNat_ofNat']
      omega

theorem leadByte_eq_self {c : Char} (h : c.toNat < 128) : leadByte c = c := by
  rcases toNat_leadByte c with heq | ⟨hle, -⟩
  · exact Char.toNat_inj.mp heq
  · omega

theorem leadByte_eq_iff {c d : Char} (hd : d.toNat < 128) : leadByte c = d ↔ c = d := by
  constructor
  · rintro rfl
    rcases toNat_leadByte c with heq | ⟨-, hle⟩
    · exact (Char.toNat_inj.mp heq).symm
    · omega
  · rintro rfl
    exact leadByte_eq_self hd

theorem map_leadByte_beq (x : Option Char) {d : Char} (hd : d.toNat < 128) :
    (x.map leadByte == some d) = (x == some d) := by
  cases x with
  | none => rfl
  | some c =>
    rw [Option.map_some, Bool.eq_iff_iff, beq_iff_eq, beq_iff_eq, Option.some_inj, Option.some_inj,
      leadByte_eq_iff hd]

/-- A kind of characters of one byte. -/
def Single (p : Char → Bool) : Prop := ∀ c, p c = true → c.toNat < 128

theorem Single.leadByte {p : Char → Bool} (h : Single p) (c : Char) : p (leadByte c) = p c := by
  rcases toNat_leadByte c with heq | ⟨hc, hlead⟩
  · rw [Char.toNat_inj.mp heq]
  · have hfalse : ∀ d : Char, 128 ≤ d.toNat → p d = false := by
      intro d hd
      apply Bool.eq_false_iff.mpr
      intro hp
      have := h d hp
      omega
    rw [hfalse _ hlead, hfalse _ hc]

theorem Single.any_map {p : Char → Bool} (h : Single p) (x : Option Char) :
    (x.map OnePass.leadByte).any p = x.any p := by
  cases x with
  | none => rfl
  | some c => exact h.leadByte c

theorem Single.utf8Size {p : Char → Bool} (h : Single p) {c : Char} (hc : p c = true) :
    c.utf8Size = 1 := by
  have hval : c.val.toNat < 128 := h c hc
  exact Char.utf8Size_eq_one_iff.mpr (UInt32.le_iff_toNat_le.mpr (Nat.le_of_lt_succ hval))

theorem single_isDigit : Single Char.isDigit := by
  intro c hc
  exact Nat.lt_of_le_of_lt (Char.isDigit_iff_toNat.mp hc).2 (by decide)

theorem single_isBlank : Single isBlank := by
  intro c hc
  rw [isBlank, Bool.or_eq_true, beq_iff_eq, beq_iff_eq] at hc
  rcases hc with rfl | rfl <;> decide

theorem single_isAlpha : Single Char.isAlpha := by
  intro c hc
  have toNat (n : UInt32) : c.val ≤ n ↔ c.toNat ≤ n.toNat := UInt32.le_iff_toNat_le
  rcases Bool.or_eq_true_iff.mp hc with upper | lower
  · have hle := (toNat _).mp (of_decide_eq_true upper).2
    exact Nat.lt_of_le_of_lt hle (by decide)
  · have hle := (toNat _).mp (of_decide_eq_true (Bool.and_eq_true_iff.mp lower).2)
    exact Nat.lt_of_le_of_lt hle (by decide)

theorem single_isNameStart : Single isNameStart := by
  intro c hc
  rcases Bool.or_eq_true_iff.mp hc with halpha | hunderscore
  · exact single_isAlpha c halpha
  · rw [beq_iff_eq] at hunderscore
    rw [hunderscore]
    decide

theorem single_isNameChar : Single isNameChar := by
  intro c hc
  rcases Bool.or_eq_true_iff.mp hc with halnum | hunderscore
  · rcases Bool.or_eq_true_iff.mp halnum with halpha | hdigit
    · exact single_isAlpha c halpha
    · exact single_isDigit c hdigit
  · rw [beq_iff_eq] at hunderscore
    rw [hunderscore]
    decide

/-! ## Bytes of a text -/

theorem head?_utf8Bytes (text : List Char) : (utf8Bytes text).head? = text.head?.map leadByte := by
  cases text with
  | nil => rfl
  | cons c text =>
    have hlength : (String.utf8EncodeChar c).length = c.utf8Size := String.length_utf8EncodeChar c
    have hpos := c.utf8Size_pos
    rw [utf8Bytes, List.flatMap_cons, List.head?_cons, Option.map_some, leadByte]
    cases hc : String.utf8EncodeChar c with
    | nil =>
      rw [hc, List.length_nil] at hlength
      omega
    | cons b bytes => rfl

theorem length_utf8Bytes (text : List Char) : (utf8Bytes text).length = utf8Length text := by
  induction text with
  | nil => rfl
  | cons c text ih =>
    rw [utf8Bytes, List.flatMap_cons, List.length_append, List.length_map,
      String.length_utf8EncodeChar, utf8Length_cons, ← ih, utf8Bytes]

/-- The byte after the first characters of a text. -/
theorem getElem?_utf8Bytes (before rest : List Char) :
    (utf8Bytes (before ++ rest))[utf8Length before]? = rest.head?.map leadByte := by
  rw [← head?_utf8Bytes, utf8Bytes, List.flatMap_append, ← utf8Bytes, ← utf8Bytes,
    ← length_utf8Bytes, List.getElem?_append_right (Nat.le_refl _), Nat.sub_self,
    List.head?_eq_getElem?]

theorem utf8Length_of_single {p : Char → Bool} (h : Single p) {text : List Char}
    (htext : ∀ c ∈ text, p c = true) : utf8Length text = text.length := by
  induction text with
  | nil => rfl
  | cons c text ih =>
    rw [List.forall_mem_cons] at htext
    rw [utf8Length_cons, h.utf8Size htext.1, ih htext.2, List.length_cons, Nat.add_comm]

/-- What stands between two places of a text. -/
theorem slice?_append (before middle rest : List Char) :
    slice? (before ++ (middle ++ rest)) (utf8Length before) (utf8Length (before ++ middle)) =
      some middle := by
  have hfirst := splitBytes?_eq_some_iff.mpr
    ⟨(rfl : before ++ (middle ++ rest) = before ++ (middle ++ rest)), rfl⟩
  have hsecond := splitBytes?_eq_some_iff.mpr ⟨(rfl : middle ++ rest = middle ++ rest), rfl⟩
  rw [utf8Length_append, slice?, if_pos (Nat.le_add_right _ _), hfirst, Nat.add_sub_cancel_left]
  show (splitBytes? (utf8Length middle) (middle ++ rest)).bind _ = _
  rw [hsecond]
  rfl

/-- An offset between characters of the text. -/
def Boundary (text : List Char) (i : Nat) : Prop :=
  ∃ taken rest, text = taken ++ rest ∧ i = utf8Length taken

end OnePass

namespace Cursor.At

variable {text : List Char} {c c' : Cursor}

theorem boundary (h : c.At text) : OnePass.Boundary text c.offset := by
  obtain ⟨before, htext, hoffset⟩ := h
  exact ⟨before, c.rest, htext, hoffset⟩

/-- Where less is left of the text, more stands before. -/
theorem exists_between (h : c.At text) (h' : c'.At text) (hle : c'.rest.length ≤ c.rest.length) :
    ∃ between, c.rest = between ++ c'.rest ∧ c'.offset = c.offset + utf8Length between := by
  obtain ⟨before, htext, hoffset⟩ := h
  obtain ⟨before', htext', hoffset'⟩ := h'
  have hlength := congrArg List.length htext
  have hlength' := congrArg List.length htext'
  rw [List.length_append] at hlength hlength'
  have hbefore : before <+: text := htext ▸ List.prefix_append before c.rest
  have hbefore' : before' <+: text := htext' ▸ List.prefix_append before' c'.rest
  obtain ⟨between, rfl⟩ := List.prefix_of_prefix_length_le hbefore hbefore' (by omega)
  refine ⟨between, ?_, by rw [hoffset, hoffset', utf8Length_append]⟩
  apply (List.append_right_inj before).mp
  rw [← htext, htext', List.append_assoc]

theorem offset_le (h : c.At text) (h' : c'.At text) (hle : c'.rest.length ≤ c.rest.length) :
    c.offset ≤ c'.offset := by
  obtain ⟨between, -, hoffset⟩ := h.exists_between h' hle
  omega

theorem offset_lt (h : c.At text) (h' : c'.At text) (hlt : c'.rest.length < c.rest.length) :
    c.offset < c'.offset := by
  obtain ⟨between, hrest, hoffset⟩ := h.exists_between h' (Nat.le_of_lt hlt)
  cases between with
  | nil =>
    rw [hrest, List.nil_append] at hlt
    exact absurd hlt (Nat.lt_irrefl _)
  | cons d between =>
    have hpos := d.utf8Size_pos
    rw [utf8Length_cons] at hoffset
    omega

end Cursor.At

end Preflight
