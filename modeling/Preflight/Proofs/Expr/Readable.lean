import Preflight.Expr.Children
import Preflight.Expr.Printer
import Preflight.Proofs.Parser.Reads

/-! # Expressions that can be written

Which trees are the tree of a text, and what their texts look like: they stand on one line, and
they begin so that they are told from a parameter list. -/

namespace Preflight
set_option autoImplicit false

/-- Words that stand for a literal and never for a variable or a function. -/
def isKeyword (x : String) : Bool := x ∈ ["true", "false", "null"]

def isOneLine (text : String) : Bool := '\n' ∉ text.toList

namespace Expr

/-- Whether the node itself can be written. -/
def isWritable : Expr → Bool
  | string _ segments holes => segments.length == holes.length + 1 && segments.all isOneLine
  | int _ value => -Parser.integerBound ≤ value && value < Parser.integerBound
  | var _ name | call _ none name _ => isName name && !isKeyword name
  | object _ properties => properties.all fun p => isOneLine p.key
  | member _ _ name | call _ (some _) name _ => isName name
  | loop _ item index _ _ => isName item.name && index.all fun v => isName v.name
  | lambda _ params _ => params.all fun v => isName v.name
  | bool .. | null .. | array .. | subscript .. | unary .. | binary .. | ternary .. => true

/-- Every node can be written. -/
def Readable (e : Expr) : Prop := ∀ x, PartOf x e → x.isWritable

theorem readable_iff {e : Expr} :
    e.Readable ↔ e.isWritable ∧ ∀ c ∈ e.children, c.Readable := by
  constructor
  · exact fun h => ⟨h e (.self e), fun c hc x hx => h x (.child hc hx)⟩
  · rintro ⟨own, children⟩ x hx
    cases hx with
    | self => exact own
    | child mem part => exact children _ mem x part

theorem renderAll_eq_map (es : List Expr) : renderAll es = es.map render := by
  induction es with
  | nil => rfl
  | cons e es ih => rw [renderAll, ih, List.map_cons]

def renderProperty (p : Property Expr) : List Char :=
  quoteLiteral p.key ++ ": ".toList ++ parenthesize p.value.render

theorem renderProperties_eq_map (ps : List (Property Expr)) :
    renderProperties ps = ps.map renderProperty := by
  induction ps with
  | nil => rfl
  | cons p ps ih => rw [renderProperties, ih, List.map_cons, renderProperty]

end Expr

/-! ## Integers -/

theorem toList_toString_ofNat (n : Nat) : (toString (n : Int)).toList = Nat.toDigits 10 n := by
  simp [Int.toString_eq_repr, Int.repr, Nat.toList_repr]

theorem toList_toString_negSucc (n : Nat) :
    (toString (Int.negSucc n)).toList = '-' :: Nat.toDigits 10 (n + 1) := by
  simp [Int.toString_eq_repr, Int.repr, Nat.toList_repr]

theorem isDigit_of_mem_toDigits {n : Nat} {c : Char} (h : c ∈ Nat.toDigits 10 n) : c.isDigit :=
  Nat.isDigit_of_mem_toDigits (by decide) (by decide) h

theorem exists_cons_toDigits (n : Nat) : ∃ c cs, Nat.toDigits 10 n = c :: cs ∧ c.isDigit := by
  cases h : Nat.toDigits 10 n with
  | nil => exact absurd h Nat.toDigits_ne_nil
  | cons c cs => exact ⟨c, cs, rfl, isDigit_of_mem_toDigits (h ▸ List.mem_cons_self)⟩

/-! ## Lists -/

@[simp] theorem separate_singleton (item : List Char) : separate [item] = item :=
  List.intercalate_singleton

theorem separate_cons_cons (item next : List Char) (items : List (List Char)) :
    separate (item :: next :: items) = item ++ ',' :: ' ' :: separate (next :: items) := by
  rw [separate, List.intercalate_cons_cons, List.append_assoc]
  rfl

/-! ## One line -/

section

variable {c : Char}

theorem exists_separate_cons (item : List Char) (items : List (List Char)) :
    ∃ text, separate (item :: items) = item ++ text := by
  cases items with
  | nil => exact ⟨[], by rw [separate_singleton, List.append_nil]⟩
  | cons next items => exact ⟨_, separate_cons_cons item next items⟩

theorem mem_separate {items : List (List Char)} (h : c ∈ separate items) :
    c ∈ ", ".toList ∨ ∃ item ∈ items, c ∈ item := by
  induction items with
  | nil => exact absurd h List.not_mem_nil
  | cons item items ih =>
    cases items with
    | nil => exact .inr ⟨item, List.mem_cons_self, by simpa [separate] using h⟩
    | cons next items =>
      rw [separate, List.intercalate_cons_cons, List.append_assoc, List.mem_append,
        List.mem_append] at h
      rcases h with h | h | h
      · exact .inr ⟨item, List.mem_cons_self, h⟩
      · exact .inl h
      · exact (ih h).imp_right fun ⟨x, hx, hc⟩ => ⟨x, List.mem_cons_of_mem _ hx, hc⟩

theorem mem_escapeLiteral {text : String} (h : c ∈ escapeLiteral text) :
    c = '\\' ∨ c ∈ text.toList := by
  obtain ⟨d, hd, hc⟩ := List.mem_flatMap.mp h
  split at hc
  · rcases List.mem_cons.mp hc with rfl | hc
    · exact .inl rfl
    · exact .inr (List.mem_singleton.mp hc ▸ hd)
  · exact .inr (List.mem_singleton.mp hc ▸ hd)

theorem newline_not_mem_name {x : String} (h : isName x) : '\n' ∉ x.toList := by
  obtain ⟨_, _, _, _, chars⟩ := exists_cons_of_isName h
  exact fun hn => absurd (chars _ hn) (by decide)

theorem newline_not_mem_escapeLiteral {text : String} (h : isOneLine text) :
    '\n' ∉ escapeLiteral text := by
  intro hn
  rcases mem_escapeLiteral hn with hn | hn
  · exact absurd hn (by decide)
  · simp [isOneLine, hn] at h

theorem newline_not_mem_separate {items : List (List Char)} (h : ∀ item ∈ items, '\n' ∉ item) :
    '\n' ∉ separate items := by
  intro hn
  rcases mem_separate hn with hn | ⟨item, hitem, hn⟩
  · exact absurd hn (by decide)
  · exact h item hitem hn

@[simp] theorem newline_mem_parenthesize {text : List Char} :
    '\n' ∈ parenthesize text ↔ '\n' ∈ text := by
  simp [parenthesize]

theorem newline_not_mem_toString (value : Int) : '\n' ∉ (toString value).toList := by
  intro hn
  cases value with
  | ofNat n =>
    rw [Int.ofNat_eq_natCast, toList_toString_ofNat] at hn
    exact absurd (isDigit_of_mem_toDigits hn) (by decide)
  | negSucc n =>
    rw [toList_toString_negSucc, List.mem_cons] at hn
    rcases hn with hn | hn
    · exact absurd hn (by decide)
    · exact absurd (isDigit_of_mem_toDigits hn) (by decide)

end

theorem newline_not_mem_renderVariables {item : LocalVar} {index : Option LocalVar}
    (hitem : isName item.name) (hindex : index.all fun v => isName v.name) :
    '\n' ∉ Expr.renderVariables item index := by
  cases index with
  | none => exact newline_not_mem_name hitem
  | some index =>
    have hindex : isName index.name := hindex
    refine mt newline_mem_parenthesize.mp (newline_not_mem_separate ?_)
    simp [newline_not_mem_name hitem, newline_not_mem_name hindex]

theorem newline_not_mem_unary (op : UnaryOp) : '\n' ∉ op.token.toList := by
  cases op <;> decide

theorem newline_not_mem_binary (op : BinaryOp) : '\n' ∉ op.token.toList := by
  cases op <;> decide

namespace Expr

theorem newline_not_mem_interleave {segments : List String} {holes : List (List Char)}
    (hsegments : ∀ s ∈ segments, isOneLine s) (hholes : ∀ hole ∈ holes, '\n' ∉ hole) :
    '\n' ∉ interleave segments holes := by
  induction segments, holes using interleave.induct with
  | case1 holes =>
    simp only [interleave, List.mem_flatMap, not_exists, not_and]
    intro hole hhole
    simp [hholes hole hhole]
  | case2 segment segments ih =>
    rw [List.forall_mem_cons] at hsegments
    simp [interleave, newline_not_mem_escapeLiteral hsegments.1, ih hsegments.2 hholes]
  | case3 segment segments hole holes ih =>
    rw [List.forall_mem_cons] at hsegments hholes
    simp [interleave, newline_not_mem_escapeLiteral hsegments.1,
      hholes.1, ih hsegments.2 hholes.2]

theorem newline_not_mem_renderAll {es : List Expr} (h : ∀ e ∈ es, '\n' ∉ e.render) :
    '\n' ∉ separate ((renderAll es).map parenthesize) := by
  refine newline_not_mem_separate ?_
  simpa [renderAll_eq_map] using h

theorem newline_not_mem_renderProperties {ps : List (Property Expr)}
    (hkeys : ∀ p ∈ ps, isOneLine p.key) (hvalues : ∀ p ∈ ps, '\n' ∉ p.value.render) :
    '\n' ∉ separate (renderProperties ps) := by
  refine newline_not_mem_separate ?_
  simp only [renderProperties_eq_map, List.forall_mem_map]
  intro p hp
  simp [renderProperty, quoteLiteral, newline_not_mem_escapeLiteral (hkeys p hp), hvalues p hp]

theorem newline_not_mem_render_of_children {e : Expr} (own : e.isWritable)
    (inside : ∀ c ∈ e.children, '\n' ∉ c.render) : '\n' ∉ e.render := by
  rcases e with _ | _ | _ | _ | _ | _ | _ | _ | _ | ⟨_, _ | _, _, _⟩ | _ | _ | _ | _ | _ <;>
    simp only [children, List.mem_append, Option.toList_some, Option.toList_none, List.mem_cons,
      List.not_mem_nil, forall_eq_or_imp, false_imp_iff, implies_true, or_false,
      forall_eq, false_or, List.forall_mem_map] at inside <;>
    simp only [isWritable, Bool.and_eq_true, List.all_eq_true] at own
  case string n segments holes =>
    have hholes : ∀ hole ∈ renderAll holes, '\n' ∉ hole := by simpa [renderAll_eq_map] using inside
    simp [render, newline_not_mem_interleave own.2 hholes]
  case int n value => exact newline_not_mem_toString value
  case bool n value =>
    rw [render]
    cases value <;> decide
  case null n =>
    rw [render]
    decide
  case var n name => exact newline_not_mem_name own.1
  case array n items => simp [render, newline_not_mem_renderAll inside]
  case object n ps => simp [render, newline_not_mem_renderProperties own inside]
  case member n base name => simp [render, newline_not_mem_name own, inside]
  case subscript => simp [render, inside]
  case call.none n name args =>
    simp [render, newline_not_mem_name own.1, newline_not_mem_renderAll inside]
  case call.some n name args base =>
    simp [render, newline_not_mem_name own, inside.1, newline_not_mem_renderAll inside.2]
  case unary => simp [render, newline_not_mem_unary, inside]
  case binary => simp [render, newline_not_mem_binary, inside]
  case ternary => simp [render, inside]
  case loop => simp [render, newline_not_mem_renderVariables own.1 own.2, inside]
  case lambda n params body =>
    have written : '\n' ∉ separate (params.map fun v => v.name.toList) := by
      refine newline_not_mem_separate ?_
      simp only [List.forall_mem_map]
      exact fun v hv => newline_not_mem_name (own v hv)
    simp [render, written, inside]

/-- What can be written stands on one line. -/
theorem newline_not_mem_render {e : Expr} (h : e.Readable) : '\n' ∉ e.render := by
  induction e using childInduction with
  | step e ih =>
    obtain ⟨own, inside⟩ := readable_iff.mp h
    exact newline_not_mem_render_of_children own fun c hc => ih c hc (inside c hc)

/-! ## Beginnings -/

/-- How the text of an expression begins: as a name that is all of it, as a name before an opening
parenthesis, or as neither a name nor the end of a parameter list. -/
inductive Opening : List Char → Prop where
  | name {x : String} (hx : isName x) : Opening x.toList
  | called {x : String} (hx : isName x) (text : List Char) : Opening (x.toList ++ '(' :: text)
  | other {c : Char} (text : List Char) (blank : isBlank c = false) (start : isNameStart c = false)
    (close : c ≠ ')') : Opening (c :: text)

theorem Opening.ne_nil {r : List Char} (h : Opening r) : r ≠ [] := by
  cases h with
  | name hx =>
    obtain ⟨c, cs, hcons, -⟩ := exists_cons_of_isName hx
    rw [hcons]
    exact List.cons_ne_nil c cs
  | called hx text => simp
  | other text => exact List.cons_ne_nil _ text

theorem Opening.digit {c : Char} (text : List Char) (h : c.isDigit) : Opening (c :: text) := by
  refine .other text (isBlank_of_isDigit h) (isNameStart_of_isDigit h) ?_
  rintro rfl
  exact absurd h (by decide)

theorem opening_render {e : Expr} (h : e.isWritable) : Opening e.render := by
  rcases e with _ | _ | _ | _ | _ | _ | _ | _ | _ | ⟨_, _ | _, _, _⟩ | _ | _ | _ | _ | _
  case int n value =>
    rw [render]
    cases value with
    | ofNat n =>
      obtain ⟨c, cs, hcons, hc⟩ := exists_cons_toDigits n
      rw [Int.ofNat_eq_natCast, toList_toString_ofNat, hcons]
      exact .digit cs hc
    | negSucc n =>
      rw [toList_toString_negSucc]
      exact .other _ rfl rfl (by decide)
  case bool n value =>
    rw [render]
    cases value
    · exact .name (x := "false") (by decide)
    · exact .name (x := "true") (by decide)
  case null n =>
    rw [render]
    exact .name (x := "null") (by decide)
  case var n name =>
    simp only [isWritable, Bool.and_eq_true] at h
    exact .name h.1
  case call.none n name args =>
    simp only [isWritable, Bool.and_eq_true] at h
    exact .called h.1 _
  case unary n op operand => cases op <;> exact .other _ rfl rfl (by decide)
  -- the others begin with a mark
  all_goals exact .other _ rfl rfl (by decide)

end Expr

/-! ## Lengths -/

@[simp] theorem length_parenthesize (text : List Char) :
    (parenthesize text).length = text.length + 2 := by
  simp [parenthesize]

theorem length_le_length_separate {item : List Char} {items : List (List Char)} (h : item ∈ items) :
    item.length ≤ (separate items).length := by
  induction items with
  | nil => cases h
  | cons first items ih =>
    cases items with
    | nil => simp_all
    | cons next items =>
      rw [separate_cons_cons, List.length_append, List.length_cons, List.length_cons]
      rcases List.mem_cons.mp h with rfl | h
      · omega
      · have := ih h
        omega

theorem length_le_separate {items : List (List Char)} (h : ∀ item ∈ items, item ≠ []) :
    items.length ≤ (separate items).length := by
  induction items with
  | nil => exact Nat.zero_le _
  | cons first items ih =>
    rw [List.forall_mem_cons] at h
    have hfirst := List.length_pos_iff.mpr h.1
    cases items with
    | nil => exact (separate_singleton first).symm ▸ hfirst
    | cons next items =>
      have := ih h.2
      simp only [separate_cons_cons, List.length_append, List.length_cons] at *
      omega

namespace Expr

theorem length_hole {segments : List String} {holes : List (List Char)} {hole : List Char}
    (hlength : segments.length = holes.length + 1) (h : hole ∈ holes) :
    hole.length + 2 ≤ (interleave segments holes).length := by
  induction segments, holes using interleave.induct with
  | case1 => cases hlength
  | case2 => cases h
  | case3 segment segments first holes ih =>
    simp only [interleave, List.length_append, List.length_cons, length_parenthesize]
    rcases List.mem_cons.mp h with rfl | h
    · omega
    · have := ih (Nat.succ.inj hlength) h
      omega

theorem length_segments_le {segments : List String} {holes : List (List Char)}
    (hlength : segments.length = holes.length + 1) :
    segments.length ≤ (interleave segments holes).length + 1 := by
  induction segments, holes using interleave.induct with
  | case1 => cases hlength
  | case2 segment segments =>
    obtain rfl : segments = [] := List.length_eq_zero_iff.mp (Nat.succ.inj hlength)
    exact Nat.le_add_left _ _
  | case3 segment segments first holes ih =>
    have := ih (Nat.succ.inj hlength)
    simp only [interleave, List.length_append, List.length_cons]
    omega

theorem length_item {c : Expr} {es : List Expr} (h : c ∈ es) :
    c.render.length + 2 ≤ (separate ((renderAll es).map parenthesize)).length := by
  rw [← length_parenthesize, renderAll_eq_map]
  exact length_le_length_separate (List.mem_map_of_mem (List.mem_map_of_mem h))

theorem length_items_le (es : List Expr) :
    es.length ≤ (separate ((renderAll es).map parenthesize)).length := by
  have nonempty : ∀ item ∈ (renderAll es).map parenthesize, item ≠ [] := by simp [parenthesize]
  simpa [renderAll_eq_map] using length_le_separate nonempty

theorem length_value {p : Property Expr} {ps : List (Property Expr)} (h : p ∈ ps) :
    p.value.render.length + 2 ≤ (separate (renderProperties ps)).length := by
  refine Nat.le_trans ?_ (length_le_length_separate
    (renderProperties_eq_map ps ▸ List.mem_map_of_mem h))
  simp only [renderProperty, List.length_append, length_parenthesize]
  omega

theorem length_properties_le (ps : List (Property Expr)) :
    ps.length ≤ (separate (renderProperties ps)).length := by
  have nonempty : ∀ item ∈ renderProperties ps, item ≠ [] := by
    simp [renderProperties_eq_map, renderProperty, quoteLiteral]
  simpa [renderProperties_eq_map] using length_le_separate nonempty

theorem length_names_le {xs : List String} (h : ∀ x ∈ xs, isName x) :
    xs.length ≤ (separate (xs.map String.toList)).length := by
  have hnames : ∀ item ∈ xs.map String.toList, item ≠ [] := by
    rw [List.forall_mem_map]
    exact fun x hx => (Opening.name (h x hx)).ne_nil
  simpa using length_le_separate hnames

theorem length_render_pos {e : Expr} (own : e.isWritable) : 0 < e.render.length :=
  List.length_pos_iff.mpr (opening_render own).ne_nil

/-- A child is written inside of its parent, with marks on both sides of it and one more. -/
theorem length_child {c e : Expr} (own : e.isWritable) (h : c ∈ e.children) :
    c.render.length + 3 ≤ e.render.length := by
  rcases e with _ | _ | _ | _ | _ | _ | _ | _ | _ | ⟨_, _ | _, _, _⟩ | _ | _ | _ | _ | _ <;>
    simp only [children, List.mem_append, Option.toList_some, Option.toList_none, List.mem_cons,
      List.not_mem_nil, or_false, false_or] at h <;>
    simp only [render, List.length_append, List.length_cons, length_parenthesize]
  case string n segments holes =>
    have hlength : segments.length = (renderAll holes).length + 1 := by
      simpa [isWritable, renderAll_eq_map] using (Bool.and_eq_true_iff.mp own).1
    have := length_hole hlength (renderAll_eq_map holes ▸ List.mem_map_of_mem h)
    omega
  case array n items =>
    have := length_item h
    omega
  case object n ps =>
    obtain ⟨p, hp, rfl⟩ := List.mem_map.mp h
    have := length_value hp
    omega
  case member n base name =>
    subst h
    omega
  case call.none n name args =>
    have := length_item h
    omega
  case call.some n name args base =>
    rcases h with rfl | h
    · omega
    · have := length_item h
      omega
  case unary n op operand =>
    subst h
    cases op <;> simp [UnaryOp.token] <;> omega
  case lambda n params body =>
    subst h
    omega
  case subscript | binary | loop => rcases h with rfl | rfl <;> omega
  case ternary => rcases h with rfl | rfl | rfl <;> omega

end Expr

end Preflight
