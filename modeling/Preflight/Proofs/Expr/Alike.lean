import Mathlib.Data.List.Forall2
import Preflight.Expr.Structure
import Preflight.Proofs.Expr.Relabelling

/-! # Structural equality as equality of normal forms

Both the comparison and the normal form are taken apart one node at a time, into `Matches`; an
induction over children joins them. What is known of equality then holds of structural equality. -/

namespace Preflight
set_option autoImplicit false

theorem forall₂_map_eq_iff {α β : Type} {f : α → β} {xs ys : List α} :
    List.Forall₂ (fun x y => f x = f y) xs ys ↔ xs.map f = ys.map f := by
  rw [← List.forall₂_eq_eq_eq, List.forall₂_map_left_iff, List.forall₂_map_right_iff]

theorem optionRel_map_eq_iff {α β : Type} {f : α → β} {x y : Option α} :
    Option.Rel (fun a b => f a = f b) x y ↔ x.map f = y.map f := by
  cases x <;> cases y <;> simp

theorem forall₂_imp_of_mem {α β : Type} {R S : α → β → Prop} {xs : List α} {ys : List β}
    (h : ∀ x ∈ xs, ∀ y, R x y → S x y) (hR : List.Forall₂ R xs ys) : List.Forall₂ S xs ys := by
  induction hR with
  | nil => exact .nil
  | cons hxy _ ih =>
    exact .cons (h _ List.mem_cons_self _ hxy)
      (ih fun x hx => h x (List.mem_cons_of_mem _ hx))

namespace Expr

/-- Two nodes of one kind that say the same, spans, indices and the case of literal text aside,
and whose children are related one by one. -/
inductive Matches (R : Expr → Expr → Prop) : Expr → Expr → Prop where
  | string {m n : Node} {s t : List String} {hs ks : List Expr}
      (segments : s.map lowercase = t.map lowercase) (holes : List.Forall₂ R hs ks) :
      Matches R (.string m s hs) (.string n t ks)
  | int {m n : Node} {v : Int} : Matches R (.int m v) (.int n v)
  | bool {m n : Node} {v : Bool} : Matches R (.bool m v) (.bool n v)
  | null {m n : Node} : Matches R (.null m) (.null n)
  | var {m n : Node} {x : String} : Matches R (.var m x) (.var n x)
  | array {m n : Node} {es fs : List Expr} (items : List.Forall₂ R es fs) :
      Matches R (.array m es) (.array n fs)
  | object {m n : Node} {ps qs : List (Property Expr)}
      (properties : List.Forall₂ (fun p q => p.key = q.key ∧ R p.value q.value) ps qs) :
      Matches R (.object m ps) (.object n qs)
  | member {m n : Node} {b c : Expr} {x : String} (base : R b c) :
      Matches R (.member m b x) (.member n c x)
  | subscript {m n : Node} {b c k l : Expr} (base : R b c) (key : R k l) :
      Matches R (.subscript m b k) (.subscript n c l)
  | call {m n : Node} {b c : Option Expr} {x : String} {es fs : List Expr}
      (base : Option.Rel R b c) (args : List.Forall₂ R es fs) :
      Matches R (.call m b x es) (.call n c x fs)
  | unary {m n : Node} {o : UnaryOp} {b c : Expr} (operand : R b c) :
      Matches R (.unary m o b) (.unary n o c)
  | binary {m n : Node} {o : BinaryOp} {l r l' r' : Expr} (lhs : R l l') (rhs : R r r') :
      Matches R (.binary m o l r) (.binary n o l' r')
  | ternary {m n : Node} {c t f c' t' f' : Expr} (condition : R c c') (ifTrue : R t t')
      (ifFalse : R f f') : Matches R (.ternary m c t f) (.ternary n c' t' f')
  | loop {m n : Node} {x y : LocalVar} {i j : Option LocalVar} {c b c' b' : Expr}
      (item : x.name = y.name) (index : i.map LocalVar.name = j.map LocalVar.name)
      (collection : R c c') (body : R b b') : Matches R (.loop m x i c b) (.loop n y j c' b')
  | lambda {m n : Node} {xs ys : List LocalVar} {b c : Expr}
      (params : xs.map LocalVar.name = ys.map LocalVar.name) (body : R b c) :
      Matches R (.lambda m xs b) (.lambda n ys c)

theorem Matches.imp {R S : Expr → Expr → Prop} {a b : Expr}
    (h : ∀ c ∈ a.children, ∀ d, R c d → S c d) (hab : Matches R a b) : Matches S a b := by
  cases hab with
  | string segments holes => exact .string segments (forall₂_imp_of_mem h holes)
  | int => exact .int
  | bool => exact .bool
  | null => exact .null
  | var => exact .var
  | array items => exact .array (forall₂_imp_of_mem h items)
  | object properties =>
    refine .object (forall₂_imp_of_mem ?_ properties)
    rintro p hp q ⟨hkey, hvalue⟩
    exact ⟨hkey, h _ (List.mem_map_of_mem hp) _ hvalue⟩
  | member base => exact .member (h _ (by simp [children]) _ base)
  | subscript base key =>
    exact .subscript (h _ (by simp [children]) _ base) (h _ (by simp [children]) _ key)
  | call base args =>
    refine .call ?_ (forall₂_imp_of_mem (fun c hc => h c (List.mem_append_right _ hc)) args)
    cases base with
    | some base => exact .some (h _ (by simp [children]) _ base)
    | none => exact .none
  | unary operand => exact .unary (h _ (by simp [children]) _ operand)
  | binary lhs rhs =>
    exact .binary (h _ (by simp [children]) _ lhs) (h _ (by simp [children]) _ rhs)
  | ternary condition ifTrue ifFalse =>
    exact .ternary (h _ (by simp [children]) _ condition) (h _ (by simp [children]) _ ifTrue)
      (h _ (by simp [children]) _ ifFalse)
  | loop item index collection body =>
    exact .loop item index (h _ (by simp [children]) _ collection)
      (h _ (by simp [children]) _ body)
  | lambda params body => exact .lambda params (h _ (by simp [children]) _ body)

/-! ## The comparison, node by node -/

theorem alikeAll_iff {es fs : List Expr} :
    alikeAll es fs = true ↔ List.Forall₂ (fun e f => e.alike f = true) es fs := by
  induction es generalizing fs with
  | nil => cases fs <;> simp [alikeAll]
  | cons e es ih => cases fs <;> simp [alikeAll, ih]

theorem alikeProperties_iff {ps qs : List (Property Expr)} :
    alikeProperties ps qs = true ↔
      List.Forall₂ (fun p q => p.key = q.key ∧ p.value.alike q.value = true) ps qs := by
  induction ps generalizing qs with
  | nil => cases qs <;> simp [alikeProperties]
  | cons p ps ih => cases qs <;> simp [alikeProperties, ih, and_assoc]

theorem matches_of_alike {a b : Expr} (h : a.alike b = true) :
    Matches (fun c d => c.alike d = true) a b := by
  -- Of the fifteen kinds on the right, the comparison refuses all but the one on the left.
  rcases a with _ | _ | _ | _ | _ | _ | _ | _ | _ | ⟨_, _ | _, _, _⟩ | _ | _ | _ | _ | _ <;>
    rcases b with _ | _ | _ | _ | _ | _ | _ | _ | _ | ⟨_, _ | _, _, _⟩ | _ | _ | _ | _ | _ <;>
    simp only [alike, alikeSegments, Bool.and_eq_true, beq_iff_eq, alikeAll_iff,
      alikeProperties_iff, Bool.false_eq_true] at h
  case string.string => exact .string h.1 h.2
  case int.int => exact h ▸ .int
  case bool.bool => exact h ▸ .bool
  case null.null => exact .null
  case var.var => exact h ▸ .var
  case array.array => exact .array h
  case object.object => exact .object h
  case member.member => exact h.1 ▸ .member h.2
  case subscript.subscript => exact .subscript h.1 h.2
  case call.none.call.none => exact h.1 ▸ .call .none h.2
  case call.some.call.some => exact h.1.1 ▸ .call (.some h.1.2) h.2
  case unary.unary => exact h.1 ▸ .unary h.2
  case binary.binary => exact h.1.1 ▸ .binary h.1.2 h.2
  case ternary.ternary => exact .ternary h.1.1 h.1.2 h.2
  case loop.loop => exact .loop h.1.1.1 h.1.1.2 h.1.2 h.2
  case lambda.lambda => exact .lambda h.1 h.2

theorem alike_of_matches {a b : Expr} (h : Matches (fun c d => c.alike d = true) a b) :
    a.alike b = true := by
  cases h with
  | string segments holes => simp [alike, alikeSegments, segments, alikeAll_iff.mpr holes]
  | int | bool | null | var => simp [alike]
  | array items => exact alikeAll_iff.mpr items
  | object properties => exact alikeProperties_iff.mpr properties
  | member base => simp [alike, base]
  | subscript base key => simp [alike, base, key]
  | call base args => cases base <;> simp [alike, alikeAll_iff.mpr args, *]
  | unary operand => simp [alike, operand]
  | binary lhs rhs => simp [alike, lhs, rhs]
  | ternary condition ifTrue ifFalse => simp [alike, condition, ifTrue, ifFalse]
  | loop item index collection body => simp [alike, item, index, collection, body]
  | lambda params body => simp [alike, params, body]

theorem alike_iff_matches {a b : Expr} :
    a.alike b = true ↔ Matches (fun c d => c.alike d = true) a b :=
  ⟨matches_of_alike, alike_of_matches⟩

/-! ## The normal form, node by node -/

theorem normalVar_eq_iff {x y : LocalVar} :
    x.map { span := fun _ => {}, index := fun _ => 0, segment := lowercase } =
        y.map { span := fun _ => {}, index := fun _ => 0, segment := lowercase } ↔
      x.name = y.name := by
  simp [LocalVar.map, Node.map]

theorem normalForm_eq_iff_matches {a b : Expr} :
    a.normalForm = b.normalForm ↔ Matches (fun c d => c.normalForm = d.normalForm) a b := by
  unfold normalForm
  constructor
  · intro h
    cases a <;> cases b <;>
      simp only [map, map_call, mapAll_eq_map, mapProperties_eq_map, Node.map, reduceCtorEq,
        string.injEq, int.injEq, bool.injEq, var.injEq, array.injEq, object.injEq, member.injEq,
        subscript.injEq, call.injEq, unary.injEq, binary.injEq, ternary.injEq, loop.injEq,
        lambda.injEq, true_and, ← forall₂_map_eq_iff, ← optionRel_map_eq_iff, normalVar_eq_iff,
        Property.mk.injEq] at h
    case string.string => exact .string (forall₂_map_eq_iff.mp h.1) h.2
    case int.int => exact h ▸ .int
    case bool.bool => exact h ▸ .bool
    case null.null => exact .null
    case var.var => exact h ▸ .var
    case array.array => exact .array h
    case object.object => exact .object h
    case member.member => exact h.2 ▸ .member h.1
    case subscript.subscript => exact .subscript h.1 h.2
    case call.call => exact h.2.1 ▸ .call h.1 h.2.2
    case unary.unary => exact h.1 ▸ .unary h.2
    case binary.binary => exact h.1 ▸ .binary h.2.1 h.2.2
    case ternary.ternary => exact .ternary h.1 h.2.1 h.2.2
    case loop.loop =>
      exact .loop h.1 (optionRel_map_eq_iff.mp h.2.1) h.2.2.1 h.2.2.2
    case lambda.lambda => exact .lambda (forall₂_map_eq_iff.mp h.1) h.2
  · intro h
    cases h with
    | string segments holes =>
      simp [map, Node.map, mapAll_eq_map, segments, forall₂_map_eq_iff.mp holes]
    | int | bool | null | var => simp [map, Node.map]
    | array items => simp [map, Node.map, mapAll_eq_map, forall₂_map_eq_iff.mp items]
    | object properties =>
      simp [map, Node.map, mapProperties_eq_map, ← forall₂_map_eq_iff, properties]
    | member base => simp [map, Node.map, base]
    | subscript base key => simp [map, Node.map, base, key]
    | call base args =>
      simp [map_call, Node.map, optionRel_map_eq_iff.mp base, forall₂_map_eq_iff.mp args]
    | unary operand => simp [map, Node.map, operand]
    | binary lhs rhs => simp [map, Node.map, lhs, rhs]
    | ternary condition ifTrue ifFalse => simp [map, Node.map, condition, ifTrue, ifFalse]
    | loop item index collection body =>
      simp [map, Node.map, normalVar_eq_iff.mpr item, collection, body, ← optionRel_map_eq_iff,
        normalVar_eq_iff, optionRel_map_eq_iff.mpr index]
    | lambda params body =>
      simp [map, Node.map, body, ← forall₂_map_eq_iff, normalVar_eq_iff,
        forall₂_map_eq_iff.mpr params]

theorem alike_iff_normalForm_eq {a b : Expr} :
    a.alike b = true ↔ a.normalForm = b.normalForm := by
  rw [alike_iff_matches, normalForm_eq_iff_matches]
  induction a using childInduction generalizing b with
  | step a ih =>
    have iff_of_child : ∀ c ∈ a.children, ∀ d, c.alike d = true ↔ c.normalForm = d.normalForm := by
      intro c hc d
      rw [alike_iff_matches, normalForm_eq_iff_matches]
      exact ih c hc
    exact ⟨.imp fun c hc d => (iff_of_child c hc d).mp,
      .imp fun c hc d => (iff_of_child c hc d).mpr⟩

theorem alike_refl (a : Expr) : a.alike a = true := alike_iff_normalForm_eq.mpr rfl

theorem alike_eq_of_normalForm_eq {a a' b b' : Expr} (ha : a.normalForm = a'.normalForm)
    (hb : b.normalForm = b'.normalForm) : a.alike b = a'.alike b' := by
  rw [Bool.eq_iff_iff, alike_iff_normalForm_eq, alike_iff_normalForm_eq, ha, hb]

theorem normalForm_erase (e : Expr) : e.erase.normalForm = e.normalForm := map_map _ _ e

/-- The comparison does not see spans and indices. -/
theorem alike_eq_of_erase_eq {a a' b b' : Expr} (ha : a.erase = a'.erase)
    (hb : b.erase = b'.erase) : a.alike b = a'.alike b' := by
  refine alike_eq_of_normalForm_eq ?_ ?_
  · rw [← normalForm_erase a, ha, normalForm_erase]
  · rw [← normalForm_erase b, hb, normalForm_erase]

/-! ## The digest -/

theorem digestAll_eq_of_forall₂ {es fs : List Expr}
    (h : List.Forall₂ (fun e f => e.digest = f.digest) es fs) : digestAll es = digestAll fs := by
  induction h with
  | nil => rfl
  | cons hef _ ih => rw [digestAll, digestAll, hef, ih]

theorem digestProperties_eq_of_forall₂ {ps qs : List (Property Expr)}
    (h : List.Forall₂ (fun p q => p.key = q.key ∧ p.value.digest = q.value.digest) ps qs) :
    digestProperties ps = digestProperties qs := by
  induction h with
  | nil => rfl
  | cons hpq _ ih => rw [digestProperties, digestProperties, hpq.1, hpq.2, ih]

/-- A digest is made of the digests of the children and of what `Matches` compares. -/
theorem digest_eq_of_matches {a b : Expr}
    (h : Matches (fun c d => c.digest = d.digest) a b) : a.digest = b.digest := by
  cases h with
  | @string _ _ s t _ _ segments holes =>
    have length_eq : s.length = t.length := by simpa using congrArg List.length segments
    rw [digest, digest, length_eq, ← List.map_map, segments, List.map_map,
      digestAll_eq_of_forall₂ holes]
  | int | bool | null | var => rfl
  | array items => rw [digest, digest, items.length_eq, digestAll_eq_of_forall₂ items]
  | object properties =>
    rw [digest, digest, properties.length_eq, digestProperties_eq_of_forall₂ properties]
  | member base => rw [digest, digest, base]
  | subscript base key => rw [digest, digest, base, key]
  | call base args =>
    cases base with
    | none => rw [digest, digest, args.length_eq, digestAll_eq_of_forall₂ args]
    | some base => rw [digest, digest, base, args.length_eq, digestAll_eq_of_forall₂ args]
  | unary operand => rw [digest, digest, operand]
  | binary lhs rhs => rw [digest, digest, lhs, rhs]
  | ternary condition ifTrue ifFalse => rw [digest, digest, condition, ifTrue, ifFalse]
  | loop item index collection body => rw [digest, digest, item, index, collection, body]
  | @lambda _ _ xs ys _ _ params body =>
    have length_eq : xs.length = ys.length := by simpa using congrArg List.length params
    rw [digest, digest, length_eq, ← List.map_map, params, List.map_map, body]

theorem digest_eq_of_alike {a b : Expr} (h : a.alike b = true) : a.digest = b.digest := by
  induction a using childInduction generalizing b with
  | step a ih => exact digest_eq_of_matches ((alike_iff_matches.mp h).imp fun c hc d => ih c hc)

end Expr

end Preflight
