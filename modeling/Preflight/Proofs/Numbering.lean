import Preflight.Expr.Children
import Preflight.Program
import Preflight.Proofs.Ensures

/-! # Numbering

The indices of a tree in the order of reading: those of a node follow those of its children, and
the variables of a loop or lambda stand where they come into sight. A program numbers its results
if it draws their indices in that order from a counter. -/

namespace Preflight
set_option autoImplicit false

/-- The numbers rise, from `first` or above to below `bound`. -/
def Ascending (first bound : Nat) : List Nat → Prop
  | [] => first ≤ bound
  | i :: l => first ≤ i ∧ Ascending (i + 1) bound l

namespace Ascending

variable {first middle bound first' bound' i : Nat} {l l' : List Nat}

@[simp] theorem nil_iff : Ascending first bound [] ↔ first ≤ bound := Iff.rfl

@[simp] theorem cons_iff :
    Ascending first bound (i :: l) ↔ first ≤ i ∧ Ascending (i + 1) bound l := Iff.rfl

theorem le (h : Ascending first bound l) : first ≤ bound := by
  induction l generalizing first with
  | nil => exact h
  | cons i l ih =>
    have := ih h.2
    have := h.1
    omega

theorem mono (h : Ascending first bound l) (hf : first' ≤ first) (hb : bound ≤ bound') :
    Ascending first' bound' l := by
  induction l generalizing first first' with
  | nil =>
    have := h.le
    simp only [nil_iff]
    omega
  | cons i l ih => exact ⟨Nat.le_trans hf h.1, ih h.2 (Nat.le_refl _)⟩

theorem append (h : Ascending first middle l) (h' : Ascending middle bound l') :
    Ascending first bound (l ++ l') := by
  induction l generalizing first with
  | nil => exact h'.mono h (Nat.le_refl _)
  | cons i l ih => exact ⟨h.1, ih h.2⟩

theorem append_singleton (h : Ascending first i l) : Ascending first (i + 1) (l ++ [i]) :=
  h.append ⟨Nat.le_refl _, Nat.le_refl _⟩

theorem sublist (h : Ascending first bound l) (hl : List.Sublist l' l) :
    Ascending first bound l' := by
  induction hl generalizing first with
  | slnil => exact h
  | cons i _ ih => exact (ih h.2).mono (Nat.le_succ_of_le h.1) (Nat.le_refl _)
  | cons_cons i _ ih => exact ⟨h.1, ih h.2⟩

theorem map_add (n : Nat) (h : Ascending first bound l) :
    Ascending (n + first) (n + bound) (l.map (n + ·)) := by
  induction l generalizing first with
  | nil => exact Nat.add_le_add_left h n
  | cons i l ih => exact ⟨Nat.add_le_add_left h.1 n, ih h.2⟩

theorem bounds (h : Ascending first bound l) : ∀ i ∈ l, first ≤ i ∧ i < bound := by
  induction l generalizing first with
  | nil => simp
  | cons j l ih =>
    intro i hi
    rcases List.mem_cons.mp hi with rfl | hi
    · exact ⟨h.1, h.2.le⟩
    · have := ih h.2 i hi
      have := h.1
      omega

theorem pairwise (h : Ascending first bound l) : l.Pairwise (· < ·) := by
  induction l generalizing first with
  | nil => exact .nil
  | cons i l ih => exact .cons (fun j hj => (h.2.bounds j hj).1) (ih h.2)

theorem nodup (h : Ascending first bound l) : l.Nodup := h.pairwise.imp Nat.ne_of_lt

end Ascending

/-! ## The indices of a tree -/

def LocalVar.indices (vars : List LocalVar) : List Nat := vars.map (·.node.index)

namespace Expr

mutual

def indices : Expr → List Nat
  | int n .. | bool n .. | null n | var n .. => [n.index]
  | string n _ holes => indicesAll holes ++ [n.index]
  | array n items => indicesAll items ++ [n.index]
  | object n properties => indicesIn properties ++ [n.index]
  | member n base _ => base.indices ++ [n.index]
  | subscript n base key => base.indices ++ key.indices ++ [n.index]
  | call n none _ args => indicesAll args ++ [n.index]
  | call n (some base) _ args => base.indices ++ indicesAll args ++ [n.index]
  | unary n _ operand => operand.indices ++ [n.index]
  | binary n _ lhs rhs => lhs.indices ++ rhs.indices ++ [n.index]
  | ternary n condition ifTrue ifFalse =>
    condition.indices ++ ifTrue.indices ++ ifFalse.indices ++ [n.index]
  | loop n item index collection body =>
    collection.indices ++ LocalVar.indices (item :: index.toList) ++ body.indices ++ [n.index]
  | lambda n params body => LocalVar.indices params ++ body.indices ++ [n.index]

def indicesAll : List Expr → List Nat
  | [] => []
  | e :: es => e.indices ++ indicesAll es

def indicesIn : List (Property Expr) → List Nat
  | [] => []
  | ⟨_, _, value⟩ :: ps => value.indices ++ indicesIn ps

end

theorem indicesAll_eq_flatMap (es : List Expr) : indicesAll es = es.flatMap indices := by
  induction es with
  | nil => rfl
  | cons e es ih => rw [indicesAll, ih, List.flatMap_cons]

theorem indicesIn_eq_flatMap (ps : List (Property Expr)) :
    indicesIn ps = (ps.map Property.value).flatMap indices := by
  induction ps with
  | nil => rfl
  | cons p ps ih => rw [indicesIn, ih, List.map_cons, List.flatMap_cons]

/-- Whether a node is neither a reference nor declares variables. -/
def isPlain : Expr → Bool
  | var .. | loop .. | lambda .. => false
  | _ => true

/-- Induction by what a node does to the names in sight: nothing, refer to one of them, or add
variables of its own. -/
theorem scopeInduction {P : Expr → Prop}
    (plain : ∀ e : Expr, e.isPlain → (∀ c ∈ e.children, P c) → P e) (var : ∀ n x, P (var n x))
    (loop : ∀ n item index collection body, P collection → P body →
      P (loop n item index collection body))
    (lambda : ∀ n params body, P body → P (lambda n params body)) (e : Expr) : P e := by
  induction e using childInduction with
  | step e ih =>
    cases h : e.isPlain with
    | true => exact plain e h ih
    | false =>
      cases e with
      | var n x => exact var n x
      | loop n item index collection body =>
        exact loop n item index collection body (ih collection (by simp [children]))
          (ih body (by simp [children]))
      | lambda n params body => exact lambda n params body (ih body (by simp [children]))
      | _ => simp [isPlain] at h

theorem indices_eq_flatMap {e : Expr} (h : e.isPlain) :
    e.indices = e.children.flatMap indices ++ [e.index] := by
  rcases e with _ | _ | _ | _ | _ | _ | _ | _ | _ | ⟨_, _ | _, _, _⟩ | _ | _ | _ | _ | _
  case var | loop | lambda => simp [isPlain] at h
  all_goals simp [indices, children, index, node, indicesAll_eq_flatMap, indicesIn_eq_flatMap]

theorem isPlain_map (r : Relabelling) (e : Expr) : (e.map r).isPlain = e.isPlain := by
  rcases e with _ | _ | _ | _ | _ | _ | _ | _ | _ | ⟨_, _ | _, _, _⟩ | _ | _ | _ | _ | _ <;> rfl

theorem localVar_indices_map (r : Relabelling) (vars : List LocalVar) :
    LocalVar.indices (vars.map (·.map r)) = (LocalVar.indices vars).map r.index := by
  simp [LocalVar.indices, LocalVar.map, Node.map]

theorem indices_map (r : Relabelling) (e : Expr) : (e.map r).indices = e.indices.map r.index := by
  induction e using scopeInduction with
  | plain e h ih =>
    have hm : (e.map r).isPlain := by rw [isPlain_map, h]
    rw [indices_eq_flatMap hm, indices_eq_flatMap h, children_map, List.flatMap_map,
      List.map_append, List.map_flatMap, List.flatMap_congr ih]
    simp [index, Node.map]
  | var n x => rfl
  | loop n item i collection body ihc ihb =>
    have hv : item.map r :: (i.map (·.map r)).toList =
        (item :: i.toList).map (·.map r) := by cases i <;> rfl
    simp only [map, indices, ihc, ihb, hv, localVar_indices_map, List.map_append]
    rfl
  | lambda n params body ih =>
    simp only [map, indices, ih, localVar_indices_map, List.map_append]
    rfl

end Expr

/-- The indices below a declaration. The body itself has none. -/
def Body.indices : Body → List Nat
  | .object value => value.indices
  | .conditional _ condition body => condition.indices ++ body.indices
  | .loop head body =>
    head.collection.indices ++ LocalVar.indices (head.item :: head.index.toList) ++ body.indices
  | .error _ => []

/-! ## Counters -/

section

variable {σ ε α β : Type} {next : σ → Nat}

/-- If the indices in `before` were drawn before `p` runs, those in `drawn a` were drawn when it
returns `a`, rising all the way. -/
def Numbers (next : σ → Nat) (before : List Nat) (p : StateT σ (Except ε) α)
    (drawn : α → List Nat) : Prop :=
  ∀ first, Ensures (fun s => Ascending first (next s) before) p
    fun a s => Ascending first (next s) (drawn a)

namespace Numbers

variable {before : List Nat} {drawn drawn' : α → List Nat}

theorem pure {a : α} (h : before = drawn a) :
    Numbers next before (pure a : StateT σ (Except ε) α) drawn :=
  fun _ => Ensures.pure fun _ hs => h ▸ hs

theorem throw {e : ε} : Numbers next before (throw e : StateT σ (Except ε) α) drawn :=
  fun _ => Ensures.throw

theorem bind {p : StateT σ (Except ε) α} {q : α → StateT σ (Except ε) β} {final : β → List Nat}
    (hp : Numbers next before p drawn) (hq : ∀ a, Numbers next (drawn a) (q a) final) :
    Numbers next before (p >>= q) final :=
  fun first => (hp first).bind fun a => hq a first

/-- Indices that do not end up in the result were drawn in vain. -/
theorem drop {p : StateT σ (Except ε) α} (hp : Numbers next before p drawn)
    (h : ∀ a, List.Sublist (drawn' a) (drawn a)) : Numbers next before p drawn' :=
  fun first => (hp first).imp (fun _ hs => hs) fun a _ hs => hs.sublist (h a)

end Numbers

/-- A program that leaves the counter alone. -/
def Quiet (next : σ → Nat) (p : StateT σ (Except ε) α) : Prop :=
  ∀ before, Numbers next before p fun _ => before

namespace Quiet

theorem pure (a : α) : Quiet next (pure a : StateT σ (Except ε) α) := fun _ => .pure rfl

theorem throw (e : ε) : Quiet next (throw e : StateT σ (Except ε) α) := fun _ => .throw

theorem bind {p : StateT σ (Except ε) α} {q : α → StateT σ (Except ε) β} (hp : Quiet next p)
    (hq : ∀ a, Quiet next (q a)) : Quiet next (p >>= q) :=
  fun before => (hp before).bind fun a => hq a before

theorem read (f : σ → α) : Quiet next (do return f (← get) : StateT σ (Except ε) α) :=
  fun _ _ => Ensures.get_bind fun _ _ => Ensures.pure fun _ hs => hs

theorem modify {f : σ → σ} (h : ∀ s, next (f s) = next s) :
    Quiet next (modify f : StateT σ (Except ε) PUnit) :=
  fun _ _ => Ensures.modifyGet fun s hs => (h s).symm ▸ hs

end Quiet

/-- A program that draws the indices in `own` of what it returns, one after the other. -/
def Draws (next : σ → Nat) (p : StateT σ (Except ε) α) (own : α → List Nat) : Prop :=
  ∀ before, Numbers next before p fun a => before ++ own a

namespace Draws

theorem modifyGet {f : σ → σ} (h : ∀ s, next (f s) = next s + 1) :
    Draws next (modifyGet fun s => (next s, f s) : StateT σ (Except ε) Nat) fun i => [i] :=
  fun _ _ => Ensures.modifyGet fun s hs => (h s).symm ▸ hs.append_singleton

theorem mapM_option {f : α → StateT σ (Except ε) β} {own : β → List Nat}
    (step : ∀ x, Draws next (f x) own) (x : Option α) :
    Draws next (x.mapM f) fun y => y.toList.flatMap own := by
  intro before
  cases x with
  | none => exact .pure (List.append_nil before).symm
  | some x =>
    rw [Option.mapM_some, map_eq_pure_bind]
    refine (step x before).bind fun y => .pure ?_
    show before ++ own y = before ++ [y].flatMap own
    rw [List.flatMap_singleton]

theorem mapM {f : α → StateT σ (Except ε) β} {own : β → List Nat} {xs : List α}
    (step : ∀ x ∈ xs, Draws next (f x) own) :
    Draws next (xs.mapM f) fun ys => ys.flatMap own := by
  intro before first
  let inv (ys : List β) (s : σ) : Prop := Ascending first (next s) (before ++ ys.flatMap own)
  have keep : ∀ x ∈ xs, ∀ done, Ensures (inv done) (f x) fun y => inv (done ++ [y]) := by
    intro x hx done
    have h := step x hx (before ++ done.flatMap own) first
    exact h.imp (fun _ hs => hs) fun y s hs => by simpa [inv] using hs
  simpa [inv] using Ensures.mapM xs keep []

end Draws

end

end Preflight
