import Mathlib.Data.List.Forall2

/-! # What runs ensure

Programs here hand a state on and may fail. A program ensures what holds after each of its runs
that does not fail; this says nothing about when it fails. -/

namespace Preflight
set_option autoImplicit false

variable {σ ε α β : Type}

theorem bind_eq_ok_iff {x : Except ε α} {f : α → Except ε β} {b : β} :
    x >>= f = .ok b ↔ ∃ a, x = .ok a ∧ f a = .ok b := by
  cases x with
  | error e => simp [Bind.bind, Except.bind]
  | ok a => simp [Bind.bind, Except.bind]

theorem mapError_bind {ε' : Type} (g : ε → ε') (x : Except ε α) (f : α → Except ε β) :
    (x >>= f).mapError g = x.mapError g >>= fun a => (f a).mapError g := by
  cases x <;> rfl

section

variable {p : StateT σ (Except ε) α} {q : α → StateT σ (Except ε) β} {s s' : σ}

theorem run_bind_of_ok {a : α} (h : p.run s = .ok (a, s')) : (p >>= q).run s = (q a).run s' := by
  rw [StateT.run_bind, h]
  rfl

theorem run_bind_of_error {e : ε} (h : p.run s = .error e) : (p >>= q).run s = .error e := by
  rw [StateT.run_bind, h]
  rfl

end

/-- Every run of `p` from a state with `pre` that does not fail ends with `post`. -/
def Ensures (pre : σ → Prop) (p : StateT σ (Except ε) α) (post : α → σ → Prop) : Prop :=
  ∀ s, pre s → ∀ a s', p.run s = .ok (a, s') → post a s'

namespace Ensures

variable {pre pre' : σ → Prop} {post post' : α → σ → Prop}

theorem pure {a : α} (h : ∀ s, pre s → post a s) :
    Ensures pre (pure a : StateT σ (Except ε) α) post := by
  intro s hs b s' run
  cases run
  exact h s hs

theorem bind {p : StateT σ (Except ε) α} {q : α → StateT σ (Except ε) β} {final : β → σ → Prop}
    (hp : Ensures pre p post) (hq : ∀ a, Ensures (post a) (q a) final) :
    Ensures pre (p >>= q) final := by
  intro s hs b s' run
  rw [StateT.run_bind] at run
  cases hr : p.run s with
  | error e =>
    rw [hr] at run
    cases run
  | ok r =>
    rw [hr] at run
    exact hq r.1 r.2 (hp s hs r.1 r.2 hr) b s' run

theorem throw {e : ε} : Ensures pre (throw e : StateT σ (Except ε) α) post := by
  intro s _ a s' run
  cases run

/-- What holds of the state holds of the state that is read. -/
theorem get_bind {q : σ → StateT σ (Except ε) β} {final : β → σ → Prop}
    (hq : ∀ t, pre t → Ensures pre (q t) final) :
    Ensures pre ((get : StateT σ (Except ε) σ) >>= q) final :=
  fun s hs => hq s hs s hs

theorem set {t : σ} {post : PUnit → σ → Prop} (h : ∀ s, pre s → post ⟨⟩ t) :
    Ensures pre (set t : StateT σ (Except ε) PUnit) post := by
  intro s hs a s' run
  cases run
  exact h s hs

theorem modifyGet {f : σ → α × σ} (h : ∀ s, pre s → post (f s).1 (f s).2) :
    Ensures pre (modifyGet f : StateT σ (Except ε) α) post := by
  intro s hs a s' run
  have hr : f s = (a, s') := Except.ok.inj run
  have hf := h s hs
  rwa [hr] at hf

theorem imp {p : StateT σ (Except ε) α} (h : Ensures pre p post) (hpre : ∀ s, pre' s → pre s)
    (hpost : ∀ a s, post a s → post' a s) : Ensures pre' p post' :=
  fun s hs a s' run => hpost a s' (h s (hpre s hs) a s' run)

theorem of_fact {p : StateT σ (Except ε) α} {fact : Prop} (h : fact → Ensures pre p post) :
    Ensures (fun s => fact ∧ pre s) p post :=
  fun s hs => h hs.1 s hs.2

/-- What holds of the results so far is kept by each step of a traversal. -/
theorem mapM {f : α → StateT σ (Except ε) β} {inv : List β → σ → Prop} (xs : List α)
    (step : ∀ x ∈ xs, ∀ done, Ensures (inv done) (f x) fun y => inv (done ++ [y])) :
    ∀ done, Ensures (inv done) (xs.mapM f) fun ys => inv (done ++ ys) := by
  induction xs with
  | nil =>
    intro done
    rw [List.mapM_nil]
    exact pure fun s hs => by rwa [List.append_nil]
  | cons x xs ih =>
    intro done
    rw [List.mapM_cons]
    refine bind (step x List.mem_cons_self done) fun y => ?_
    refine bind (ih (fun x' hx => step x' (List.mem_cons_of_mem x hx)) (done ++ [y])) fun ys => ?_
    exact pure fun s hs => by rwa [List.append_cons]

end Ensures

/-- Every run of `p` that does not fail returns something with `post`. -/
def Returns (p : StateT σ (Except ε) α) (post : α → Prop) : Prop :=
  Ensures (fun _ => True) p fun a _ => post a

namespace Returns

variable {p : StateT σ (Except ε) α} {q : α → StateT σ (Except ε) β} {post : α → Prop}
  {final : β → Prop}

theorem pure {a : α} (h : post a) : Returns (pure a : StateT σ (Except ε) α) post :=
  Ensures.pure fun _ _ => h

theorem throw {e : ε} : Returns (throw e : StateT σ (Except ε) α) post := Ensures.throw

theorem bind (hp : Returns p post) (hq : ∀ a, post a → Returns (q a) final) :
    Returns (p >>= q) final :=
  Ensures.bind hp fun a s ha => hq a ha s trivial

theorem after (hq : ∀ a, Returns (q a) final) : Returns (p >>= q) final :=
  have first : Returns p fun _ => True := fun _ _ _ _ _ => trivial
  first.bind fun a _ => hq a

theorem throw_bind {e : ε} : Returns (MonadExcept.throw e >>= q) final := by
  have first : Returns (MonadExcept.throw e : StateT σ (Except ε) α) fun _ => False := throw
  exact first.bind fun _ h => h.elim

theorem imp {post' : α → Prop} (hp : Returns p post) (h : ∀ a, post a → post' a) :
    Returns p post' :=
  Ensures.imp hp (fun _ _ => trivial) fun a _ => h a

theorem forall₂_mapM {f : α → StateT σ (Except ε) β} {R : α → β → Prop} (xs : List α)
    (step : ∀ x ∈ xs, Returns (f x) (R x)) : Returns (xs.mapM f) (List.Forall₂ R xs) := by
  induction xs with
  | nil =>
    rw [List.mapM_nil]
    exact pure .nil
  | cons x xs ih =>
    rw [List.mapM_cons]
    refine bind (step x List.mem_cons_self) fun y hy => ?_
    refine bind (ih fun x' hx => step x' (List.mem_cons_of_mem x hx)) fun ys hys => ?_
    exact pure (.cons hy hys)

end Returns

end Preflight
