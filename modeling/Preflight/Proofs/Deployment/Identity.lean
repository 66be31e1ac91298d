import Preflight.Deployment.Identity
import Preflight.Proofs.Expr.Alike

/-! # Lawful identities

Each comparison is the kernel of a function: two things are the same if what takes part in their
comparison has one normal form. So each is an equivalence, and the digests follow it. -/

namespace Preflight
set_option autoImplicit false

theorem equivalence_of_kernel {α β : Type} {same : α → α → Bool} (f : α → β)
    (kernel : ∀ a b, same a b = true ↔ f a = f b) : Equivalence fun a b => same a b = true where
  refl a := (kernel a a).mpr rfl
  symm {a b} h := (kernel b a).mpr ((kernel a b).mp h).symm
  trans {a b c} h h' := (kernel a c).mpr (((kernel a b).mp h).trans ((kernel b c).mp h'))

/-- An equivalence whose classes have one digest each. -/
structure Lawful {α : Type} (same : α → α → Bool) (digest : α → List Mark) : Prop where
  equivalence : Equivalence fun a b => same a b = true
  digest_eq {a b : α} : same a b = true → digest a = digest b

theorem Expr.lawful_alike : Lawful Expr.alike Expr.digest where
  equivalence := equivalence_of_kernel Expr.normalForm fun _ _ => alike_iff_normalForm_eq
  digest_eq := digest_eq_of_alike

namespace ResourceIdentity

theorem same_iff {a b : ResourceIdentity} :
    a.same b = true ↔ a.parent = b.parent ∧
      asciiLowercase a.fullyQualifiedType = asciiLowercase b.fullyQualifiedType ∧
      a.nameValue.alike b.nameValue = true := by
  simp [same, and_assoc]

theorem lawful_same : Lawful same digest := by
  refine ⟨equivalence_of_kernel (fun a => (a.parent, asciiLowercase a.fullyQualifiedType,
    a.nameValue.normalForm)) ?_, ?_⟩
  · intro a b
    rw [same_iff, Expr.alike_iff_normalForm_eq, Prod.mk.injEq, Prod.mk.injEq]
  · intro a b h
    obtain ⟨parents, types, names⟩ := same_iff.mp h
    rw [digest, digest, parents, types, Expr.digest_eq_of_alike names]

instance : EquivBEq ResourceIdentity where
  rfl {a} := lawful_same.equivalence.refl a
  symm := lawful_same.equivalence.symm
  trans := lawful_same.equivalence.trans

instance : LawfulHashable ResourceIdentity where
  hash_eq _ _ h := congrArg (hash : List Mark → UInt64) (lawful_same.digest_eq h)

end ResourceIdentity

namespace ModuleIdentity

theorem alikeScopes_iff {xs ys : Option (List Expr)} :
    alikeScopes xs ys = true ↔
      Option.Rel (List.Forall₂ fun e f => e.alike f = true) xs ys := by
  cases xs <;> cases ys <;> simp [alikeScopes, Expr.alikeAll_iff]

theorem alikeScopes_iff_normalForm_eq {xs ys : Option (List Expr)} :
    alikeScopes xs ys = true ↔
      xs.map (List.map Expr.normalForm) = ys.map (List.map Expr.normalForm) := by
  cases xs <;> cases ys <;>
    simp [alikeScopes, Expr.alikeAll_iff, Expr.alike_iff_normalForm_eq, forall₂_map_eq_iff]

theorem digestScope_eq_of_alikeScopes {xs ys : Option (List Expr)}
    (h : alikeScopes xs ys = true) : digestScope xs = digestScope ys := by
  cases alikeScopes_iff.mp h with
  | none => rfl
  | some args =>
    have digests := args.imp fun _ _ => Expr.digest_eq_of_alike
    rw [digestScope, digestScope, args.length_eq, Expr.digestAll_eq_of_forall₂ digests]

theorem same_iff {a b : ModuleIdentity} :
    a.same b = true ↔ a.scope = b.scope ∧ alikeScopes a.scopeArgs b.scopeArgs = true ∧
      a.nameValue.alike b.nameValue = true := by
  simp [same, and_assoc]

theorem lawful_same : Lawful same digest := by
  refine ⟨equivalence_of_kernel (fun a => (a.scope, a.scopeArgs.map (List.map Expr.normalForm),
    a.nameValue.normalForm)) ?_, ?_⟩
  · intro a b
    rw [same_iff, alikeScopes_iff_normalForm_eq, Expr.alike_iff_normalForm_eq, Prod.mk.injEq,
      Prod.mk.injEq]
  · intro a b h
    obtain ⟨scopes, args, names⟩ := same_iff.mp h
    rw [digest, digest, scopes, digestScope_eq_of_alikeScopes args,
      Expr.digest_eq_of_alike names]

instance : EquivBEq ModuleIdentity where
  rfl {a} := lawful_same.equivalence.refl a
  symm := lawful_same.equivalence.symm
  trans := lawful_same.equivalence.trans

instance : LawfulHashable ModuleIdentity where
  hash_eq _ _ h := congrArg (hash : List Mark → UInt64) (lawful_same.digest_eq h)

end ModuleIdentity

/-- Structural equality is equality of normal forms; it ignores all labels, passes through every
kind of node, and is what the digests and the comparisons of identities rest on. -/
theorem alike_kernel_and_identities_lawful :
    (∀ a b : Expr, a.alike b = true ↔ a.normalForm = b.normalForm) ∧
    (∀ a a' b b' : Expr, a.erase = a'.erase → b.erase = b'.erase → a.alike b = a'.alike b') ∧
    (∀ a b : Expr, a.alike b = true ↔ Expr.Matches (fun c d => c.alike d = true) a b) ∧
    Lawful Expr.alike Expr.digest ∧
    (∀ a b : ResourceIdentity, (a == b) = true ↔ a.parent = b.parent ∧
      asciiLowercase a.fullyQualifiedType = asciiLowercase b.fullyQualifiedType ∧
      a.nameValue.alike b.nameValue = true) ∧
    Lawful (fun a b : ResourceIdentity => a == b) ResourceIdentity.digest ∧
    (∀ a b : ModuleIdentity, (a == b) = true ↔ a.scope = b.scope ∧
      Option.Rel (List.Forall₂ fun e f => e.alike f = true) a.scopeArgs b.scopeArgs ∧
      a.nameValue.alike b.nameValue = true) ∧
    Lawful (fun a b : ModuleIdentity => a == b) ModuleIdentity.digest := by
  refine ⟨fun _ _ => Expr.alike_iff_normalForm_eq, fun _ _ _ _ => Expr.alike_eq_of_erase_eq,
    fun _ _ => Expr.alike_iff_matches, Expr.lawful_alike, fun _ _ => ResourceIdentity.same_iff,
    ResourceIdentity.lawful_same, ?_, ModuleIdentity.lawful_same⟩
  intro a b
  rw [← ModuleIdentity.alikeScopes_iff]
  exact ModuleIdentity.same_iff

end Preflight
