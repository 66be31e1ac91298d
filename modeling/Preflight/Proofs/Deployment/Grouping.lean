import Mathlib.Data.List.Induction
import Preflight.Deployment.Grouping

/-! # Groups as equivalence classes

Grouping keeps a hash index, but what it yields is told by comparing items pairwise: the classes of
equal items, in the order of their first members. -/

namespace Preflight
set_option autoImplicit false

variable {α β : Type}

/-- The items that are the same as no item before them, in order. -/
def leaders (same : α → α → Bool) (items : List α) : List α :=
  (items.zipIdx.filter fun (x, i) => !(items.take i).any (same · x)).map (·.1)

/-- The classes of items, each in order, in the order of their first members. -/
def classes (same : α → α → Bool) (items : List α) : List (List α) :=
  (leaders same items).map fun x => items.filter (same x)

theorem leaders_concat (same : α → α → Bool) (items : List α) (x : α) :
    leaders same (items ++ [x]) =
      leaders same items ++ if items.any (same · x) then [] else [x] := by
  -- An item has the same items before it whether or not one more follows at the end.
  have before : ∀ p ∈ items.zipIdx,
      (!((items ++ [x]).take p.2).any (same · p.1)) = !(items.take p.2).any (same · p.1) := by
    intro p hp
    have hlt := (List.mem_zipIdx hp).2.1
    rw [List.take_append_of_le_length (by omega)]
  rw [leaders, leaders, List.zipIdx_append, List.filter_append, List.filter_congr before,
    List.map_append]
  congr 1
  cases h : items.any (same · x) <;> simp [h]

theorem leaders_subset {same : α → α → Bool} {items : List α} {x : α}
    (h : x ∈ leaders same items) : x ∈ items := by
  simp only [leaders, List.mem_map, List.mem_filter] at h
  obtain ⟨p, ⟨hp, -⟩, rfl⟩ := h
  exact List.fst_mem_of_mem_zipIdx hp

theorem leaders_map (same : β → β → Bool) (f : α → β) (items : List α) :
    leaders same (items.map f) = (leaders (fun x y => same (f x) (f y)) items).map f := by
  induction items using List.reverseRecOn with
  | nil => rfl
  | append_singleton items x ih =>
    rw [List.map_append, List.map_singleton, leaders_concat, leaders_concat, ih, List.map_append,
      List.any_map]
    cases h : items.any fun y => same (f y) (f x) <;> simp [Function.comp_def, h]

theorem classes_map (same : β → β → Bool) (f : α → β) (items : List α) :
    classes same (items.map f) =
      (classes (fun x y => same (f x) (f y)) items).map (List.map f) := by
  simp [classes, leaders_map, List.filter_map, Function.comp_def]

theorem leaders_congr {same same' : α → α → Bool} {items : List α}
    (h : ∀ x ∈ items, ∀ y ∈ items, same x y = same' x y) :
    leaders same items = leaders same' items := by
  induction items using List.reverseRecOn with
  | nil => rfl
  | append_singleton items x ih =>
    have hx : x ∈ items ++ [x] := List.mem_append_right _ (List.mem_singleton_self x)
    have any_eq : items.any (same · x) = items.any (same' · x) := by
      rw [Bool.eq_iff_iff, List.any_eq_true, List.any_eq_true]
      exact exists_congr fun y => and_congr_right fun hy => by
        rw [h y (List.mem_append_left _ hy) x hx]
    rw [leaders_concat, leaders_concat, any_eq, ih]
    intro y hy z hz
    exact h y (List.mem_append_left _ hy) z (List.mem_append_left _ hz)

theorem classes_congr {same same' : α → α → Bool} {items : List α}
    (h : ∀ x ∈ items, ∀ y ∈ items, same x y = same' x y) :
    classes same items = classes same' items := by
  rw [classes, classes, leaders_congr h]
  apply List.map_congr_left
  intro x hx
  exact List.filter_congr fun y hy => h x (leaders_subset hx) y hy

theorem mem_of_mem_classes {same : α → α → Bool} {items group : List α} {x : α}
    (hg : group ∈ classes same items) (hx : x ∈ group) : x ∈ items := by
  obtain ⟨y, -, rfl⟩ := List.mem_map.mp hg
  exact (List.mem_filter.mp hx).1

/-! ## Equivalences -/

section Equivalence
variable [BEq α]

theorem leaders_pairwise (items : List α) :
    (leaders (· == ·) items).Pairwise fun x y => (x == y) = false := by
  induction items using List.reverseRecOn with
  | nil => exact .nil
  | append_singleton items x ih =>
    rw [leaders_concat, List.pairwise_append]
    refine ⟨ih, by split <;> simp, ?_⟩
    intro y hy z hz
    split at hz
    · cases hz
    · rename_i unseen
      obtain rfl := List.mem_singleton.mp hz
      rw [Bool.not_eq_true, List.any_eq_false] at unseen
      simpa using unseen y (leaders_subset hy)

variable [EquivBEq α]

theorem any_leaders_eq (items : List α) (x : α) :
    (leaders (· == ·) items).any (· == x) = items.any (· == x) := by
  induction items using List.reverseRecOn generalizing x with
  | nil => rfl
  | append_singleton items y ih =>
    rw [leaders_concat, List.any_append, List.any_append, ih]
    cases seen : items.any (· == y) with
    | false => simp
    | true =>
      cases hyx : y == x with
      | false => simp [hyx]
      | true =>
        have seen_x : items.any (· == x) = true := by
          simpa only [← BEq.congr_right hyx] using seen
        simp [seen_x]

theorem leaders_unlike {items : List α} {i j : Nat} {y z : α} (hij : i ≠ j)
    (hi : (leaders (· == ·) items)[i]? = some y) (hj : (leaders (· == ·) items)[j]? = some z) :
    (y == z) = false := by
  have unlike := List.pairwise_iff_getElem.mp (leaders_pairwise items)
  obtain ⟨hi', rfl⟩ := List.getElem?_eq_some_iff.mp hi
  obtain ⟨hj', rfl⟩ := List.getElem?_eq_some_iff.mp hj
  rcases Nat.lt_or_gt_of_ne hij with hlt | hgt
  · exact unlike i j hi' hj' hlt
  · rw [BEq.comm]
    exact unlike j i hj' hi' hgt

theorem classes_concat_of_seen {items : List α} {x : α} {i : Nat}
    (h : ∃ y, (leaders (· == ·) items)[i]? = some y ∧ (y == x) = true) :
    classes (· == ·) (items ++ [x]) = (classes (· == ·) items).modify i (· ++ [x]) := by
  obtain ⟨y, hi, hyx⟩ := h
  have seen : items.any (· == x) = true := by
    rw [← any_leaders_eq]
    exact List.any_eq_true.mpr ⟨y, List.mem_of_getElem? hi, hyx⟩
  rw [classes, classes, leaders_concat, if_pos seen, List.append_nil]
  apply List.ext_getElem?
  intro j
  rw [List.getElem?_map, List.getElem?_modify, List.getElem?_map]
  cases hj : (leaders (· == ·) items)[j]? with
  | none => simp
  | some z =>
    by_cases hij : i = j
    · subst hij
      obtain rfl : y = z := by simpa [hi] using hj
      simp [hyx]
    · -- Only one class can take the new item.
      have hzx : (z == x) = false := by
        rw [← BEq.congr_right hyx, BEq.comm]
        exact leaders_unlike hij hi hj
      simp [hij, hzx]

theorem classes_concat_of_unseen {items : List α} {x : α}
    (unseen : items.any (· == x) = false) :
    classes (· == ·) (items ++ [x]) = classes (· == ·) items ++ [[x]] := by
  rw [classes, classes, leaders_concat, unseen]
  rw [List.any_eq_false] at unseen
  have unlike : ∀ y ∈ leaders (· == ·) items, (y == x) = false := by
    intro y hy
    simpa using unseen y (leaders_subset hy)
  have alone : items.filter (x == ·) = [] := by
    rw [List.filter_eq_nil_iff]
    intro y hy
    rw [BEq.comm]
    exact unseen y hy
  simpa [alone] using unlike

end Equivalence

namespace Grouping

theorem map_toList_modify_push (groups : List (Array α)) (i : Nat) (x : α) :
    (groups.modify i (·.push x)).map Array.toList =
      (groups.map Array.toList).modify i (· ++ [x]) := by
  apply List.ext_getElem?
  intro j
  rw [List.getElem?_map, List.getElem?_modify, List.getElem?_modify, List.getElem?_map]
  cases groups[j]? with
  | none => rfl
  | some group => by_cases hij : i = j <;> simp [hij]

variable [BEq α] [Hashable α]

/-- The groups are the classes of the items taken in, and each item is found at its class. -/
structure Represents (g : Grouping α) (items : List α) : Prop where
  groups_eq : g.groups.toList.map Array.toList = classes (· == ·) items
  position_eq (x : α) : g.position[x]? = (leaders (· == ·) items).findIdx? (· == x)

/-- Two items stand in one group of two or more. -/
def Together (items : List α) (x y : α) : Prop :=
  ∃ group ∈ (ofList items).duplicates, x ∈ group ∧ y ∈ group

variable [EquivBEq α] [LawfulHashable α]

theorem Represents.insert {g : Grouping α} {items : List α} (h : g.Represents items) (x : α) :
    (g.insert x).Represents (items ++ [x]) := by
  have hx := h.position_eq x
  unfold Grouping.insert
  cases hpos : g.position[x]? with
  | some i =>
    rw [hpos, eq_comm, List.findIdx?_eq_some_iff_getElem] at hx
    obtain ⟨hi, hsame, -⟩ := hx
    have seen : items.any (· == x) = true := by
      rw [← any_leaders_eq]
      exact List.any_eq_true.mpr ⟨_, List.getElem_mem hi, hsame⟩
    constructor
    · rw [classes_concat_of_seen ⟨_, List.getElem?_eq_getElem hi, hsame⟩, ← h.groups_eq]
      simp only [Array.toList_modify, map_toList_modify_push]
    · intro y
      rw [leaders_concat, if_pos seen, List.append_nil]
      exact h.position_eq y
  | none =>
    rw [hpos, eq_comm, List.findIdx?_eq_none_iff] at hx
    have unseen : items.any (· == x) = false := by
      rw [← any_leaders_eq, List.any_eq_false]
      simpa using hx
    constructor
    · rw [classes_concat_of_unseen unseen, ← h.groups_eq]
      simp
    · intro y
      have size_eq : g.groups.size = (leaders (· == ·) items).length := by
        simpa [classes] using congrArg List.length h.groups_eq
      rw [leaders_concat, unseen, Std.HashMap.getElem?_insert, h.position_eq, size_eq]
      cases hxy : x == y with
      | false => simp [hxy]
      | true =>
        have unlike : (leaders (· == ·) items).findIdx? (· == y) = none := by
          rw [List.findIdx?_eq_none_iff]
          intro z hz
          rw [← BEq.congr_right hxy]
          exact hx z hz
        simp [hxy, unlike]

theorem represents_ofList (items : List α) : (ofList items).Represents items := by
  induction items using List.reverseRecOn with
  | nil => exact ⟨rfl, fun x => by simp [ofList, leaders]⟩
  | append_singleton items x ih => simpa [ofList] using ih.insert x

theorem duplicates_ofList (items : List α) :
    (ofList items).duplicates = (classes (· == ·) items).filter (1 < ·.length) := by
  rw [duplicates, (represents_ofList items).groups_eq]

/-! ## Members of one group -/

theorem Together.beq {items : List α} {x y : α} (h : Together items x y) : (x == y) = true := by
  obtain ⟨group, hgroup, hx, hy⟩ := h
  rw [duplicates_ofList] at hgroup
  obtain ⟨leader, -, rfl⟩ := List.mem_map.mp (List.mem_filter.mp hgroup).1
  have hleader_x := (List.mem_filter.mp hx).2
  have hleader_y := (List.mem_filter.mp hy).2
  exact BEq.trans (BEq.symm hleader_x) hleader_y

/-- Equal items at two places are in one group. -/
theorem together_of_sublist {items : List α} {x y : α} (h : [x, y].Sublist items)
    (hxy : (x == y) = true) : Together items x y := by
  have hx : x ∈ items := h.subset List.mem_cons_self
  have hany : (leaders (· == ·) items).any (· == x) = true := by
    rw [any_leaders_eq]
    exact List.any_eq_true.mpr ⟨x, hx, BEq.rfl⟩
  obtain ⟨leader, hleader, hleader_x⟩ := List.any_eq_true.mp hany
  have hleader_y : (leader == y) = true := BEq.trans hleader_x hxy
  have hpair : [x, y].Sublist (items.filter (leader == ·)) := by
    have hkept : [x, y].filter (leader == ·) = [x, y] := by simp [hleader_x, hleader_y]
    rw [← hkept]
    exact h.filter _
  refine ⟨items.filter (leader == ·), ?_, hpair.subset (by simp), hpair.subset (by simp)⟩
  rw [duplicates_ofList]
  refine List.mem_filter.mpr ⟨List.mem_map.mpr ⟨leader, hleader, rfl⟩, ?_⟩
  have hlength := hpair.length_le
  simp only [List.length_cons, List.length_nil] at hlength
  exact decide_eq_true (by omega)

end Grouping

end Preflight
