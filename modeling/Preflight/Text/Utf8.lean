/-! # Texts measured in bytes

A character takes one to four bytes. Offsets into a text count bytes; one that falls inside a
character, or past the end, names no place. -/

namespace Preflight
set_option autoImplicit false

def utf8Length : List Char → Nat
  | [] => 0
  | c :: text => c.utf8Size + utf8Length text

@[simp] theorem utf8Length_nil : utf8Length [] = 0 := rfl

@[simp] theorem utf8Length_cons (c : Char) (text : List Char) :
    utf8Length (c :: text) = c.utf8Size + utf8Length text := rfl

@[simp] theorem utf8Length_append (s t : List Char) :
    utf8Length (s ++ t) = utf8Length s + utf8Length t := by
  induction s with
  | nil => simp
  | cons c s ih => simp [ih, Nat.add_assoc]

def splitBytes? : Nat → List Char → Option (List Char × List Char)
  | 0, text => some ([], text)
  | _ + 1, [] => none
  | n + 1, c :: text =>
    if c.utf8Size ≤ n + 1 then
      (splitBytes? (n + 1 - c.utf8Size) text).map fun (taken, rest) => (c :: taken, rest)
    else none

def slice? (text : List Char) (start stop : Nat) : Option (List Char) :=
  if start ≤ stop then do
    let (_, rest) ← splitBytes? start text
    let (taken, _) ← splitBytes? (stop - start) rest
    return taken
  else none

/-- A split at a byte offset cuts the text into two, the first of that many bytes. -/
theorem splitBytes?_eq_some_iff {n : Nat} {text taken rest : List Char} :
    splitBytes? n text = some (taken, rest) ↔ text = taken ++ rest ∧ utf8Length taken = n := by
  fun_induction splitBytes? n text generalizing taken rest with
  | case1 text =>
    constructor
    · rintro ⟨⟩
      exact ⟨rfl, rfl⟩
    · rintro ⟨rfl, h⟩
      cases taken with
      | nil => rfl
      | cons c _ =>
        have := c.utf8Size_pos
        simp at h
        omega
  | case2 n =>
    constructor
    · rintro ⟨⟩
    · rintro ⟨h, hn⟩
      obtain ⟨rfl, rfl⟩ := List.append_eq_nil_iff.mp h.symm
      simp at hn
  | case3 n c text h ih =>
    cases taken with
    | nil =>
      simp only [Option.map_eq_some_iff, Prod.mk.injEq, Prod.exists, utf8Length_nil, List.nil_append]
      constructor
      · rintro ⟨_, _, _, h, _⟩
        cases h
      · rintro ⟨_, h⟩
        omega
    | cons d taken =>
      simp only [Option.map_eq_some_iff, Prod.mk.injEq, Prod.exists, List.cons.injEq,
        utf8Length_cons, List.cons_append]
      constructor
      · rintro ⟨_, _, h', ⟨rfl, rfl⟩, rfl⟩
        obtain ⟨rfl, hn⟩ := ih.mp h'
        exact ⟨⟨rfl, rfl⟩, by omega⟩
      · rintro ⟨⟨rfl, rfl⟩, hn⟩
        exact ⟨_, _, ih.mpr ⟨rfl, by omega⟩, ⟨rfl, rfl⟩, rfl⟩
  | case4 n c text h =>
    constructor
    · rintro ⟨⟩
    · rintro ⟨h', hn⟩
      cases taken with
      | nil => simp at hn
      | cons d taken =>
        obtain ⟨rfl, -⟩ := List.cons.injEq .. ▸ h'
        simp at hn
        omega

end Preflight
