import Preflight.Proofs.Parser.Retrace

/-! # Parameter lists

Whether parentheses hold a parameter list shows only at the arrow behind them. A list that was read
is read again whatever follows it, so where none is read, none is read of any part of the text. -/

namespace Preflight
set_option autoImplicit false

theorem dropWhile_takeWhile_append {α : Type} (p : α → Bool) (text rest : List α) :
    (text.takeWhile p ++ rest).dropWhile p = rest.dropWhile p :=
  List.dropWhile_append_of_pos fun _ h => List.mem_takeWhile_imp h

/-- A name ends before a mark and before blanks. -/
theorem head?_blanks_append {mark : Char} (hmark : isNameChar mark = false) {blanks : List Char}
    (hblanks : ∀ c ∈ blanks, isBlank c) (rest : List Char) :
    (blanks ++ mark :: rest).head?.any isNameChar = false := by
  cases blanks with
  | nil => exact hmark
  | cons c blanks =>
    refine Bool.eq_false_iff.mpr fun hname => ?_
    have hnot := isBlank_eq_false (p := isNameChar) hname rfl rfl
    exact Bool.false_ne_true (hnot.symm.trans (hblanks c List.mem_cons_self))

namespace Parser

variable {n : Nat} {c c' : Cursor}

theorem run_eat_true {token : String} (run : (eat token).run c = .ok (true, c')) :
    c.Passes (c.rest.takeWhile isBlank ++ token.toList) c' := by
  obtain ⟨t, pass, ⟨rfl, -⟩, -⟩ := @retraces_eat _ 0 token c true c' rfl run
  exact pass

theorem run_eat_false {token : String} (run : (eat token).run c = .ok (false, c')) :
    c.Passes (c.rest.takeWhile isBlank) c' := by
  obtain ⟨t, pass, ⟨rfl, -⟩, -⟩ := @retraces_eat _ 0 token c false c' rfl run
  rwa [if_neg Bool.false_ne_true, List.append_nil] at pass

theorem reads_eat_blanks (token : String) (text : List Char) {rest : List Char}
    (h : (token.toList ++ rest).dropWhile isBlank = token.toList ++ rest) :
    Reads (eat token) (Near (text.takeWhile isBlank ++ (token.toList ++ rest))) (· = true)
      (· = rest) := by
  apply reads_eat
  rw [dropWhile_takeWhile_append, h]

/-- The name is read again from `t`, before anything that ends it. -/
structure NameAgain (v : NameAt) (t : List Char) : Prop where
  length : 1 ≤ t.length
  unclosed : ∀ rest, ")".toList.isPrefixOf ((t ++ rest).dropWhile isBlank) = false
  reads : ∀ rest, rest.head?.any isNameChar = false →
    Reads name? (Near (t ++ rest)) (fun w => ∃ x, w = some x ∧ x.name = v.name) (· = rest)

theorem reads_name_again {v : NameAt} (run : name?.run c = .ok (some v, c')) :
    ∃ t, c.Passes t c' ∧ NameAgain v t := by
  obtain ⟨t, pass, ⟨rfl, hname, -⟩, -⟩ := @retraces_name? _ 0 c _ c' rfl run
  obtain ⟨hv, -⟩ := hname v rfl
  refine ⟨_, pass, ?_, fun rest => ?_, fun rest hrest => ?_⟩
  · obtain ⟨d, ds, hcons, -⟩ := exists_cons_of_isName hv
    rw [List.length_append, Option.elim_some, hcons]
    exact Nat.le_add_left 1 _
  · rw [Option.elim_some, List.append_assoc, dropWhile_takeWhile_append, dropWhile_name hv]
    exact isPrefixOf_name hv rfl _ _
  · refine (reads_name? hv hrest).blanks ?_
    rw [Option.elim_some, List.append_assoc, dropWhile_takeWhile_append]

/-- The names are read again from `t`, which ends with their parenthesis, whatever follows it. -/
structure NamesAgain (vs : List NameAt) (t : List Char) : Prop where
  length : vs.length < t.length
  unclosed : ∀ rest, ")".toList.isPrefixOf ((t ++ rest).dropWhile isBlank) = false
  reads : ∀ m rest, vs.length ≤ m → Reads (moreParameters m) (Near (t ++ rest))
    (fun r => ∃ xs, r = some xs ∧ xs.map NameAt.name = vs.map NameAt.name) (· = rest)

theorem NamesAgain.last {v : NameAt} {t : List Char} (h : NameAgain v t) (text : List Char) :
    NamesAgain [v] (t ++ (text.takeWhile isBlank ++ ")".toList)) where
  length := by
    simp only [List.length_append, List.length_singleton]
    exact Nat.lt_of_le_of_lt h.length (Nat.lt_add_of_pos_right (Nat.succ_pos _))
  unclosed rest := by
    rw [List.append_assoc]
    exact h.unclosed _
  reads m rest hm := by
    obtain ⟨m, rfl⟩ := Nat.exists_eq_add_of_le' hm
    rw [List.append_assoc, List.append_assoc]
    refine (h.reads _ (head?_blanks_append rfl (fun _ hd => List.mem_takeWhile_imp hd) _)).bind ?_
    rintro - ⟨x, rfl, hx⟩
    refine (reads_eat_blanks ")" text rfl).at_of_near.bind_eq (.pure ⟨[x], rfl, ?_⟩)
    rw [List.map_singleton, List.map_singleton, hx]

/-- The blanks before a comma are passed in two turns, as a parenthesis is looked for first. -/
theorem NamesAgain.cons {v : NameAt} {vs : List NameAt} {t t' : List Char} (h : NameAgain v t)
    (h' : NamesAgain vs t') (text text' : List Char) :
    NamesAgain (v :: vs)
      (t ++ (text.takeWhile isBlank ++ ((text'.takeWhile isBlank ++ ",".toList) ++ t'))) where
  length := by
    have hpos := h.length
    have hlength := h'.length
    simp only [List.length_append, List.length_cons]
    omega
  unclosed rest := by
    rw [List.append_assoc]
    exact h.unclosed _
  reads m rest hm := by
    obtain ⟨m, rfl⟩ := Nat.exists_eq_add_of_le' hm
    simp only [List.append_assoc]
    have hblanks : ∀ d ∈ text.takeWhile isBlank ++ text'.takeWhile isBlank, isBlank d :=
      fun d hd => (List.mem_append.mp hd).elim List.mem_takeWhile_imp List.mem_takeWhile_imp
    refine (h.reads _ ?_).bind ?_
    · rw [← List.append_assoc]
      exact head?_blanks_append rfl hblanks (t' ++ rest)
    rintro - ⟨x, rfl, hx⟩
    have hrest : (text.takeWhile isBlank ++ (text'.takeWhile isBlank ++
        (",".toList ++ (t' ++ rest)))).dropWhile isBlank = ",".toList ++ (t' ++ rest) := by
      rw [dropWhile_takeWhile_append, dropWhile_takeWhile_append]
      rfl
    refine (reads_eat_not ")" ?_).at_of_near.bind_eq ?_
    · rw [hrest]
      rfl
    refine (reads_eat "," hrest).bind_eq ?_
    refine (h'.reads _ rest (Nat.le_of_succ_le_succ hm)).at_of_near.bind ?_
    rintro - ⟨xs, rfl, hxs⟩
    exact .pure ⟨x :: xs, rfl, by rw [List.map_cons, List.map_cons, hx, hxs]⟩

theorem reads_moreParameters_again {vs : List NameAt}
    (run : (moreParameters n).run c = .ok (some vs, c')) :
    ∃ t, c.Passes t c' ∧ NamesAgain vs t := by
  induction n generalizing c vs with
  | zero => cases run
  | succ n ih =>
    obtain ⟨v, c₁, run₁, run⟩ := run_bind_eq_ok_iff.mp run
    cases v with
    | none => cases run
    | some v =>
      obtain ⟨t₁, pass₁, named⟩ := reads_name_again run₁
      obtain ⟨closed, c₂, run₂, run⟩ := run_bind_eq_ok_iff.mp run
      cases closed with
      | true =>
        cases run
        exact ⟨_, pass₁.trans (run_eat_true run₂), .last named c₁.rest⟩
      | false =>
        obtain ⟨separated, c₃, run₃, run⟩ := run_bind_eq_ok_iff.mp run
        cases separated with
        | false => cases run
        | true =>
          obtain ⟨vs', c₄, run₄, run⟩ := run_bind_eq_ok_iff.mp run
          cases vs' with
          | none => cases run
          | some vs' =>
            cases run
            obtain ⟨t₄, pass₄, later⟩ := ih run₄
            have pass₃ := (run_eat_true run₃).trans pass₄
            exact ⟨_, pass₁.trans ((run_eat_false run₂).trans pass₃),
              .cons named later c₁.rest c₂.rest⟩

/-- The names up to the closing parenthesis, or none if it stands right there. -/
def closedNames (n : Nat) : Parser (Option (List NameAt)) := do
  if ← eat ")" then
    return some []
  else
    moreParameters n

theorem parameters?_eq (n : Nat) : parameters? n = (do
    let before ← get
    skip 1
    let params ← closedNames n
    let arrow ← eat "=>"
    if params.isSome && arrow then
      return params
    else
      set before
      return none) := by
  unfold parameters? closedNames
  refine bind_congr fun before => bind_congr fun _ => ?_
  rw [bind_assoc]
  refine bind_congr fun found => ?_
  cases found with
  | true => rw [if_pos rfl, if_pos rfl]
  | false => rw [if_neg Bool.false_ne_true, if_neg Bool.false_ne_true]

theorem reads_closedNames_again {vs : List NameAt}
    (run : (closedNames n).run c = .ok (some vs, c')) :
    ∃ t, c.Passes t c' ∧ vs.length < t.length ∧ ∀ m rest, vs.length ≤ m →
      Reads (closedNames m) (Near (t ++ rest))
        (fun r => ∃ xs, r = some xs ∧ xs.map NameAt.name = vs.map NameAt.name) (· = rest) := by
  obtain ⟨closed, c₁, run₁, run⟩ := run_bind_eq_ok_iff.mp run
  cases closed with
  | true =>
    cases run
    refine ⟨_, run_eat_true run₁, ?_, fun m rest _ => ?_⟩
    · rw [List.length_append]
      exact Nat.lt_add_left _ Nat.one_pos
    rw [List.append_assoc]
    exact (reads_eat_blanks ")" c.rest rfl).bind_eq (.pure ⟨[], rfl, rfl⟩)
  | false =>
    obtain ⟨t, pass, again⟩ := reads_moreParameters_again run
    have hrest := (run_eat_false run₁).rest
    refine ⟨_, (run_eat_false run₁).trans pass, ?_, fun m rest hm => ?_⟩
    · rw [List.length_append]
      exact Nat.lt_add_left _ again.length
    · rw [List.append_assoc]
      refine (reads_eat_not ")" ?_).bind_eq ?_
      · rw [dropWhile_takeWhile_append]
        exact again.unclosed rest
      · exact (again.reads m rest hm).blanks (dropWhile_takeWhile_append isBlank c.rest _).symm

/-- A parameter list is read again whatever follows its arrow. -/
theorem reads_parameters?_again {vs : List NameAt}
    (run : (parameters? n).run c = .ok (some vs, c')) :
    ∃ t, c.Passes t c' ∧ vs.length < t.length ∧ ∀ m rest, vs.length ≤ m →
      Reads (parameters? m) (· = t ++ rest)
        (fun r => ∃ xs, r = some xs ∧ xs.map NameAt.name = vs.map NameAt.name) (· = rest) := by
  rw [parameters?_eq] at run
  obtain ⟨_, c₀, run₀, run⟩ := run_bind_eq_ok_iff.mp run
  cases run₀
  obtain ⟨_, c₁, run₁, run⟩ := run_bind_eq_ok_iff.mp run
  cases run₁
  obtain ⟨params, c₂, run₂, run⟩ := run_bind_eq_ok_iff.mp run
  obtain ⟨arrow, c₃, run₃, run⟩ := run_bind_eq_ok_iff.mp run
  split at run
  next both =>
    cases run
    obtain rfl : arrow = true := (Bool.and_eq_true_iff.mp both).2
    obtain ⟨t, pass₂, hlength, names⟩ := reads_closedNames_again run₂
    obtain ⟨mark, hmark⟩ : ∃ mark, c.rest.take 1 = [mark] := by
      cases hc : c.rest with
      | nil =>
        have hnil : t ++ c₂.rest = [] := by
          rw [← pass₂.rest]
          show c.rest.drop 1 = []
          rw [hc]
          rfl
        rw [(List.append_eq_nil_iff.mp hnil).1] at hlength
        cases hlength
      | cons mark text => exact ⟨mark, rfl⟩
    have pass₁ : c.Passes [mark] (c.advance 1) := hmark ▸ Cursor.Passes.advance c 1
    refine ⟨_, pass₁.trans (pass₂.trans (run_eat_true run₃)), ?_, fun m rest hm => ?_⟩
    · simp only [List.length_append, List.length_singleton]
      omega
    · have text : ([mark] ++ (t ++ (c₂.rest.takeWhile isBlank ++ "=>".toList)) ++ rest).drop 1 =
          t ++ (c₂.rest.takeWhile isBlank ++ ("=>".toList ++ rest)) := by
        simp
      rw [parameters?_eq]
      refine Reads.get_bind fun d _ => (reads_skip 1).bind fun _ _ => ?_
      rw [text]
      refine (names m _ hm).at_of_near.bind ?_
      rintro - ⟨xs, rfl, hxs⟩
      refine (reads_eat_blanks "=>" c₂.rest rfl).at_of_near.bind_eq ?_
      exact .pure ⟨xs, rfl, hxs⟩
  next => cases run

theorem run_parameters?_none (run : (parameters? n).run c = .ok (none, c')) : c' = c := by
  rw [parameters?_eq] at run
  obtain ⟨_, c₀, run₀, run⟩ := run_bind_eq_ok_iff.mp run
  cases run₀
  obtain ⟨_, c₁, run₁, run⟩ := run_bind_eq_ok_iff.mp run
  obtain ⟨params, c₂, run₂, run⟩ := run_bind_eq_ok_iff.mp run
  obtain ⟨arrow, c₃, run₃, run⟩ := run_bind_eq_ok_iff.mp run
  split at run
  next both =>
    cases run
    cases (Bool.and_eq_true_iff.mp both).1
  next => cases run; rfl

/-! ## Where no list stands -/

/-- The rule never fails. -/
def Succeeds {α : Type} (p : Parser α) : Prop := ∀ c, ∃ a c', p.run c = .ok (a, c')

theorem Succeeds.bind {α β : Type} {p : Parser α} {f : α → Parser β} (hp : Succeeds p)
    (hf : ∀ a, Succeeds (f a)) : Succeeds (p >>= f) := by
  intro c
  obtain ⟨a, c₁, run⟩ := hp c
  obtain ⟨b, c₂, run'⟩ := hf a c₁
  exact ⟨b, c₂, run_bind_eq_ok_iff.mpr ⟨a, c₁, run, run'⟩⟩

theorem succeeds_pure {α : Type} (a : α) : Succeeds (pure a) := fun c => ⟨a, c, rfl⟩

theorem succeeds_rest : Succeeds rest := fun c => ⟨c.rest, c, rfl⟩

theorem succeeds_skip (n : Nat) : Succeeds (skip n) := fun c => ⟨⟨⟩, c.advance n, rfl⟩

theorem succeeds_skipBlanks : Succeeds skipBlanks := succeeds_rest.bind fun _ => succeeds_skip _

theorem succeeds_eat (token : String) : Succeeds (eat token) := by
  refine succeeds_skipBlanks.bind fun _ => succeeds_rest.bind fun text => ?_
  split
  · exact (succeeds_skip _).bind fun _ => succeeds_pure _
  · exact succeeds_pure _

theorem succeeds_name? : Succeeds name? := by
  refine succeeds_skipBlanks.bind fun _ => ?_
  refine Succeeds.bind (fun c => ⟨c.offset, c, rfl⟩) fun start => ?_
  refine succeeds_rest.bind fun text => ?_
  split
  · refine (succeeds_skip _).bind fun _ => Succeeds.bind (fun c => ⟨_, c, rfl⟩) fun span => ?_
    exact succeeds_pure _
  · exact succeeds_pure _

theorem succeeds_moreParameters (n : Nat) : Succeeds (moreParameters n) := by
  induction n with
  | zero => exact succeeds_pure none
  | succ n ih =>
    refine succeeds_name?.bind fun v => ?_
    cases v with
    | none => exact succeeds_pure none
    | some v =>
      refine (succeeds_eat ")").bind fun closed => ?_
      split
      · exact succeeds_pure _
      · refine (succeeds_eat ",").bind fun separated => ?_
        split
        · exact ih.bind fun _ => succeeds_pure _
        · exact succeeds_pure none

theorem succeeds_parameters? (n : Nat) : Succeeds (parameters? n) := by
  rw [parameters?_eq]
  refine Succeeds.bind (fun c => ⟨c, c, rfl⟩) fun before => (succeeds_skip 1).bind fun _ => ?_
  refine Succeeds.bind ?_ fun params => (succeeds_eat "=>").bind fun arrow => ?_
  · refine (succeeds_eat ")").bind fun closed => ?_
    split
    · exact succeeds_pure _
    · exact succeeds_moreParameters n
  · split
    · exact succeeds_pure _
    · exact Succeeds.bind (fun _ => ⟨⟨⟩, before, rfl⟩) fun _ => succeeds_pure none

theorem retraces_parameters? {text : List Char} {bound n m : Nat}
    (hn : text.length ≤ n) (hm : bound ≤ m) :
    Retraces text bound (parameters? n) (parameters? m) (Option.map (List.map NameAt.name))
      fun r t => (r = none → t = []) ∧ (r ≠ none → 1 ≤ t.length) := by
  intro c r c' hc run
  subst hc
  cases r with
  | some vs =>
    obtain ⟨t, pass, hlength, again⟩ := reads_parameters?_again run
    refine ⟨t, pass, ⟨nofun, fun _ => Nat.one_le_of_lt hlength⟩, fun u hu hbound => ?_⟩
    rw [List.length_append] at hbound
    refine (again m u (by omega)).result_imp ?_
    rintro _ ⟨xs, rfl, hxs⟩
    exact congrArg some hxs
  | none =>
    obtain rfl := run_parameters?_none run
    refine ⟨[], .of_still rfl rfl, ⟨fun _ => rfl, fun h => absurd rfl h⟩, fun u hu hbound => ?_⟩
    rintro d rfl
    obtain ⟨r, d', run'⟩ := succeeds_parameters? m d
    cases r with
    | none =>
      obtain rfl := run_parameters?_none run'
      exact ⟨none, d', run', rfl, rfl⟩
    | some vs =>
      -- a list in a part of the text is a list in the whole text
      obtain ⟨t, pass, hlength, again⟩ := reads_parameters?_again run'
      obtain ⟨rest, hrest⟩ := (List.prefix_append t d'.rest).trans (pass.rest ▸ hu)
      have hvs : vs.length ≤ n := by
        rw [← hrest, List.length_append] at hn
        omega
      obtain ⟨_, c', run'', ⟨xs, rfl, -⟩, -⟩ := again n rest hvs c' hrest.symm
      cases run''.symm.trans run

end Parser

end Preflight
