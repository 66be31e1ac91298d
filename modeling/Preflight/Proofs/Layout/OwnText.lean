import Preflight.Proofs.Layout.Expressions

/-! # The text of a node

Wherever a node stands in a tree that was read, the text that its span covers means the node: read
on its own, it gives the same tree. -/

namespace Preflight
set_option autoImplicit false

theorem Expr.regions_of_children {c e : Expr} (h : c ∈ e.children) :
    Region.PartOf (.expr c) (.expr e) := by
  cases e with
  | object n ps =>
    obtain ⟨p, hp, rfl⟩ := List.mem_map.mp h
    exact .part (List.mem_map_of_mem hp) (.part List.mem_cons_self (.self _))
  | loop n item index collection body =>
    refine .part (List.mem_cons_of_mem _ (List.mem_append_right _ ?_)) (.self _)
    exact List.mem_map_of_mem (f := Region.expr) h
  | lambda n params body =>
    exact .part (List.mem_append_right _ (List.mem_map_of_mem (f := Region.expr) h)) (.self _)
  | _ => exact .part (List.mem_map_of_mem (f := Region.expr) h) (.self _)

theorem Region.PartOf.trans {x y z : Region} (h : PartOf x y) (h' : PartOf y z) : PartOf x z := by
  induction h' with
  | self => exact h
  | part mem _ ih => exact .part mem ih

theorem Expr.PartOf.region {x e : Expr} (h : x.PartOf e) : Region.PartOf (.expr x) (.expr e) := by
  induction h with
  | self => exact .self _
  | child mem _ ih => exact ih.trans (regions_of_children mem)

/-- A text on one line that is read to its end is accepted. -/
theorem Reading.parse_of_reads {text : List Char} {e : Expr} (hline : '\n' ∉ text)
    (h : Parser.Reads (Parser.expr text.length) (· = text) (·.erase = e) (Near [])) :
    ∃ reading, Reading.parse (.ofList text) = .ok reading ∧ reading.expr.erase = e := by
  have read : Parser.Reads (Parser.whole text.length) (· = text) (·.erase = e) (· = []) := by
    refine h.bind fun e' he => Parser.reads_skipBlanks.bind fun _ _ => ?_
    exact Parser.reads_rest.bind_eq (.pure he)
  obtain ⟨e', c, run, he, -⟩ := read { rest := text } rfl
  refine ⟨⟨e', c.next⟩, ?_, he⟩
  rw [Reading.parse, String.toList_ofList]
  dsimp only
  rw [if_neg hline, run]
  rfl

/-- A text that reads alone as the expression is accepted, and gives it. -/
theorem OwnText.parse {w : List Char} {e : Expr} (h : OwnText w e) (hline : '\n' ∉ w) :
    ∃ own, Reading.parse (.ofList w) = .ok own ∧ own.expr.erase = e.erase :=
  Reading.parse_of_reads hline (h.alone w.length le_rfl)

namespace Reading

variable {text : String} {reading : Reading}

theorem not_newline (h : parse text = .ok reading) : '\n' ∉ text.toList := by
  intro hmem
  rw [parse] at h
  dsimp only at h
  rw [if_pos hmem] at h
  cases h

/-- A text that is accepted is its expression, and blanks. -/
theorem exists_run_blank (h : parse text = .ok reading) :
    ∃ c, (Parser.expr text.toList.length).run { rest := text.toList } = .ok (reading.expr, c) ∧
      c.rest.dropWhile isBlank = [] := by
  have hline := not_newline h
  rw [parse] at h
  dsimp only at h
  rw [if_neg hline] at h
  obtain ⟨⟨e, c⟩, run, h⟩ := bind_eq_ok_iff.mp h
  cases h
  obtain ⟨e', c₁, run₁, run⟩ := Parser.run_bind_eq_ok_iff.mp run
  obtain ⟨_, c₂, run₂, run⟩ := Parser.run_bind_eq_ok_iff.mp run
  obtain ⟨rest, c₃, run₃, run⟩ := Parser.run_bind_eq_ok_iff.mp run
  cases run₂
  cases run₃
  cases hrest : (c₁.advance (c₁.rest.takeWhile isBlank).length).rest with
  | nil =>
    rw [hrest] at run
    cases run
    refine ⟨c₁, run₁, ?_⟩
    rw [← Parser.drop_length_takeWhile]
    exact hrest
  | cons d rest =>
    rw [hrest] at run
    cases run

/-- A text that is accepted begins with its expression. -/
theorem exists_run (h : parse text = .ok reading) :
    ∃ c, (Parser.expr text.toList.length).run { rest := text.toList } = .ok (reading.expr, c) := by
  obtain ⟨c, run, -⟩ := exists_run_blank h
  exact ⟨c, run⟩

theorem laid (h : parse text = .ok reading) : Laid text.toList OwnText (.expr reading.expr) := by
  obtain ⟨c, run⟩ := exists_run h
  have start : Cursor.Behind text.toList OwnText 0 [] text.toList.length { rest := text.toList } :=
    ⟨⟨[], rfl, rfl⟩, .nil le_rfl, le_rfl⟩
  have hbehind := (Parser.nested_expr (not_newline h) _).lays 0 [] _ start _ c run
  exact hbehind.placed.laid _ List.mem_cons_self

/-- The text that the span of a node covers is read on its own as the same node, spans and indices
aside. -/
theorem parse_own_text (file : String) (h : parse text = .ok reading) {x : Expr}
    (part : x.PartOf reading.expr) :
    ∃ own, parse (x.span.text ⟨file, text⟩) = .ok own ∧ own.expr.erase = x.erase := by
  obtain ⟨covers, fits, -, -⟩ := (laid h).of_partOf part.region
  rw [show x.span.text ⟨file, text⟩ = _ from covers.text_eq]
  refine OwnText.parse fits fun hmem => not_newline h ?_
  obtain ⟨before, after, htext, -⟩ := covers
  rw [htext]
  exact List.mem_append_right _ (List.mem_append_left _ hmem)

/-- Whether the text is accepted, and its tree passes the test. -/
def readsWith (text : String) (test : Expr → Bool) : Bool :=
  match parse text with
  | .ok reading => test reading.expr
  | .error _ => false

theorem readsWith_iff {test : Expr → Bool} :
    readsWith text test = true ↔
      ∃ reading, parse text = .ok reading ∧ test reading.expr = true := by
  unfold readsWith
  split <;> simp_all

/-- Parentheses that are dropped, signs before numbers, and a lambda that takes in all it can. -/
def greedyLambda : String := "f((a + -1) * 2, x => x ?? [for v in (b): 'é$\x7b!v.k\x7d' ], y[-(1)])"

theorem parse_own_text_greedyLambda : ∃ (reading : Reading) (x : Expr),
    parse greedyLambda = .ok reading ∧ x.PartOf reading.expr ∧
    x.span.text ⟨"main.bicep", greedyLambda⟩ = "x => x ?? [for v in (b): 'é$\x7b!v.k\x7d' ]" ∧
    ∃ own, parse (x.span.text ⟨"main.bicep", greedyLambda⟩) = .ok own ∧
      own.expr.erase = x.erase := by
  have reads : readsWith greedyLambda (fun e =>
      e.children[1]?.map Expr.span == some (.inLine 16 54)) = true := by decide +kernel
  obtain ⟨reading, h, hchild⟩ := readsWith_iff.mp reads
  obtain ⟨x, hx, hspan⟩ := Option.map_eq_some_iff.mp (beq_iff_eq.mp hchild)
  have part : x.PartOf reading.expr := .child (List.mem_of_getElem? hx) (.self x)
  refine ⟨reading, x, h, part, ?_, parse_own_text "main.bicep" h part⟩
  rw [hspan]
  decide +kernel

end Reading

end Preflight
