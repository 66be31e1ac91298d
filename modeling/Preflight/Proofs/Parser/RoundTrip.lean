import Preflight.Blueprint.Draft
import Preflight.Proofs.Parser.Nodes

/-! # What is written is read back

Every expression that can be written is read back from its text, by the parser and as the value of
a property, spans and indices aside. -/

namespace Preflight
set_option autoImplicit false

namespace Parser

variable {expr : Parser Expr} {n : Nat}

theorem opens_of_rereads {e : Expr} (own : e.isWritable) (h : Rereads expr e) :
    Opens (primary n expr) e :=
  fun rest arrow =>
    reads_parenthesize (Expr.opening_render own) arrow (h _ (.cons (by decide) rest))

theorem encloses_of_rereads {e : Expr} (own : e.isWritable) (h : Rereads (Parser.expr n) e) :
    Encloses (Parser.expr (n + 1)) e :=
  fun rest hrest => reads_conditional_of_primary rfl hrest
    (opens_of_rereads own h rest hrest.endsOperand.arrow).near_of_at

/-- A node is read if its children are, in parentheses and before suffixes and operators. -/
theorem rereads_of_children {e : Expr} (own : e.isWritable) (hn : e.render.length ≤ n)
    (opens : ∀ c ∈ e.children, Opens (primary n expr) c)
    (encloses : ∀ c ∈ e.children, Encloses expr c) : Rereads (conditional n expr) e := by
  have pos : 0 < n := (Expr.length_render_pos own).trans_le hn
  rcases e with _ | _ | _ | _ | _ | _ | _ | _ | _ | ⟨_, _ | _, _, _⟩ | _ | _ | _ | _ | _ <;>
    simp only [Expr.children, List.mem_append, Option.toList_some, Option.toList_none,
      List.mem_cons, List.not_mem_nil, forall_eq_or_imp, false_imp_iff, implies_true, or_false,
      forall_eq, false_or, List.forall_mem_map] at opens encloses <;>
    simp only [Expr.isWritable, Bool.and_eq_true, List.all_eq_true, Bool.not_eq_true',
      beq_iff_eq, decide_eq_true_eq] at own <;>
    simp only [Expr.render, List.length_append, List.length_cons, length_parenthesize] at hn
  case string n segments holes =>
    have hlength : segments.length = (Expr.renderAll holes).length + 1 := by
      rw [Expr.renderAll_eq_map, List.length_map, own.1]
    have := Expr.length_segments_le hlength
    exact rereads_string own.1 encloses (by omega)
  case int n value => exact rereads_int own.1 own.2
  case bool n value => exact rereads_bool
  case null n => exact rereads_null
  case var n name => exact rereads_var own.1 own.2
  case array n items =>
    have := Expr.length_items_le items
    exact rereads_array encloses (by omega)
  case object n ps =>
    have := Expr.length_properties_le ps
    exact rereads_object encloses (by omega)
  case member n base name => exact rereads_member pos opens own
  case subscript n base key => exact rereads_subscript pos opens.1 encloses.2
  case call.none n name args =>
    have := Expr.length_items_le args
    exact rereads_call own.1 own.2 encloses (by omega)
  case call.some n name args base =>
    have := Expr.length_items_le args
    exact rereads_method opens.1 own encloses.2 (by omega)
  case unary n op operand => exact rereads_unary pos opens
  case binary n op lhs rhs => exact rereads_binary pos opens.1 opens.2
  case ternary n condition ifTrue ifFalse =>
    exact rereads_ternary opens.1 encloses.2.1 encloses.2.2
  case loop n item index collection body =>
    exact rereads_loop own.1 own.2 encloses.1 encloses.2
  case lambda n params body =>
    have writable : ∀ x ∈ params.map LocalVar.name, isName x := by simpa using own
    have := Expr.length_names_le writable
    rw [List.map_map, List.length_map] at this
    have names : String.toList ∘ LocalVar.name = fun v => v.name.toList := rfl
    rw [names] at this
    exact rereads_lambda own (by omega) encloses

/-- An expression that can be written is read back from its text. -/
theorem rereads_expr {e : Expr} (h : e.Readable) :
    ∀ n, e.render.length ≤ n → Rereads (Parser.expr n) e := by
  induction e using Expr.childInduction with
  | step e ih =>
    intro n hn
    obtain ⟨own, inside⟩ := Expr.readable_iff.mp h
    have ownOf (c : Expr) (hc : c ∈ e.children) : c.isWritable :=
      (Expr.readable_iff.mp (inside c hc)).1
    have pos := Expr.length_render_pos own
    -- the text of a child in parentheses is shorter than that of the node
    obtain ⟨n, rfl⟩ : ∃ k, n = k + 1 := ⟨n - 1, by omega⟩
    refine rereads_of_children own hn (fun c hc => ?_) fun c hc => ?_
    · have := Expr.length_child own hc
      exact opens_of_rereads (ownOf c hc) (ih c hc (inside c hc) n (by omega))
    · have := Expr.length_child own hc
      obtain ⟨k, rfl⟩ : ∃ k, n = k + 1 := ⟨n - 1, by omega⟩
      exact encloses_of_rereads (ownOf c hc) (ih c hc (inside c hc) k (by omega))

theorem reads_whole {e : Expr} (h : e.Readable) :
    Reads (whole e.render.length) (· = e.render) (fun e' => e'.erase = e.erase) (· = []) := by
  have read := rereads_expr h e.render.length le_rfl [] .nil
  rw [List.append_nil] at read
  refine read.at_of_near.bind fun e' he => reads_skipBlanks.bind fun _ _ => ?_
  exact reads_rest.bind_eq (.pure he)

end Parser

/-- What is written is read back, spans and indices aside. -/
theorem Reading.parse_render {e : Expr} (h : e.Readable) :
    ∃ reading, Reading.parse (.ofList e.render) = .ok reading ∧ reading.expr.erase = e.erase := by
  obtain ⟨e', c, run, he, -⟩ := Parser.reads_whole h { rest := e.render } rfl
  refine ⟨⟨e', c.next⟩, ?_, he⟩
  simp only [Reading.parse, String.toList_ofList]
  rw [if_neg (Expr.newline_not_mem_render h), run]
  rfl

theorem Expr.erase_place (p : Position) (first : Nat) (e : Expr) :
    (e.place p first).erase = e.erase := map_map _ _ e

namespace Writer

theorem run_expr {text : String} {reading : Reading} (h : Reading.parse text = .ok reading)
    (property : Option String) (d : Draft) :
    (expr property text).run d = .ok (reading.expr.place d.position d.next,
      { d.write text with next := d.next + reading.indices }) := by
  simp only [expr, h]
  rfl

/-- A text that can be read is read as the value of any property. -/
theorem run_property {text : String} {reading : Reading} (h : Reading.parse text = .ok reading)
    (key : String) (d : Draft) : ∃ p d', (property key text).run d = .ok (p, d') ∧ p.key = key ∧
      p.value.erase = reading.expr.erase := by
  let before := ((d.write "  ").write key).write ": "
  have run : (property key text).run d =
      (expr (some key) text >>= fun value => do
        let span ← spanFrom (d.write "  ").position
        newline
        return { span, key, value : Property Expr }).run before := rfl
  rw [StateT.run_bind, run_expr h] at run
  exact ⟨_, _, run, rfl, Expr.erase_place _ _ reading.expr⟩

end Writer

/-- An expression that can be written is read back from its text, alone and as the value of a
property, and stays as it was but for spans and indices. -/
theorem Expr.Readable.read_back {e : Expr} (h : e.Readable) :
    (∃ reading, Reading.parse (.ofList e.render) = .ok reading ∧ reading.expr.erase = e.erase) ∧
    ∀ (key : String) (d : Draft), ∃ p d',
      (Writer.property key (.ofList e.render)).run d = .ok (p, d') ∧ p.key = key ∧
        p.value.erase = e.erase := by
  obtain ⟨reading, parsed, same⟩ := Reading.parse_render h
  refine ⟨⟨reading, parsed, same⟩, fun key d => ?_⟩
  obtain ⟨p, d', run, hkey, hvalue⟩ := Writer.run_property parsed key d
  exact ⟨p, d', run, hkey, hvalue.trans same⟩

/-- A lambda over a call, with escapes, a hole and the least integer. -/
def escapedLambda : Expr :=
  .lambda {} [⟨{}, "p"⟩, ⟨{}, "q"⟩] (.call {} none "f"
    [.string {} ["it's ", " for $5"] [.var {} "p"], .int {} (-9223372036854775808)])

theorem escapedLambda_read_back : escapedLambda.Readable ∧
    ∃ reading, Reading.parse (.ofList escapedLambda.render) = .ok reading ∧
      reading.expr.erase = escapedLambda.erase := by
  have readable : escapedLambda.Readable := by
    have hole : (Expr.var {} "p").Readable := Expr.readable_iff.mpr ⟨by decide, nofun⟩
    have text : (Expr.string {} ["it's ", " for $5"] [.var {} "p"]).Readable :=
      Expr.readable_iff.mpr ⟨by decide, List.forall_mem_singleton.mpr hole⟩
    have least : (Expr.int {} (-9223372036854775808)).Readable :=
      Expr.readable_iff.mpr ⟨by decide, nofun⟩
    refine Expr.readable_iff.mpr ⟨by decide, List.forall_mem_singleton.mpr ?_⟩
    refine Expr.readable_iff.mpr ⟨by decide, List.forall_mem_cons.mpr ⟨text, ?_⟩⟩
    exact List.forall_mem_singleton.mpr least
  exact ⟨readable, (Expr.Readable.read_back readable).1⟩

example : String.ofList escapedLambda.render =
    "(p, q) => (f(('it\\'s $\x7b(p)\x7d for \\$5'), (-9223372036854775808)))" := by
  decide +kernel

end Preflight
