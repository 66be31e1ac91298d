import Preflight.Expr.Children
import Preflight.Program
import Preflight.Proofs.Layout.Covers

/-! # Regions of a program text

Whatever has a span is a region: declarations and their bodies, names and variables, properties and
expressions. The parts of a region are told in the order of the text. -/

namespace Preflight
set_option autoImplicit false

def Body.span : Body → Span
  | .object value => value.span
  | .conditional span _ _ => span
  | .loop head _ => head.span
  | .error span => span

inductive Region where
  | resource (r : ResourceDecl)
  | module (d : ModuleDecl)
  | body (b : Body)
  | property (p : Property Expr)
  | expr (e : Expr)
  /-- The name of a declaration or of a variable. -/
  | name (span : Span) (text : String)

def Ident.region (v : Ident) : Region := .name v.span v.name

def LocalVar.region (v : LocalVar) : Region := .name v.node.span v.name

namespace Expr

def regions : Expr → List Region
  | object _ properties => properties.map .property
  | loop _ item index collection body =>
    item.region :: (index.toList.map LocalVar.region ++ [.expr collection, .expr body])
  | lambda _ params body => params.map LocalVar.region ++ [.expr body]
  | e => e.children.map .expr

end Expr

namespace Region

def span : Region → Span
  | resource r => r.span
  | module d => d.span
  | body b => b.span
  | property p => p.span
  | expr e => e.span
  | name span _ => span

def parts : Region → List Region
  | resource r => [r.name.region, body r.body]
  | module d => [d.name.region, body d.body]
  | body (.object value) => [expr value]
  | body (.conditional _ condition inner) => [expr condition, body inner]
  | body (.loop head inner) =>
    head.item.region :: (head.index.toList.map LocalVar.region ++
      [expr head.collection, body inner])
  | body (.error _) => []
  | property p => [expr p.value]
  | expr e => e.regions
  | name _ _ => []

/-- What stands in a region: a name stands there as it is, and the text of an expression meets the
condition `fit`. -/
def Fits (fit : List Char → Expr → Prop) (w : List Char) : Region → Prop
  | name _ text => w = text.toList
  | expr e => fit w e
  | _ => True

/-- A region and what lies in it, at any depth. -/
inductive PartOf : Region → Region → Prop where
  | self (r : Region) : PartOf r r
  | part {x p r : Region} (mem : p ∈ r.parts) (part : PartOf x p) : PartOf x r

end Region

theorem Body.partOf_of_property? {key : String} {e : Expr} {body : Body}
    (h : body.property? key = some e) : (Region.expr e).PartOf (.body body) := by
  induction body with
  | object value =>
    cases value
    case object n ps =>
      obtain ⟨p, hp, rfl⟩ := Option.map_eq_some_iff.mp h
      have mem : Region.property p ∈ (Region.expr (.object n ps)).parts :=
        List.mem_map_of_mem (List.mem_of_find?_eq_some hp)
      exact .part List.mem_cons_self (.part mem (.part List.mem_cons_self (.self _)))
    all_goals cases h
  | conditional span condition inner ih =>
    exact .part (List.mem_cons_of_mem _ List.mem_cons_self) (ih h)
  | loop head inner ih =>
    refine .part ?_ (ih h)
    simp [Region.parts]
  | error => cases h

/-- The region stands in the text where its span says, and so do its parts, one after the other. -/
inductive Laid (text : List Char) (fit : List Char → Expr → Prop) : Region → Prop where
  | intro {r : Region} {w : List Char} (covers : r.span.Covers text w) (fits : r.Fits fit w)
    (ordered : Span.InOrder r.span.start r.span.stop (r.parts.map Region.span))
    (parts : ∀ p ∈ r.parts, Laid text fit p) : Laid text fit r

/-- The regions are laid between two offsets, one after the other. -/
structure Placed (text : List Char) (fit : List Char → Expr → Prop) (start stop : Nat)
    (rs : List Region) : Prop where
  ordered : Span.InOrder start stop (rs.map Region.span)
  laid : ∀ r ∈ rs, Laid text fit r

variable {text : List Char} {fit : List Char → Expr → Prop}

namespace Laid

theorem of_partOf {x r : Region} (h : Laid text fit r) (part : x.PartOf r) : Laid text fit x := by
  induction part with
  | self => exact h
  | part mem _ ih =>
    obtain ⟨-, -, -, parts⟩ := h
    exact ih (parts _ mem)

/-- A part lies inside, at any depth. -/
theorem within {x r : Region} (h : Laid text fit r) (part : x.PartOf r) :
    r.span.start ≤ x.span.start ∧ x.span.stop ≤ r.span.stop := by
  induction part with
  | self => exact ⟨Nat.le_refl _, Nat.le_refl _⟩
  | part mem _ ih =>
    obtain ⟨-, -, ordered, parts⟩ := h
    obtain ⟨hstart, hstop⟩ := ordered.within (List.mem_map_of_mem mem)
    obtain ⟨hstart', hstop'⟩ := ih (parts _ mem)
    exact ⟨Nat.le_trans hstart hstart', Nat.le_trans hstop' hstop⟩

theorem append_text {r : Region} (h : Laid text fit r) (more : List Char) :
    Laid (text ++ more) fit r := by
  induction h with
  | intro covers fits ordered _ ih => exact .intro (covers.append more) fits ordered ih

theorem objectBody {value : Expr} (h : Laid text fit (.expr value)) :
    Laid text fit (.body (.object value)) := by
  have ⟨covers, _, _, _⟩ := h
  exact .intro covers trivial (.single (Nat.le_refl _) covers.start_le_stop (Nat.le_refl _))
    (List.forall_mem_singleton.mpr h)

end Laid

namespace Placed

variable {start stop : Nat} {rs : List Region}

theorem nil (h : start ≤ stop) : Placed text fit start stop [] where
  ordered := h
  laid := nofun

theorem start_le_stop (h : Placed text fit start stop rs) : start ≤ stop := h.ordered.start_le_stop

theorem append {middle : Nat} {rs' : List Region} (h : Placed text fit start middle rs)
    (h' : Placed text fit middle stop rs') : Placed text fit start stop (rs ++ rs') where
  ordered := by
    rw [List.map_append]
    exact h.ordered.append h'.ordered
  laid := fun r hr => (List.mem_append.mp hr).elim (h.laid r) (h'.laid r)

theorem left {rs' : List Region} (h : Placed text fit start stop (rs ++ rs')) :
    Placed text fit start stop rs where
  ordered := by
    have hordered := h.ordered
    rw [List.map_append] at hordered
    exact hordered.left
  laid := fun r hr => h.laid r (List.mem_append_left _ hr)

theorem extend {stop' : Nat} (h : Placed text fit start stop rs) (hstop : stop ≤ stop') :
    Placed text fit start stop' rs := by
  have hnil := h.append (nil hstop)
  rwa [List.append_nil] at hnil

theorem append_text (h : Placed text fit start stop rs) (more : List Char) :
    Placed (text ++ more) fit start stop rs :=
  ⟨h.ordered, fun r hr => (h.laid r hr).append_text more⟩

/-- A region that is laid is laid between its own two ends. -/
theorem single {r : Region} {w : List Char} (covers : r.span.Covers text w) (fits : r.Fits fit w)
    (parts : Placed text fit r.span.start r.span.stop r.parts) :
    Placed text fit r.span.start r.span.stop [r] where
  ordered := .single (Nat.le_refl _) covers.start_le_stop (Nat.le_refl _)
  laid := by
    rw [List.forall_mem_singleton]
    exact .intro covers fits parts.ordered parts.laid

end Placed

end Preflight
