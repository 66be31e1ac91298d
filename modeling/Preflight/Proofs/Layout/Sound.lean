import Preflight.Proofs.Layout.Declarations

/-! # Spans of a built program -/

namespace Preflight
set_option autoImplicit false

/-- The span lies in the text from one character's begin to another's, and its line and column
name the place that its first offset does. -/
structure Span.Sound (source : Source) (s : Span) : Prop where
  ordered : s.start ≤ s.stop
  inside : s.stop ≤ source.contents.utf8ByteSize
  startValid : String.Pos.Raw.IsValid source.contents ⟨s.start⟩
  stopValid : String.Pos.Raw.IsValid source.contents ⟨s.stop⟩
  place : 1 ≤ s.line ∧ 1 ≤ s.column ∧ ∃ range, source.lines[s.line - 1]? = some range ∧
    range.start + (s.column - 1) = s.start

/-- The span is sound, that of a name covers the name, and the parts lie inside, one after the
other. -/
structure Region.Sound (source : Source) (r : Region) : Prop where
  span : r.span.Sound source
  name : ∀ s text, r = .name s text → s.text source = text
  inside : ∀ p ∈ r.parts, r.span.start ≤ p.span.start ∧ p.span.stop ≤ r.span.stop
  apart : r.parts.Pairwise fun p q => p.span.stop ≤ q.span.start

variable {source : Source}

theorem Span.Covers.sound {w : List Char} {s : Span} (h : s.Covers source.contents.toList w) :
    s.Sound source where
  ordered := h.start_le_stop
  inside := by
    rw [← utf8Length_toList]
    exact h.stop_le
  startValid := h.isValid_start
  stopValid := h.isValid_stop
  place := ⟨h.one_le_line, h.one_le_column, h.exists_line⟩

theorem Laid.sound {fit : List Char → Expr → Prop} {r : Region}
    (h : Laid source.contents.toList fit r) : r.Sound source := by
  obtain ⟨covers, fits, ordered, -⟩ := h
  refine ⟨covers.sound, ?_, fun p hp => ordered.within (List.mem_map_of_mem hp), ?_⟩
  · rintro s text rfl
    cases (show _ = text.toList from fits)
    exact covers.text_eq.trans String.ofList_toList
  · exact List.pairwise_map.mp ordered.pairwise

namespace Blueprint

variable {b : Blueprint} {built : Build}

theorem declares_of_build (hline : b.oneLine = true) (h : b.build = .ok built) :
    ∃ d : Draft, d.text = built.source.contents ∧
      d.Declares b.header.position.lines built.model.program.declarations built.extents :=
  declares_of_written hline (of_build h).written

/-- Every span of a built program is sound, and the declarations stand one after the other. -/
theorem sound_of_build (hline : b.oneLine = true) (h : b.build = .ok built) :
    (∀ r ∈ built.model.program.regions, ∀ x : Region, x.PartOf r → x.Sound built.source) ∧
      built.model.program.regions.Pairwise fun r s => r.span.stop ≤ s.span.start := by
  obtain ⟨d, htext, hd⟩ := declares_of_build hline h
  obtain ⟨ordered, laid⟩ := hd.atLine.1.placed
  rw [htext] at laid
  refine ⟨fun r hr x part => ?_, List.pairwise_map.mp ordered.pairwise⟩
  exact ((laid r hr).of_partOf part).sound

/-- Lines are counted over two sorts of declarations, columns over characters of two bytes. -/
def accented : Blueprint where
  params := ["é"]
  resources := [{
    name := "hêtre"
    typeText := "Ns/oaks@1"
    loop := some { item := "x", index := some "i", collection := " ['ü', 2]" }
    condition := some "(i > 0)"
    properties := .ofList [("name", "( 'à$\x7b x \x7d' )"), ("tags", "['é', i]")] }]
  modules := [{ name := "forêt", properties := .ofList [("name", "'é'")] }]

theorem sound_accented : ∃ (built : Build) (r : ResourceDecl) (x : Expr),
    accented.build = .ok built ∧ accented.oneLine = true ∧ r ∈ built.model.program.resources ∧
    (Region.expr x).PartOf (.resource r) ∧ x.span = ⟨3, 17, 104, 105⟩ ∧
    (Region.expr x).Sound built.source := by
  have hline : accented.oneLine = true := by decide +kernel
  have builds : accented.buildsWith (fun built => built.model.program.resources.any fun r =>
      (r.body.property? "name").any fun e => e.children.any fun x =>
        x.span == ⟨3, 17, 104, 105⟩) = true := by decide +kernel
  obtain ⟨built, h, htest⟩ := buildsWith_iff.mp builds
  obtain ⟨r, hr, htest⟩ := List.any_eq_true.mp htest
  obtain ⟨e, he, htest⟩ := (Option.any_eq_true _ _).mp htest
  obtain ⟨x, hx, hspan⟩ := List.any_eq_true.mp htest
  have part : (Region.expr x).PartOf (.resource r) :=
    .part (List.mem_cons_of_mem _ List.mem_cons_self)
      ((Expr.regions_of_children hx).trans (Body.partOf_of_property? he))
  refine ⟨built, r, x, h, hline, hr, part, beq_iff_eq.mp hspan, ?_⟩
  exact (sound_of_build hline h).1 _ (Program.resource_mem_regions hr) _ part

end Blueprint

end Preflight
