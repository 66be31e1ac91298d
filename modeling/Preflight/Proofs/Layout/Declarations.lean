import Preflight.Proofs.Layout.Writing

/-! # How programs are laid

The declarations of a program stand in its text one after the other, each on lines of its own. -/

namespace Preflight
set_option autoImplicit false

/-- The extents lie behind `first` lines, one after the other without a gap, and end with line
`last`. -/
def Extent.Tile (first : Nat) : List Extent → Nat → Prop
  | [], last => first = last
  | e :: extents, last =>
    e.firstLine = first + 1 ∧ first ≤ e.lastLine ∧ Tile e.lastLine extents last

namespace Extent

theorem Tile.append {first middle last : Nat} {es es' : List Extent} (h : Tile first es middle)
    (h' : Tile middle es' last) : Tile first (es ++ es') last := by
  induction es generalizing first with
  | nil =>
    cases h
    exact h'
  | cons e es ih => exact ⟨h.1, h.2.1, ih h.2.2⟩

/-- The extent of a declaration: it has its name, and all of its parts begin there. -/
structure Of (decl : Ident × Region) (e : Extent) : Prop where
  name : e.name = decl.1.name
  lines : ∀ x : Region, x.PartOf decl.2 → e.firstLine ≤ x.span.line ∧ x.span.line ≤ e.lastLine

end Extent

/-- The declarations with their names, in the order of the text. -/
def Program.declarations (p : Program) : List (Ident × Region) :=
  p.resources.map (fun r => (r.name, .resource r)) ++ p.modules.map fun m => (m.name, .module m)

def Program.regions (p : Program) : List Region := p.declarations.map (·.2)

theorem Program.resource_mem_regions {p : Program} {r : ResourceDecl} (h : r ∈ p.resources) :
    .resource r ∈ p.regions := by
  refine List.mem_map.mpr ⟨(r.name, .resource r), List.mem_append_left _ ?_, rfl⟩
  exact List.mem_map.mpr ⟨r, h, rfl⟩

/-- The draft is these declarations behind `first` lines without a region. -/
structure Draft.Declares (first : Nat) (decls : List (Ident × Region)) (es : List Extent)
    (d : Draft) : Prop where
  atLine : d.AtLine [] (decls.map (·.2)) (decls.flatMap (·.2.shown))
  tile : Extent.Tile first es d.position.lines
  extents : List.Forall₂ Extent.Of decls es

namespace Draft

theorem AtLine.foldl_line {before : List Char} {rs : List Region} {shown : List Span}
    {lines : List String} {d : Draft} (h : d.AtLine before rs shown)
    (hlines : ∀ text ∈ lines, isOneLine text = true) :
    (lines.foldl (fun draft text => draft.line text) d).AtLine before rs shown := by
  induction lines generalizing d with
  | nil => exact h
  | cons text lines ih =>
    rw [List.forall_mem_cons] at hlines
    exact ih ⟨(h.1.write hlines.1).newline, rfl⟩ hlines.2

/-- All that lies behind `d` begins on a line that ends behind it. -/
theorem Ended.extent {name : Ident} {r : Region} {shown : List Span} {d d' : Draft}
    (h : d'.Ended d.text.toList [r] shown) (hd : d.position = Position.past {} d.text.toList) :
    Extent.Of (name, r) ⟨name.name, d.position.lines + 1, d'.position.lines⟩ := by
  obtain ⟨d₁, hd₁, rfl⟩ := h
  refine ⟨rfl, fun x part => ?_⟩
  have laid := hd₁.placed.laid r List.mem_cons_self
  obtain ⟨covers, -, -, -⟩ := laid.of_partOf part
  have hstart := Nat.le_trans (hd₁.placed.ordered.within List.mem_cons_self).1 (laid.within part).1
  refine ⟨?_, ?_⟩
  · rw [hd]
    exact covers.lt_line hd₁.grown hstart
  · show _ ≤ d₁.position.lines + 1
    rw [hd₁.position]
    exact covers.line_le

theorem Ended.declares {first : Nat} {decls : List (Ident × Region)} {es : List Extent}
    {name : Ident} {r : Region} {d d' : Draft} (hd : d.Declares first decls es)
    (h : d'.Ended d.text.toList [r] (decls.flatMap (·.2.shown) ++ r.shown)) :
    d'.Declares first (decls ++ [(name, r)])
      (es ++ [⟨name.name, d.position.lines + 1, d'.position.lines⟩]) where
  atLine := by
    obtain ⟨d₁, hd₁, rfl⟩ := h
    rw [List.map_append, List.flatMap_append, List.flatMap_singleton]
    exact ⟨hd.atLine.1.append hd₁.newline, rfl⟩
  tile := by
    refine hd.tile.append ⟨rfl, ?_, rfl⟩
    obtain ⟨d₁, hd₁, rfl⟩ := h
    rw [hd.atLine.1.position, hd₁.newline.position]
    exact Position.lines_past_mono _ hd₁.newline.grown
  extents := List.rel_append hd.extents (.cons (h.extent hd.atLine.1.position) .nil)

end Draft

namespace Blueprint

variable {α σ : Type} {b : Blueprint}

theorem declares_header (h : b.oneLine = true) :
    b.header.Declares b.header.position.lines [] [] := by
  simp only [oneLine, Bool.and_eq_true, List.all_eq_true] at h
  obtain ⟨⟨⟨hparams, hvars⟩, -⟩, -⟩ := h
  have empty : ({} : Draft).AtLine [] [] [] := ⟨Draft.Since.refl (d := {}) rfl, rfl⟩
  refine ⟨empty.foldl_line fun text htext => ?_, rfl, .nil⟩
  rcases List.mem_append.mp htext with htext | htext
  · obtain ⟨name, hname, rfl⟩ := List.mem_map.mp htext
    exact isOneLine_append (isOneLine_append rfl (hparams name hname)) rfl
  · obtain ⟨name, hname, rfl⟩ := List.mem_map.mp htext
    exact isOneLine_append (isOneLine_append rfl (hvars name hname)) rfl

theorem declares_declaration {first : Nat} {decls : List (Ident × Region)} {es : List Extent}
    {write : Writer α} {name : String} {context : DeclarationError → BuildError}
    {ident : α → Ident} {region : α → Region}
    (hname : Returns write fun a => (ident a).name = name)
    (hwrite : ∀ before shown, Ensures (Draft.AtLine before [] shown) write fun a =>
      Draft.Ended before [region a] (shown ++ (region a).shown)) :
    Ensures (Draft.Declares first decls es) (declaration name write context) fun p =>
      Draft.Declares first (decls ++ [(ident p.1, region p.1)]) (es ++ [p.2]) := by
  intro d hd p d' run
  change declaration name write context d = .ok (p, d') at run
  unfold declaration at run
  split at run
  next => cases run
  next value after hr =>
    cases run
    have ended := hwrite d.text.toList _ d ⟨hd.atLine.1.begin, hd.atLine.2⟩ value _ hr
    rw [← hname d trivial value _ hr]
    exact ended.declares hd

theorem declares_declarations (name : σ → String) (context : σ → DeclarationError → BuildError)
    (ident : α → Ident) (region : α → Region) {first : Nat} {decls : List (Ident × Region)}
    {es : List Extent} {write : σ → SymbolId → Writer α}
    (hname : ∀ spec symbol, Returns (write spec symbol) fun a => (ident a).name = name spec)
    {specs : List (σ × SymbolId)}
    (hwrite : ∀ pair ∈ specs, ∀ before shown, Ensures (Draft.AtLine before [] shown)
      (write pair.1 pair.2) fun a => Draft.Ended before [region a] (shown ++ (region a).shown)) :
    Ensures (Draft.Declares first decls es)
      (specs.mapM fun (spec, symbol) => declaration (name spec) (write spec symbol) (context spec))
      fun ps => Draft.Declares first (decls ++ ps.map fun p => (ident p.1, region p.1))
        (es ++ ps.map (·.2)) := by
  have step : ∀ pair ∈ specs, ∀ done : List (α × Extent),
      Ensures (Draft.Declares first (decls ++ done.map fun p => (ident p.1, region p.1))
        (es ++ done.map (·.2)))
        (match pair with
          | (spec, symbol) => declaration (name spec) (write spec symbol) (context spec))
        fun p => Draft.Declares first (decls ++ (done ++ [p]).map fun p => (ident p.1, region p.1))
          (es ++ (done ++ [p]).map (·.2)) := by
    rintro ⟨spec, symbol⟩ hpair done
    simp only [List.map_append, ← List.append_assoc]
    exact declares_declaration (hname spec symbol) (hwrite _ hpair)
  have h := Ensures.mapM specs step []
  simpa using h

theorem declares_of_written {program : Program} {contents : String} {extents : List Extent}
    (hline : b.oneLine = true) (h : b.written = .ok (program, contents, extents)) :
    ∃ d : Draft, d.text = contents ∧
      d.Declares b.header.position.lines program.declarations extents := by
  have hheader := declares_header hline
  simp only [oneLine, Bool.and_eq_true, List.all_eq_true] at hline
  obtain ⟨⟨-, hresources⟩, hmodules⟩ := hline
  unfold written at h
  obtain ⟨⟨resources, d⟩, hwritten, h⟩ := bind_eq_ok_iff.mp h
  obtain ⟨⟨modules, d'⟩, hwritten', h⟩ := bind_eq_ok_iff.mp h
  cases h
  have hd := declares_declarations ResourceSpec.name (fun spec => .resource spec.name)
    ResourceDecl.name Region.resource
    (fun spec symbol => (Writer.returns_resource spec symbol).imp fun _ h => h.name)
    (fun pair hpair _ _ => Writer.ended_resource (hresources _ (fst_mem_resources hpair)) pair.2)
    b.header hheader resources d hwritten
  have hd' := declares_declarations ModuleSpec.name (fun spec => .module spec.name)
    ModuleDecl.name Region.module
    (fun spec symbol => (Writer.returns_module spec symbol).imp fun _ h => h.name)
    (fun pair hpair _ _ => Writer.ended_module (hmodules _ (fst_mem_modules hpair)) pair.2)
    d hd modules d' hwritten'
  refine ⟨d', rfl, ?_⟩
  simpa [Program.declarations, Function.comp_def] using hd'

end Blueprint

end Preflight
