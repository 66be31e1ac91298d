import Preflight.Proofs.Inspection.Reports
import Preflight.Proofs.Layout.Sound

/-! # Findings point at their declarations -/

namespace Preflight
set_option autoImplicit false

/-- The text is the literal, between its quotes. -/
def QuotedText (text : String) (value : Expr) : Prop :=
  (∃ v, text.toList = '\'' :: (v ++ ['\''])) ∧
    ∃ own, Reading.parse text = .ok own ∧ own.expr.erase = value.erase

/-- The message shows the line of the finding, and under it a caret. Above the caret stands the
first character of what the finding points at. -/
def Diagnostic.Drawn (d : Diagnostic) (source : Source) : Prop :=
  ∃ front excerpt stem : String, IsLine source.contents.toList d.span.line excerpt.toList ∧
    (∀ c ∈ stem.toList, c = ' ' ∨ c = '|') ∧
    d.render source = s!"{front}\n{d.span.line} | {excerpt}\n{stem}^\n{d.kind}: {d.message}" ∧
    d.span.text source ≠ "" ∧
    (s!"{d.span.line} | {excerpt}").toList[stem.toList.length]? =
      (d.span.text source).toList.head?

/-- The finding points at the declaration with this name and body: at its name, or at the string
that it is deployed under. -/
structure Diagnostic.PointsAt (built : Build) (name : Ident) (body : Body) (d : Diagnostic) :
    Prop where
  declared : built.declarationAt? d.span.line = some name.name
  text : (d.code = "BCP179" ∧ d.span.text built.source = name.name) ∨
    d.code ∈ ["BCP121", "BCP122", "BCP169", "BCP170"] ∧ ∃ value,
      body.property? "name" = some value ∧ value.isString = true ∧ d.span = value.span ∧
      QuotedText (d.span.text built.source) value
  drawn : d.Drawn built.source

/-! ## Lines of declarations -/

theorem exists_mem_of_forall₂ {α β : Type} {R : α → β → Prop} {xs : List α} {ys : List β}
    (h : List.Forall₂ R xs ys) {x : α} (hx : x ∈ xs) : ∃ y ∈ ys, R x y := by
  induction h with
  | nil => cases hx
  | cons hxy _ ih =>
    rcases List.mem_cons.mp hx with rfl | hx
    · exact ⟨_, List.mem_cons_self, hxy⟩
    · obtain ⟨y, hy, h⟩ := ih hx
      exact ⟨y, List.mem_cons_of_mem _ hy, h⟩

namespace Extent

theorem Tile.lt_firstLine {first last : Nat} {es : List Extent} (h : Tile first es last)
    {e : Extent} (he : e ∈ es) : first < e.firstLine := by
  induction es generalizing first with
  | nil => cases he
  | cons e' es ih =>
    obtain ⟨hfirst, hle, hrest⟩ := h
    rcases List.mem_cons.mp he with rfl | he
    · omega
    · exact Nat.lt_of_le_of_lt hle (ih hrest he)

/-- A line lies in one extent only. -/
theorem Tile.find?_eq {first last line : Nat} {es : List Extent} (h : Tile first es last)
    {e : Extent} (he : e ∈ es) (hfirst : e.firstLine ≤ line) (hlast : line ≤ e.lastLine) :
    es.find? (fun e => e.firstLine ≤ line ∧ line ≤ e.lastLine) = some e := by
  induction es generalizing first with
  | nil => cases he
  | cons e' es ih =>
    rcases List.mem_cons.mp he with rfl | he
    · exact List.find?_cons_of_pos (decide_eq_true ⟨hfirst, hlast⟩)
    · have hbehind := h.2.2.lt_firstLine he
      rw [List.find?_cons_of_neg, ih h.2.2 he]
      simp only [decide_eq_true_eq]
      omega

end Extent

theorem Body.span_mem_shown {body : Body} {value : Expr} (h : body.property? "name" = some value)
    (hstring : value.isString = true) : value.span ∈ body.shown := by
  induction body with
  | object e =>
    cases e
    case object n ps =>
      obtain ⟨p, hp, rfl⟩ := Option.map_eq_some_iff.mp h
      have hkey : p.key = "name" := by simpa using List.find?_some hp
      refine List.mem_flatMap.mpr ⟨p, List.mem_of_find?_eq_some hp, ?_⟩
      rw [Property.shown, if_pos ⟨hkey, hstring⟩]
      exact List.mem_cons_self
    all_goals cases h
  | conditional span condition inner ih => exact ih h
  | loop head inner ih => exact ih h
  | error => cases h

/-! ## Messages -/

theorem toList_blanks (n : Nat) : ("".pushn ' ' n).toList = List.replicate n ' ' := by
  rw [String.pushn_eq_repeat_push]
  induction n with
  | zero => rfl
  | succ n ih => rw [Nat.repeat, String.toList_push, ih, List.replicate_succ']

/-- What stands before the caret under a line. -/
def caretStem (line column : Nat) : String :=
  "".pushn ' ' ((toString line).length + 1) ++ "| " ++ "".pushn ' ' (column - 1)

theorem toList_caretStem (line column : Nat) : (caretStem line column).toList =
    List.replicate ((toString line).length + 1) ' ' ++
      ('|' :: ' ' :: List.replicate (column - 1) ' ') := by
  rw [caretStem, String.toList_append, String.toList_append, toList_blanks, toList_blanks,
    List.append_assoc]
  rfl

/-- The caret stands as far to the right as the column in the line above. -/
theorem getElem?_above (line column : Nat) (excerpt : String) :
    (s!"{line} | {excerpt}").toList[(caretStem line column).toList.length]? =
      excerpt.toList[column - 1]? := by
  have habove : (s!"{line} | {excerpt}").toList =
      (toString line ++ " | ").toList ++ excerpt.toList := String.toList_append
  have hlength : (caretStem line column).toList.length =
      (toString line ++ " | ").toList.length + (column - 1) := by
    rw [toList_caretStem, String.toList_append, List.length_append, List.length_append,
      List.length_replicate, String.length_toList, List.length_cons, List.length_cons,
      List.length_replicate]
    show _ = (toString line).length + 3 + _
    omega
  rw [habove, hlength, List.getElem?_append_right (Nat.le_add_right _ _), Nat.add_sub_cancel_left]

/-- A place that is seen on its line is drawn there. -/
theorem Diagnostic.drawn_of_seen {d : Diagnostic} {source : Source} {w : List Char}
    (seen : d.span.Seen source.contents.toList) (covers : d.span.Covers source.contents.toList w)
    (hw : w ≠ []) : d.Drawn source := by
  obtain ⟨line, isLine, hhead⟩ := seen.exists_line covers hw
  have hline : source.line (d.span.line - 1) = .ofList line := isLine.line_eq
  obtain ⟨range, hrange, -⟩ := covers.exists_line
  have hvalid : ¬(d.span.line = 0 ∨ source.lines.length < d.span.line) := by
    have hlt := (List.getElem?_eq_some_iff.mp hrange).1
    have hpos := covers.one_le_line
    omega
  let margin := "".pushn ' ' ((toString d.span.line).length + 1)
  refine ⟨s!"\n--> {source.file}:{d.span.line}:{d.span.column}\n{margin}|", .ofList line,
    caretStem d.span.line d.span.column, ?_, ?_, ?_, ?_, ?_⟩
  · rwa [String.toList_ofList]
  · rw [toList_caretStem]
    intro c hc
    simp only [List.mem_append, List.mem_cons, List.mem_replicate] at hc
    rcases hc with ⟨-, hc⟩ | hc | hc | ⟨-, hc⟩
    · exact .inl hc
    · exact .inr hc
    · exact .inl hc
    · exact .inl hc
  · have hbar : "|\n" = "|" ++ "\n" := rfl
    have hstring (s : String) : toString s = s := rfl
    rw [render, Span.message, Source.message, if_neg hvalid, hline]
    simp only [hstring, hbar, String.append_assoc, margin, caretStem]
  · rw [covers.text_eq]
    intro hempty
    exact hw (String.ofList_injective hempty)
  · rw [covers.text_eq, String.toList_ofList, ← hhead, getElem?_above, String.toList_ofList]

/-! ## Programs -/

theorem map_eq_of_forall₂ {α β γ : Type} {R : α → β → Prop} {f : α → γ} {g : β → γ} {xs : List α}
    {ys : List β} (h : List.Forall₂ R xs ys) (hR : ∀ {x y}, R x y → g y = f x) :
    ys.map g = xs.map f := by
  induction h with
  | nil => rfl
  | cons hxy _ ih => rw [List.map_cons, List.map_cons, hR hxy, ih]

namespace Blueprint

variable {b : Blueprint} {built : Build}

/-- Whether all declarations with a body have a name that is not empty. -/
def named (b : Blueprint) : Bool :=
  b.resources.all (·.name ≠ "") && b.modules.all (·.name ≠ "")

theorem names_of_build (h : b.build = .ok built) : built.model.program.names =
    b.resources.map (·.name) ++ b.modules.map (·.name) := by
  have written := written_of_written (of_build h).written
  have hresources : built.model.program.resources.map (·.name.name) = b.resources.map (·.name) :=
    map_eq_of_forall₂ written.resources_forall₂ fun ⟨_, hspec⟩ => hspec.name
  have hmodules : built.model.program.modules.map (·.name.name) = b.modules.map (·.name) :=
    map_eq_of_forall₂ written.modules_forall₂ fun ⟨_, hspec⟩ => hspec.name
  rw [Program.names, hresources, hmodules]

theorem nodup_names_of_build (h : b.build = .ok built) : built.model.program.names.Nodup := by
  obtain ⟨nodup, -⟩ := firstRepeated?_eq_none_iff.mp (of_build h).distinct
  rw [names_of_build h]
  simp only [globals, List.map_append, List.map_map, Function.comp_def, List.map_id'] at nodup
  rw [List.append_assoc] at nodup
  exact (List.nodup_append.mp nodup).2.1

theorem ne_empty_of_named (hnamed : b.named = true) (h : b.build = .ok built) {name : String}
    (hname : name ∈ built.model.program.names) : name ≠ "" := by
  simp only [named, Bool.and_eq_true, List.all_eq_true, decide_eq_true_eq] at hnamed
  rw [names_of_build h] at hname
  rcases List.mem_append.mp hname with hname | hname
  · obtain ⟨spec, hspec, rfl⟩ := List.mem_map.mp hname
    exact hnamed.1 spec hspec
  · obtain ⟨spec, hspec, rfl⟩ := List.mem_map.mp hname
    exact hnamed.2 spec hspec

/-- The declarations of a program are found by their lines, and their names and deployed names are
seen there. -/
theorem seen_of_build (hline : b.oneLine = true) (h : b.build = .ok built) {name : Ident}
    {region : Region} (hdecl : (name, region) ∈ built.model.program.declarations) :
    Laid built.source.contents.toList StringText region ∧
      (∀ x : Region, x.PartOf region → built.declarationAt? x.span.line = some name.name) ∧
      ∀ s ∈ region.shown, s.Seen built.source.contents.toList := by
  obtain ⟨draft, htext, declares⟩ := declares_of_build hline h
  rw [← htext]
  refine ⟨declares.atLine.1.placed.laid region (List.mem_map_of_mem hdecl), fun x part => ?_,
    fun s hs => declares.atLine.1.seen s (List.mem_flatMap.mpr ⟨_, hdecl, hs⟩)⟩
  obtain ⟨e, he, extent⟩ := exists_mem_of_forall₂ declares.extents hdecl
  obtain ⟨hfirst, hlast⟩ := extent.lines x part
  rw [Build.declarationAt?, declares.tile.find?_eq he hfirst hlast]
  exact congrArg some extent.name

/-- What a check reports about a declaration, it points at there. -/
theorem pointsAt_of_reported (hline : b.oneLine = true) (h : b.build = .ok built) {name : Ident}
    {body : Body} {region : Region} (hdecl : (name, region) ∈ built.model.program.declarations)
    (hparts : region.parts = [name.region, .body body])
    (hshown : region.shown = name.span :: body.shown) (hname : name.name ≠ "")
    {key : Options.Key} {d : Diagnostic} (hcode : d.code ∈ key.codes)
    (reported : Model.Reported key name body d.span) : d.PointsAt built name body := by
  obtain ⟨laid, declared, seen⟩ := seen_of_build hline h hdecl
  rw [hshown, List.forall_mem_cons] at seen
  rcases reported with ⟨rfl, hspan⟩ | ⟨hkey, value, hvalue, hstring, hspan⟩
  · have part : name.region.PartOf region := .part (hparts ▸ List.mem_cons_self) (.self _)
    obtain ⟨covers, fits, -, -⟩ := laid.of_partOf part
    cases (show _ = name.name.toList from fits)
    rw [show name.region.span = d.span from hspan.symm] at covers
    have htext : d.span.text built.source = name.name :=
      covers.text_eq.trans String.ofList_toList
    refine ⟨hspan ▸ declared _ part, .inl ⟨List.mem_singleton.mp hcode, htext⟩, ?_⟩
    exact Diagnostic.drawn_of_seen (hspan ▸ seen.1) covers (mt String.toList_eq_nil_iff.mp hname)
  · have part : (Region.expr value).PartOf region :=
      .part (hparts ▸ List.mem_cons_of_mem _ List.mem_cons_self) (Body.partOf_of_property? hvalue)
    obtain ⟨covers, fits, -, -⟩ := laid.of_partOf part
    obtain ⟨hline, own⟩ := (show StringText _ value from fits) hstring
    obtain ⟨v, rfl⟩ := own.quoted hstring
    rw [show (Region.expr value).span = d.span from hspan.symm] at covers
    have hcodes : d.code ∈ ["BCP121", "BCP122", "BCP169", "BCP170"] := by
      cases key with
      | detectDuplicateNames => exact List.mem_append_left _ hcode
      | detectIncorrectlyFormattedNames => exact List.mem_append_right ["BCP121", "BCP122"] hcode
      | detectLoopInvariantProperties => exact absurd rfl hkey
    refine ⟨hspan ▸ declared _ part, .inr ⟨hcodes, value, hvalue, hstring, hspan, ?_⟩, ?_⟩
    · rw [covers.text_eq]
      exact ⟨⟨v, String.toList_ofList⟩, own.parse hline⟩
    · have hshown : value.span ∈ body.shown := Body.span_mem_shown hvalue hstring
      exact Diagnostic.drawn_of_seen (hspan ▸ seen.2 _ hshown) covers (List.cons_ne_nil _ _)

/-- Each finding is about a resource or a module, and points at it. No declaration gets two findings
of one family, and an existing resource gets those about the form of its name only. -/
theorem findings_pointsAt (hline : b.oneLine = true) (hnamed : b.named = true)
    (h : b.build = .ok built) :
    built.model.reports.map (·.2) = built.model.inspect.diagnostics ∧
    built.model.program.names.Nodup ∧
    (∀ p ∈ built.model.reports,
      (∃ r ∈ built.model.program.resources, p.1 = r.name.name ∧ p.2.PointsAt built r.name r.body ∧
        (r.existing = true → p.2.code ∈ ["BCP169", "BCP170"])) ∨
      ∃ d ∈ built.model.program.modules, p.1 = d.name.name ∧ p.2.PointsAt built d.name d.body) ∧
    ∀ family ∈ [["BCP121", "BCP122"], ["BCP169", "BCP170"], ["BCP179"]],
      ((built.model.reports.filter (·.2.code ∈ family)).map (·.1)).Nodup := by
  have nodup := nodup_names_of_build h
  refine ⟨built.model.map_snd_reports, nodup, fun p hp => ?_, fun family hfamily => ?_⟩
  · obtain ⟨key, -, hp⟩ := List.mem_flatMap.mp hp
    have hcode := Model.code_of_mem_reportsOf hp
    rcases Model.about_of_mem_reportsOf hp with
      ⟨r, hr, hname, reported, hexisting⟩ | ⟨d, hd, hname, reported⟩
    · have hdecl : (r.name, .resource r) ∈ built.model.program.declarations :=
        List.mem_append_left _ (List.mem_map.mpr ⟨r, hr, rfl⟩)
      have hmem : r.name.name ∈ built.model.program.names :=
        List.mem_append_left _ (List.mem_map.mpr ⟨r, hr, rfl⟩)
      have hne := ne_empty_of_named hnamed h hmem
      refine .inl ⟨r, hr, hname, pointsAt_of_reported hline h hdecl rfl rfl hne hcode reported, ?_⟩
      intro existing
      rw [hexisting existing] at hcode
      exact hcode
    · have hdecl : (d.name, .module d) ∈ built.model.program.declarations :=
        List.mem_append_right _ (List.mem_map.mpr ⟨d, hd, rfl⟩)
      have hmem : d.name.name ∈ built.model.program.names :=
        List.mem_append_right _ (List.mem_map.mpr ⟨d, hd, rfl⟩)
      have hne := ne_empty_of_named hnamed h hmem
      exact .inr ⟨d, hd, hname, pointsAt_of_reported hline h hdecl rfl rfl hne hcode reported⟩
  · obtain ⟨key, -, rfl⟩ : ∃ key ∈ Options.Key.all, key.codes = family := List.mem_map.mp hfamily
    rw [Model.filter_reports]
    exact Model.nodup_names_reportsOf nodup key

/-- An existing resource whose name stands in parentheses, behind a loop and a condition. -/
def misnamed : Blueprint where
  params := ["é"]
  resources := [{
    name := "hêtre"
    typeText := "Ns/oaks@1"
    existing := true
    loop := some { item := "x", index := some "i", collection := " ['ü', 2]" }
    condition := some "(i > 0)"
    properties := .ofList [("name", " ( 'à/é' )"), ("tags", "['é', i]")] }]
  modules := [{ name := "forêt", properties := .ofList [("name", "'é'")] }]

theorem findings_pointsAt_misnamed : ∃ (built : Build) (p : String × Diagnostic),
    misnamed.build = .ok built ∧ misnamed.oneLine = true ∧ misnamed.named = true ∧
    p ∈ built.model.reports ∧ p.1 = "hêtre" ∧ p.2.code = "BCP169" ∧ p.2.span.line = 3 ∧
    built.declarationAt? p.2.span.line = some p.1 ∧ p.2.Drawn built.source := by
  have hline : misnamed.oneLine = true := by decide +kernel
  have hnamed : misnamed.named = true := by decide +kernel
  have builds : misnamed.buildsWith (fun built =>
      (built.model.reportsOf .detectIncorrectlyFormattedNames).any fun p =>
        p.1 == "hêtre" && p.2.code == "BCP169" && p.2.span.line == 3) = true := by
    decide +kernel
  obtain ⟨built, h, htest⟩ := buildsWith_iff.mp builds
  obtain ⟨p, hp, htest⟩ := List.any_eq_true.mp htest
  simp only [Bool.and_eq_true, beq_iff_eq] at htest
  have reported : p ∈ built.model.reports :=
    List.mem_flatMap.mpr ⟨.detectIncorrectlyFormattedNames, by decide, hp⟩
  obtain ⟨-, -, point, -⟩ := findings_pointsAt hline hnamed h
  refine ⟨built, p, h, hline, hnamed, reported, htest.1.1, htest.1.2, htest.2, ?_⟩
  rcases point p reported with ⟨r, -, hname, hpoints, -⟩ | ⟨d, -, hname, hpoints⟩
  · exact ⟨hname ▸ hpoints.declared, hpoints.drawn⟩
  · exact ⟨hname ▸ hpoints.declared, hpoints.drawn⟩

end Blueprint

end Preflight
