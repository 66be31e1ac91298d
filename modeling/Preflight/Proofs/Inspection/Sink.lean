import Mathlib.Data.List.Basic
import Preflight.Proofs.Check.Codes

/-! # Inspections that write to a sink

An inspection told finding by finding: every part writes at the end of one sink. What a part writes
does not depend on what it finds there, so the parts can be told apart by what each writes alone. -/

namespace Preflight
set_option autoImplicit false

namespace Options

def isOn (options : Options) : Key → Bool
  | .detectDuplicateNames => options.detectDuplicateNames
  | .detectIncorrectlyFormattedNames => options.detectIncorrectlyFormattedNames
  | .detectLoopInvariantProperties => options.detectLoopInvariantProperties

/-- The checks that are on, in the order in which they run. -/
def keys (options : Options) : List Key := Key.all.filter options.isOn

/-- The codes of the findings that a check can make. -/
def Key.codes : Key → List String
  | .detectDuplicateNames => ["BCP121", "BCP122"]
  | .detectIncorrectlyFormattedNames => ["BCP169", "BCP170"]
  | .detectLoopInvariantProperties => ["BCP179"]

theorem Key.codes_disjoint {key other : Key} (h : key ≠ other) :
    ∀ code ∈ key.codes, code ∉ other.codes := by
  cases key <;> cases other <;> simp_all [codes]

end Options

abbrev Sink := StateM (List Diagnostic)

namespace Sink

variable {α β : Type}

def write (d : Diagnostic) : Sink Unit := modify (· ++ [d])

/-- What a part leaves in an empty sink. -/
def written (p : Sink Unit) : List Diagnostic := (p.run []).2

/-- Every member of a group of two or more is written about. -/
def groups [BEq α] [Hashable α] (items : List α) (report : List α → α → Diagnostic) : Sink Unit :=
  (Grouping.ofList items).duplicates.forM fun group => group.forM fun x => write (report group x)

/-- Items are looked at one by one. -/
def each (items : List α) (finding? : α → Option Diagnostic) : Sink Unit :=
  items.forM fun x => (finding? x).forM write

def check (m : Model) (resourceScopes moduleScopes : Scopes) : Options.Key → Sink Unit
  | .detectDuplicateNames => do
    groups (m.resourceIdentities resourceScopes) fun group i =>
      .duplicateResources i.nameValue.span (group.map (·.name))
    groups (m.moduleIdentities moduleScopes) fun group i =>
      .duplicateModules i.nameValue.span (group.map (·.name))
  | .detectIncorrectlyFormattedNames => each m.program.resources m.qualifierFinding?
  | .detectLoopInvariantProperties => do
    each (m.program.resources.filter (!·.existing)) fun r =>
      VariationRule.resource.finding? m.symbols r.name r.type r.body
    each m.program.modules fun d =>
      VariationRule.module.finding? m.symbols d.name d.type d.body

def scopes (resolved : Scopes × List Diagnostic) : Sink Scopes := do
  resolved.2.forM write
  return resolved.1

/-- A check from outside writes what it finds. One that is not supplied writes nothing. -/
def external (check? : Option ExternalCheck) (m : Model) : Sink Unit :=
  check?.forM fun check => (check m).forM write

/-- Returns the resolved scopes of modules and resources. -/
def inspection (i : Inspection) (m : Model) : Sink (Scopes × Scopes) := do
  let moduleScopes ← scopes (i.resolver.moduleScopes m)
  let resourceScopes ← scopes (i.resolver.resourceScopes m)
  external i.deployTimeConstants m
  external i.forSyntax m
  i.options.keys.forM (check m resourceScopes moduleScopes)
  return (moduleScopes, resourceScopes)

/-- Whatever is in the sink, `p` returns `a` and adds `found` at the end. -/
def Appends (p : Sink α) (a : α) (found : List Diagnostic) : Prop :=
  ∀ before, p.run before = (a, before ++ found)

namespace Appends

variable {found found' : List Diagnostic}

theorem pure (a : α) : Appends (pure a) a [] := by
  intro before
  rw [List.append_nil]
  rfl

theorem write (d : Diagnostic) : Appends (write d) () [d] := fun _ => rfl

theorem bind {p : Sink α} {q : α → Sink β} {a : α} {b : β} (hp : Appends p a found)
    (hq : Appends (q a) b found') : Appends (p >>= q) b (found ++ found') := by
  intro before
  rw [StateT.run_bind, hp before, ← List.append_assoc]
  exact hq _

theorem forM {f : α → Sink Unit} {found : α → List Diagnostic}
    (step : ∀ x, Appends (f x) () (found x)) (xs : List α) :
    Appends (xs.forM f) () (xs.flatMap found) := by
  induction xs with
  | nil => exact pure ()
  | cons x xs ih =>
    rw [List.flatMap_cons]
    exact (step x).bind ih

theorem written {p : Sink Unit} (h : Appends p () found) : p.written = found := by
  rw [Sink.written, h [], List.nil_append]

end Appends

theorem appends_findings (found : List Diagnostic) : Appends (found.forM write) () found := by
  have h := Appends.forM Appends.write found
  rwa [List.flatMap_singleton'] at h

theorem appends_external (check? : Option ExternalCheck) (m : Model) :
    Appends (external check? m) () ((check?.map (· m)).getD []) := by
  cases check? with
  | none => exact .pure ()
  | some check => exact appends_findings (check m)

theorem appends_groups [BEq α] [Hashable α] (items : List α) (report : List α → α → Diagnostic) :
    Appends (groups items report) () (reportDuplicates items report) := by
  refine .forM (fun group => ?_) _
  have h := Appends.forM (fun x => Appends.write (report group x)) group
  rwa [← List.map_eq_flatMap] at h

theorem appends_each (items : List α) (finding? : α → Option Diagnostic) :
    Appends (each items finding?) () (items.filterMap finding?) := by
  have step (x : α) : Appends ((finding? x).forM write) () (finding? x).toList := by
    cases finding? x with
    | none => exact .pure ()
    | some d => exact .write d
  rw [List.filterMap_eq_flatMap_toList]
  exact .forM step items

/-- What the check writes, told as a whole. -/
def found (m : Model) (resourceScopes moduleScopes : Scopes) : Options.Key → List Diagnostic
  | .detectDuplicateNames => m.duplicateNames resourceScopes moduleScopes
  | .detectIncorrectlyFormattedNames => m.incorrectQualifiers
  | .detectLoopInvariantProperties => m.resourceLoopInvariants ++ m.moduleLoopInvariants

theorem appends_check (m : Model) (resourceScopes moduleScopes : Scopes) (key : Options.Key) :
    Appends (check m resourceScopes moduleScopes key) ()
      (found m resourceScopes moduleScopes key) := by
  cases key with
  | detectDuplicateNames => exact (appends_groups _ _).bind (appends_groups _ _)
  | detectIncorrectlyFormattedNames => exact appends_each _ _
  | detectLoopInvariantProperties => exact (appends_each _ _).bind (appends_each _ _)

theorem appends_scopes (resolved : Scopes × List Diagnostic) :
    Appends (scopes resolved) resolved.1 resolved.2 := by
  have h : Appends (scopes resolved) resolved.1 (resolved.2 ++ []) :=
    (appends_findings resolved.2).bind (.pure resolved.1)
  rwa [List.append_nil] at h

theorem stamped_found (m : Model) (resourceScopes moduleScopes : Scopes) (key : Options.Key) :
    ∃ level, Stamped key.codes level (found m resourceScopes moduleScopes key) := by
  cases key with
  | detectDuplicateNames => exact ⟨.error, m.stamped_duplicateNames _ _⟩
  | detectIncorrectlyFormattedNames => exact ⟨.error, m.stamped_incorrectQualifiers⟩
  | detectLoopInvariantProperties => exact ⟨.warning, m.stamped_loopInvariants⟩

end Sink

namespace Inspection

theorem builtIn_eq (options : Options) (m : Model) (resourceScopes moduleScopes : Scopes) :
    builtIn options m resourceScopes moduleScopes =
      options.keys.flatMap (Sink.found m resourceScopes moduleScopes) := by
  rcases options with ⟨_ | _, _ | _, _ | _⟩ <;>
    simp [builtIn, Options.keys, Options.Key.all, List.filter_cons, Options.isOn, Sink.found]

theorem runExternal_eq (check? : Option ExternalCheck) (m : Model) :
    runExternal check? m = (check?.map (· m)).getD [] := by
  cases check? with
  | none => rfl
  | some check => rfl

theorem diagnostics_run (i : Inspection) (m : Model) :
    (i.run m).diagnostics =
      (i.resolver.moduleScopes m).2 ++ (i.resolver.resourceScopes m).2 ++
        (i.deployTimeConstants.map (· m)).getD [] ++ (i.forSyntax.map (· m)).getD [] ++
        builtIn i.options m (i.resolver.resourceScopes m).1 (i.resolver.moduleScopes m).1 := by
  rw [← runExternal_eq, ← runExternal_eq]
  rfl

/-- The report is what is written to the sink, after what was in it before. -/
theorem appends_inspection (i : Inspection) (m : Model) :
    Sink.Appends (Sink.inspection i m) ((i.run m).moduleScopes, (i.run m).resourceScopes)
      (i.run m).diagnostics := by
  change Sink.Appends _ ((i.resolver.moduleScopes m).1, (i.resolver.resourceScopes m).1) _
  have all : Sink.Appends (Sink.inspection i m)
      ((i.resolver.moduleScopes m).1, (i.resolver.resourceScopes m).1) _ :=
    (Sink.appends_scopes _).bind <| (Sink.appends_scopes _).bind <|
      (Sink.appends_external _ m).bind <| (Sink.appends_external _ m).bind <|
        (Sink.Appends.forM (Sink.appends_check m _ _) i.options.keys).bind (.pure _)
  rw [diagnostics_run]
  simpa only [← builtIn_eq, List.append_assoc, List.append_nil] using all

end Inspection

namespace Model

theorem findings_eq_flatMap (m : Model) (options : Options) :
    m.findings options =
      options.keys.flatMap (Sink.found m m.resourceScopes m.moduleScopes) := by
  rw [← Inspection.builtIn_eq]
  exact Inspection.diagnostics_run _ _

/-- No two checks share a code, so the findings of each can be told by their codes. -/
theorem filter_found (m : Model) (resourceScopes moduleScopes : Scopes) (keys : List Options.Key)
    (key : Options.Key) :
    (Sink.found m resourceScopes moduleScopes key).filter
        (·.code ∈ keys.flatMap Options.Key.codes) =
      if key ∈ keys then Sink.found m resourceScopes moduleScopes key else [] := by
  obtain ⟨level, stamped⟩ := Sink.stamped_found m resourceScopes moduleScopes key
  split
  next hkey =>
    exact stamped.filter_eq_self fun code hcode => List.mem_flatMap.mpr ⟨key, hkey, hcode⟩
  next hkey =>
    refine stamped.filter_eq_nil fun code hcode hshared => ?_
    obtain ⟨other, hother, hcode'⟩ := List.mem_flatMap.mp hshared
    have hne : key ≠ other := fun hsame => hkey (hsame ▸ hother)
    exact Options.Key.codes_disjoint hne code hcode hcode'

theorem flatMap_filter {α β : Type} (p : α → Bool) (f : α → List β) (xs : List α) :
    (xs.filter p).flatMap f = xs.flatMap fun x => if p x then f x else [] := by
  induction xs with
  | nil => rfl
  | cons x xs ih => cases h : p x <;> simp [h, ih]

theorem findings_eq_filter (m : Model) (options : Options) :
    m.findings options =
      (m.findings {}).filter (·.code ∈ options.keys.flatMap Options.Key.codes) := by
  have hall : ({} : Options).keys = Options.Key.all := rfl
  rw [findings_eq_flatMap, findings_eq_flatMap, List.filter_flatMap, hall, Options.keys,
    flatMap_filter]
  refine List.flatMap_congr fun key hkey => ?_
  rw [filter_found]
  simp [hkey]

theorem isError_iff_of_mem_findings {m : Model} {options : Options} {d : Diagnostic}
    (hd : d ∈ m.findings options) :
    d.isError = true ↔ d.code ∈ ["BCP121", "BCP122", "BCP169", "BCP170"] := by
  rw [findings_eq_flatMap] at hd
  obtain ⟨key, -, hd⟩ := List.mem_flatMap.mp hd
  rw [Diagnostic.isError]
  cases key with
  | detectDuplicateNames =>
    obtain ⟨hcode, hlevel⟩ := m.stamped_duplicateNames _ _ d hd
    rw [hlevel]
    exact iff_of_true rfl (List.mem_append_left ["BCP169", "BCP170"] hcode)
  | detectIncorrectlyFormattedNames =>
    obtain ⟨hcode, hlevel⟩ := m.stamped_incorrectQualifiers d hd
    rw [hlevel]
    exact iff_of_true rfl (List.mem_append_right ["BCP121", "BCP122"] hcode)
  | detectLoopInvariantProperties =>
    obtain ⟨hcode, hlevel⟩ := m.stamped_loopInvariants d hd
    rw [hlevel, List.mem_singleton.mp hcode]
    exact iff_of_false (by decide) (by decide)

end Model

/-- An inspection writes part by part, each part as it would alone, and turning a check off takes
away the findings with its codes. -/
theorem Inspection.run_by_parts :
    (∀ (i : Inspection) (m : Model),
      (i.run m).moduleScopes = (i.resolver.moduleScopes m).1 ∧
      (i.run m).resourceScopes = (i.resolver.resourceScopes m).1 ∧
      (∀ before, (Sink.inspection i m).run before =
        (((i.run m).moduleScopes, (i.run m).resourceScopes), before ++ (i.run m).diagnostics)) ∧
      (i.run m).diagnostics =
        (i.resolver.moduleScopes m).2 ++ (i.resolver.resourceScopes m).2 ++
        (i.deployTimeConstants.map (· m)).getD [] ++ (i.forSyntax.map (· m)).getD [] ++
        i.options.keys.flatMap fun key =>
          (Sink.check m (i.run m).resourceScopes (i.run m).moduleScopes key).written) ∧
    (∀ (m : Model) (own own' resourceScopes moduleScopes : Scopes) (key : Options.Key),
      (Sink.check { m with resourceScopes := own, moduleScopes := own' } resourceScopes
        moduleScopes key).written = (Sink.check m resourceScopes moduleScopes key).written) ∧
    (∀ (m : Model) (options : Options),
      (({ options } : Inspection).run m).diagnostics =
        m.inspect.diagnostics.filter (·.code ∈ options.keys.flatMap Options.Key.codes) ∧
      ((({ options } : Inspection).run m).hasErrors = true ↔
        ∃ d ∈ (({ options } : Inspection).run m).diagnostics,
          d.code ∈ ["BCP121", "BCP122", "BCP169", "BCP170"])) := by
  refine ⟨fun i m => ⟨rfl, rfl, appends_inspection i m, ?_⟩, ?_, fun m options => ⟨?_, ?_⟩⟩
  · have hwritten : (fun key => (Sink.check m (i.run m).resourceScopes
        (i.run m).moduleScopes key).written) = Sink.found m _ _ :=
      funext fun key => (Sink.appends_check m _ _ key).written
    rw [diagnostics_run, hwritten, ← builtIn_eq]
    rfl
  · intro m own own' resourceScopes moduleScopes key
    rw [(Sink.appends_check _ _ _ key).written, (Sink.appends_check _ _ _ key).written]
    cases key <;> rfl
  · exact m.findings_eq_filter options
  · rw [Report.hasErrors, List.any_eq_true]
    exact exists_congr fun d => and_congr_right Model.isError_iff_of_mem_findings

end Preflight
