import Preflight.Check.LoopVariation
import Preflight.Check.QualifiedName
import Preflight.Check.SharedIdentity
import Preflight.Options

/-! # Inspections

An inspection resolves the scopes of a program, runs the checks in a fixed order, and never fails.
No check suppresses another. -/

namespace Preflight
set_option autoImplicit false

abbrev ExternalCheck := Model → List Diagnostic

/-- Finds the scope of every resource and module, and reports what it cannot resolve. -/
structure ScopeResolver where
  moduleScopes : Model → Scopes × List Diagnostic
  resourceScopes : Model → Scopes × List Diagnostic

def ScopeResolver.precomputed : ScopeResolver where
  moduleScopes m := (m.moduleScopes, [])
  resourceScopes m := (m.resourceScopes, [])

structure Inspection where
  options : Options := {}
  resolver : ScopeResolver := .precomputed
  deployTimeConstants : Option ExternalCheck := none
  forSyntax : Option ExternalCheck := none

structure Report where
  diagnostics : List Diagnostic
  moduleScopes : Scopes
  resourceScopes : Scopes

def Report.hasErrors (r : Report) : Bool := r.diagnostics.any Diagnostic.isError

namespace Inspection

def runExternal (check : Option ExternalCheck) (m : Model) : List Diagnostic :=
  match check with
  | none => []
  | some check => check m

/-- The checks of this library that the options leave on, over the given scopes. -/
def builtIn (options : Options) (m : Model) (resourceScopes moduleScopes : Scopes) :
    List Diagnostic :=
  (if options.detectDuplicateNames then m.duplicateNames resourceScopes moduleScopes else []) ++
  (if options.detectIncorrectlyFormattedNames then m.incorrectQualifiers else []) ++
  (if options.detectLoopInvariantProperties then
    m.resourceLoopInvariants ++ m.moduleLoopInvariants else [])

def run (i : Inspection) (m : Model) : Report :=
  let (moduleScopes, moduleDiagnostics) := i.resolver.moduleScopes m
  let (resourceScopes, resourceDiagnostics) := i.resolver.resourceScopes m
  { diagnostics := moduleDiagnostics ++ resourceDiagnostics ++
      runExternal i.deployTimeConstants m ++ runExternal i.forSyntax m ++
      builtIn i.options m resourceScopes moduleScopes
    moduleScopes
    resourceScopes }

end Inspection

/-- All checks of this library, over the scopes of the model. -/
def Model.inspect (m : Model) : Report := ({} : Inspection).run m

end Preflight
