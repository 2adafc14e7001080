import Scoping.Visibility

/-!
Points of instantiation. A call inside generic code is resolved in the code's
own scope and where the code was instantiated, and so on along a chain of call
sites. Links that can add no candidate are left out, so that equal chains get
equal handles.
-/

namespace Scoping.Program

/-- The nearest scope, at or above the call site, that offers candidates. -/
def candidateScope? (context : Context) (scope : ScopeId) : Option ScopeId :=
  (context.outward scope).find? fun id => (context.scope id).offersCandidates

/-- The links left of a chain once those in front that are wholly visible from
`scope` are dropped. -/
def dropVisible (program : Program) (scope : ScopeId) : List PoiId → Resolve (List PoiId)
  | [] => return []
  | link :: rest => do
    match ((← get).poi link).site with
    | none => return link :: rest
    | some site =>
      if ← program.seesWhole site scope then program.dropVisible scope rest
      else return link :: rest

/-- The link with the given site and links behind it, built once. -/
def buildPoi (site : Option ScopeId) (behind : List PoiId) : Resolve PoiId := do
  match (← get).builtPois.get? (site, behind.head?) with
  | some link => return link
  | none =>
    let link ← Resolve.addPoi ⟨site, behind⟩
    modify fun context =>
      { context with builtPois := context.builtPois.finish (site, behind.head?) link }
    return link

/-- The instantiation point for a call from `scope`, in code that was itself
instantiated from `outer`. -/
def instantiationPoint (program : Program) (scope : ScopeId) (outer : Option PoiId) :
    Resolve PoiId := do
  let context ← get
  match context.poiOf.get? (scope, outer) with
  | some link => return link
  | none =>
    let chain := outer.elim [] fun link => link :: (context.poi link).behind
    let behind ← program.dropVisible scope chain
    let link ← buildPoi (candidateScope? context scope) behind
    modify fun context => { context with poiOf := context.poiOf.finish (scope, outer) link }
    return link

end Scoping.Program
