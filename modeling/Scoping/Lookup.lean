import Scoping.Visibility

/-!
Name lookup as callers ask for it. Lookups that are to be composed can share
the scopes they have been in; a lookup on its own starts with none.
-/

namespace Scoping.Program

/-- What a name means in a scope, after what it means in the receiver's scope
if there is a receiver. Scopes that were entered before are skipped. -/
def lookupSharing (program : Program) (config : LookupConfig) (receiver : Option ScopeId)
    (scope : ScopeId) (name : Name) : Search (List Overloads) := do
  let search := fun start => program.search program.clausesOf config start name
  match receiver with
  | some receiver =>
    let found ← search receiver
    return found ++ (← search scope)
  | none => search scope

/-- What a name means in a scope. To find nothing is a normal outcome. -/
def lookup (program : Program) (config : LookupConfig) (receiver : Option ScopeId)
    (scope : ScopeId) (name : Name) : Resolve (List Overloads) :=
  (program.lookupSharing config receiver scope name).run' []

/-- The nearest declaration of a name, and whether its level holds others. -/
def innermost (program : Program) (scope : ScopeId) (name : Name) :
    Resolve InnermostMatch := do
  match (← get).innermost.get? (scope, name) with
  | some known => return known
  | none =>
    let config := { LookupConfig.allVisible with innermost := true }
    let result := InnermostMatch.ofSets (← program.lookup config none scope name)
    modify fun context =>
      { context with innermost := context.innermost.finish (scope, name) result }
    return result

end Scoping.Program
