import Scoping.Lookup.Search
import Scoping.Visibility.Resolve

/-!
The clauses of each scope, worked out when they are first asked for. Resolving
a statement takes a search, and that search may come back through the scope
being resolved: it then sees the clauses found so far, while scopes whose
resolution waits further out show none.
-/

namespace Scoping.Program

/-- The clauses of a scope; `none` when it has no statements, or while they are
being resolved. `inner` gives the clauses of the scopes that a search comes
through on the way. -/
def resolveOnce (program : Program) (inner : ScopeId → Resolve (Option (List Clause)))
    (id : ScopeId) : Resolve (Option (List Clause)) := do
  unless (← Resolve.scope id).hasImports do return none
  match (← get).visibility.progress? id with
  | some .running => return none
  | some (.done clauses) => return some clauses
  | none =>
    modify fun context => { context with visibility := context.visibility.begin id }
    let view := fun clauses other =>
      if other = id then pure clauses else return (← inner other).getD []
    let find := fun clauses config scope name =>
      (program.search (view clauses) config scope name).run' []
    let clauses ← program.resolveStatements find id
    modify fun context => { context with visibility := context.visibility.finish id clauses }
    return some clauses

/-- The clauses of a scope, with resolutions nested at most `fuel` deep. Each
level has marked one more scope as running, so `fuel` need not exceed the number
of scopes by more than one. -/
def resolveVisibility (program : Program) : Nat → ScopeId → Resolve (Option (List Clause))
  | 0, _ => failure
  | fuel + 1, id => program.resolveOnce (program.resolveVisibility fuel) id

/-- The clauses of a scope, if it has statements. -/
def visibility (program : Program) (id : ScopeId) : Resolve (Option (List Clause)) :=
  program.resolveVisibility program.depth id

/-- The clauses of a scope, none when it has no statements. -/
def clausesOf (program : Program) (id : ScopeId) : Resolve (List Clause) :=
  return (← program.visibility id).getD []

/-- Climbs from `start` until it meets `goal`, trying on the way every scope whose
contents are used as a whole. No climb starts twice from one scope. -/
def climbTo (program : Program) (goal : ScopeId) : Nat → ScopeId → Search Bool
  | 0, _ => failure
  | fuel + 1, start => do
    if (← get).contains start then return false
    modify (start :: ·)
    ((← getThe Context).outward start).anyM fun id => do
      if id = goal then return true
      let used := (← program.clausesOf id).filter fun clause => clause.kind = .allContents
      used.anyM fun clause => program.climbTo goal fuel clause.target

/-- Whether every declaration of `goal` is visible from `start` through the
scopes around it and unrestricted `use` alone. -/
def seesWhole (program : Program) (goal start : ScopeId) : Resolve Bool :=
  (program.climbTo goal program.depth start).run' []

end Scoping.Program
