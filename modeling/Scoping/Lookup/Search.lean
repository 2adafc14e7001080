import Scoping.Context.ScopeOf
import Scoping.Lookup.Config

/-!
The search for a name. A search goes along four axes, in this order: the
declarations of the scope, what clauses bring in, the scopes around it, and the
top-level modules. It remembers the scopes it has been in and enters none
twice, so cycles of `use` end. How the clauses of a scope are found is left to
the caller, because resolving them is itself a search.
-/

namespace Scoping

/-- A search knows the scopes that it has entered. -/
abbrev Search (α : Type) := StateT (List ScopeId) (StateT Context Option) α

/-- How a search sees the clauses of a scope. -/
abbrev ClauseView := ScopeId → Resolve (List Clause)

/-- The scopes that a lookup from inside `ids` sees around it: out to the first
module scope, and no further. -/
def Context.upToModule (context : Context) : List ScopeId → List ScopeId
  | [] => []
  | id :: rest => if (context.scope id).isModule then [id] else id :: context.upToModule rest

/-- The scopes around a scope that a lookup climbs to: out to the nearest
module, then the root, even past a module boundary. -/
def Context.climb (context : Context) (id : ScopeId) : List ScopeId :=
  let enclosing := (context.scope id).enclosing
  context.upToModule enclosing ++ enclosing.getLast?.toList

namespace Search

/-- Enters a scope, unless the search has been there before. -/
def enter (id : ScopeId) (inside : Search (List Overloads)) : Search (List Overloads) := do
  if (← get).contains id then return []
  modify (id :: ·)
  inside

/-- Joins what several sources find, in order. With `innermost` the first source
that finds anything is the last one asked. -/
def collect (innermost : Bool) : List (Search (List Overloads)) → Search (List Overloads)
  | [] => return []
  | source :: rest => do
    let found ← source
    if innermost && !found.isEmpty then return found
    return found ++ (← collect innermost rest)

/-- A source that is asked only under a condition. -/
def gate (condition : Bool) (source : Search (List Overloads)) : Search (List Overloads) :=
  if condition then source else return []

/-- What a scope declares itself. -/
def declarations (id : ScopeId) (name : Name) : Search (List Overloads) :=
  return (← Resolve.scope id).lookup name

/-- Follows a name through clauses. A clause for which the name is the target's
own ends the search among them; the first result tells whether one did. -/
def throughClauses (innermost : Bool) (contents : ScopeId → Name → Search (List Overloads))
    (name : Name) : List Clause → Search (Bool × List Overloads)
  | [] => return (false, [])
  | clause :: rest =>
    match clause.route name with
    | .blocked => throughClauses innermost contents name rest
    | .symbol => do
      match (← Resolve.scope clause.target).owner with
      | some owner => return (true, [.single (.node owner)])
      | none => throughClauses innermost contents name rest
    | .contents actual => do
      let found ← contents clause.target actual
      if innermost && !found.isEmpty then return (true, found)
      let (closed, more) ← throughClauses innermost contents name rest
      return (closed, found ++ more)

end Search

namespace Program

/-- What is brought into a scope: through its clauses, and then through the
automatic module where that is visible. -/
def searchImports (program : Program) (view : ClauseView) (innermost : Bool)
    (contents : ScopeId → Name → Search (List Overloads)) (id : ScopeId) (name : Name) :
    Search (List Overloads) := do
  let (closed, found) ← Search.throughClauses innermost contents name (← view id)
  if closed then return found
  unless (← Resolve.scope id).autoUses do return found
  match ← program.autoScope with
  | some auto => return found ++ (← contents auto name)
  | none => return found

/-- What one scope yields: its declarations, then what is brought into it. Each
level further in has entered one more scope, so `fuel` need not exceed their
number. -/
def searchLevel (program : Program) (view : ClauseView) (innermost : Bool) :
    Nat → Bool → Bool → ScopeId → Name → Search (List Overloads)
  | 0, _, _, _, _ => failure
  | fuel + 1, decls, imports, id, name =>
    let contents := fun target actual =>
      Search.enter target (program.searchLevel view innermost fuel true true target actual)
    Search.collect innermost
      [Search.gate decls (Search.declarations id name),
        Search.gate imports (program.searchImports view innermost contents id name)]

/-- The top-level module of a name. -/
def searchToplevel (program : Program) (name : Name) : Search (List Overloads) :=
  match program.tree.toplevel? name with
  | some id => return [.single (.node id)]
  | none => return []

/-- What a name means in a scope. -/
def search (program : Program) (view : ClauseView) (config : LookupConfig) (id : ScopeId)
    (name : Name) : Search (List Overloads) :=
  Search.enter id do
    let level := program.searchLevel view config.innermost program.depth
    let context ← getThe Context
    let around := if config.parents then context.climb id else []
    Search.collect config.innermost <|
      [level config.decls config.imports id name] ++
      (around.map fun outer => Search.enter outer (level true config.imports outer name)) ++
      [Search.gate config.toplevel (program.searchToplevel name)]

end Program

end Scoping
