import Scoping.Visibility.Target

/-!
Turning the `use` and `import` statements of a scope into clauses. The clauses
of one scope are worked out in source order, each in view of those before it. A
clause that cannot be resolved is reported and contributes nothing; the others
are unaffected.
-/

namespace Scoping.Program

/-- Splits a rename off the symbol of a clause: the expression to resolve, and
the new name if there is one. A new name that is no identifier is reported. -/
def splitRename (program : Program) (symbol : NodeId) :
    Resolve (Option (NodeId × Option Name)) := do
  match program.tree.kind? symbol with
  | some (.rename inner renamed) =>
    match program.tree.identifier? renamed with
    | some newName => return some (inner, some newName)
    | none =>
      Resolve.report (.unsupported symbol "this form of as is not yet supported")
      return none
  | _ => return some (symbol, none)

/-- Reports a name that does not exist in the target. -/
def checkName (program : Program) (find : Finder) (stmt : Statement) (target : ScopeId)
    (name : Name) (site : NodeId) : Resolve Unit := do
  if (← find .member target name).isEmpty then
    Resolve.report (.limitationNotFound site (program.tree.names.display name) stmt)

/-- The name that an entry of a list takes from the target, with the node that
spells it. -/
def listedName? (program : Program) (entry : NodeId) : Option (NodeId × Name) :=
  match program.tree.kind? entry with
  | some (.identifier name) => some (entry, name)
  | some (.rename symbol _) => (program.tree.identifier? symbol).map (symbol, ·)
  | _ => none

/-- Reports the listed names that do not exist in the target. -/
def checkListed (program : Program) (find : Finder) (stmt : Statement) (target : ScopeId) :
    List NodeId → Resolve Unit
  | [] => return ()
  | entry :: rest => do
    match program.listedName? entry with
    | some (site, name) => program.checkName find stmt target name site
    | none => pure ()
    program.checkListed find stmt target rest

/-- The pair of names that an entry of a list stands for: `a` or `a as b`. Any
other entry is reported and stands for nothing. -/
def listedPair (program : Program) (entry : NodeId) : Resolve (List (Name × Name)) := do
  match program.tree.kind? entry with
  | some (.identifier name) => return [(name, name)]
  | some (.dot ..) =>
    Resolve.report (.unsupported entry "dot expression not supported here")
    return []
  | some (.rename symbol renamed) =>
    match program.tree.identifier? symbol, program.tree.identifier? renamed with
    | none, _ =>
      Resolve.report (.unsupported symbol "expression type not supported for 'as'")
      return []
    | some _, none =>
      Resolve.report (.unsupported renamed "this form of as is not yet supported")
      return []
    | some name, some newName => return [(name, newName)]
  | _ =>
    Resolve.report (.unsupported entry "expression type not supported here")
    return []

/-- The pairs of names that a list stands for. -/
def listedPairs (program : Program) : List NodeId → Resolve (List (Name × Name))
  | [] => return []
  | entry :: rest => do
    let pair ← program.listedPair entry
    return pair ++ (← program.listedPairs rest)

/-- Reports the renames in the list of an `except`. -/
def refuseRenames (program : Program) : List NodeId → Resolve Unit
  | [] => return ()
  | entry :: rest => do
    if program.tree.tag? entry = some .rename then
      Resolve.report (.unsupported entry "'as' cannot be used with 'except'")
    program.refuseRenames rest

/-- The clauses of one clause of a `use`: the name of the target itself, and
what its limitation leaves of the contents. -/
def useClauses (program : Program) (find : List Clause → Finder) (scope : ScopeId)
    (isPrivate : Bool) (before : List Clause) (site symbol : NodeId) (limitation : Limitation)
    (limitations : List NodeId) : Resolve (List Clause) := do
  if limitation = .braces then
    Resolve.report (.unsupported site "a brace list cannot be used with 'use'")
    return []
  let some (expr, newName) ← program.splitRename symbol | return []
  let some (target, name) ← program.resolvePath (find before) .use scope expr | return []
  let itself : Clause := ⟨target, .symbolOnly, isPrivate, [(name, newName.getD name)]⟩
  match limitation with
  | .except =>
    program.refuseRenames limitations
    let names ← program.listedPairs limitations
    return [itself, ⟨target, .contentsExcept, isPrivate, names⟩]
  | .only =>
    program.checkListed (find (before ++ [itself])) .use target limitations
    let names ← program.listedPairs limitations
    return [itself, ⟨target, .onlyContents, isPrivate, names⟩]
  | .unlimited | .braces => return [itself, ⟨target, .allContents, isPrivate, []⟩]

/-- The path of an `import` without list, and the field taken from it.
`import M.f` takes every overload of `f`, so its last field is not resolved to a
single declaration. -/
def splitField (program : Program) (limitation : Limitation) (expr : NodeId) :
    NodeId × Option Name :=
  match limitation, program.tree.kind? expr with
  | .braces, _ => (expr, none)
  | _, some (.dot receiver field) => (receiver, some field)
  | _, _ => (expr, none)

/-- The clause of one clause of an `import`. -/
def importClauses (program : Program) (find : List Clause → Finder) (scope : ScopeId)
    (isPrivate : Bool) (before : List Clause) (site symbol : NodeId) (limitation : Limitation)
    (limitations : List NodeId) : Resolve (List Clause) := do
  if limitation = .except ∨ limitation = .only then
    Resolve.report (.unsupported site "'except' and 'only' cannot be used with 'import'")
    return []
  let some (expr, newName) ← program.splitRename symbol | return []
  let (expr, field?) := program.splitField limitation expr
  let some (target, name) ← program.resolvePath (find before) .imports scope expr | return []
  match limitation, field? with
  | .braces, _ =>
    program.checkListed (find before) .imports target limitations
    let names ← program.listedPairs limitations
    return [⟨target, .onlyContents, isPrivate, names⟩]
  | _, some field =>
    program.checkName (find before) .imports target field site
    return [⟨target, .onlyContents, isPrivate, [(field, newName.getD field)]⟩]
  | _, none => return [⟨target, .symbolOnly, isPrivate, [(name, newName.getD name)]⟩]

/-- Adds the clauses that one child of a statement contributes. -/
def addClause (program : Program) (find : List Clause → Finder) (stmt : Statement)
    (scope : ScopeId) (isPrivate : Bool) (before : List Clause) (site : NodeId) :
    Resolve (List Clause) := do
  match program.tree.kind? site with
  | some (.clause symbol limitation limitations) =>
    let resolve :=
      match stmt with
      | .use => program.useClauses
      | .imports => program.importClauses
    return before ++ (← resolve find scope isPrivate before site symbol limitation limitations)
  | _ => return before

/-- Adds the clauses of one statement; other nodes contribute none. -/
def addStatement (program : Program) (find : List Clause → Finder) (scope : ScopeId)
    (before : List Clause) (node : NodeId) : Resolve (List Clause) :=
  let add := fun stmt (access : Access) =>
    (program.tree.children node).foldlM
      (program.addClause find stmt scope access.isPrivate) before
  match program.tree.kind? node with
  | some (.useStmt access) => add .use access
  | some (.importStmt access) => add .imports access
  | _ => return before

/-- The clauses of the statements directly inside the owner of a scope. -/
def resolveStatements (program : Program) (find : List Clause → Finder) (scope : ScopeId) :
    Resolve (List Clause) := do
  match (← Resolve.scope scope).owner with
  | some owner => (program.tree.children owner).foldlM (program.addStatement find scope) []
  | none => return []

end Scoping.Program
