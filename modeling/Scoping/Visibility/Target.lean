import Scoping.Context.ScopeOf
import Scoping.Lookup.Config
import Scoping.Visibility.Path

/-!
Resolving the path of a `use` or `import` to the scope that it names. Every
segment must name exactly one declaration, and that a module; the segments of a
`use` may also name enumerations. A segment that does not is reported, and the
path then has no target.
-/

namespace Scoping

/-- How the resolver asks for the meaning of a name: one search on its own. -/
abbrev Finder := LookupConfig → ScopeId → Name → Resolve (List Overloads)

namespace Statement

/-- Where the first segment of a path is looked for. Only `use` sees the
declarations around the statement. -/
def headConfig : Statement → LookupConfig
  | .use => ⟨true, true, true, true, true⟩
  | .imports => ⟨false, true, false, true, true⟩

end Statement

/-- Where the later segments of a path, and listed names, are looked for: in the
declarations and clauses of the scope reached so far. -/
def LookupConfig.member : LookupConfig := ⟨true, true, false, false, true⟩

namespace Program

/-- Whether a statement can bring in the contents of a declaration. -/
def isTarget (program : Program) (stmt : Statement) : Decl → Bool
  | .builtin _ => false
  | .node id =>
    match program.tree.tag? id with
    | some .moduleDecl | some .includeDecl => true
    | some .enumDecl => stmt == .use
    | _ => false

/-- Resolves one segment, which `site` is reported for. -/
def resolveSegment (program : Program) (find : Finder) (stmt : Statement)
    (config : LookupConfig) (scope : ScopeId) (name : Name) (site : NodeId) :
    Resolve (Option ScopeId) := do
  match ← find config scope name with
  | [] =>
    Resolve.report (.unresolvedTarget site stmt)
    return none
  | [⟨decl, []⟩] =>
    match decl.node?, program.isTarget stmt decl with
    | some id, true => some <$> program.scopeOf id
    | _, _ =>
      Resolve.report (.notAModule site)
      return none
  | _ =>
    Resolve.report (.ambiguousTarget site stmt)
    return none

/-- Resolves the head of a path: `this` and `super` name modules around the
statement, and any other identifier is looked up. The name comes with the scope. -/
def resolveHead (program : Program) (find : Finder) (stmt : Statement) (scope : ScopeId)
    (head : NodeId) : Resolve (Option (ScopeId × Name)) := do
  match program.tree.identifier? head with
  | none =>
    Resolve.report (.unsupported head
      ("expression type not supported as target of '" ++ stmt.keyword ++ "'"))
    return none
  | some name =>
    if name = .this ∨ name = .super then
      let context ← get
      match if name = .this then context.moduleOf? scope else context.superOf? scope with
      | some target => return some (target, name)
      | none =>
        Resolve.report (.unresolvedTarget head stmt)
        return none
    else
      return (← program.resolveSegment find stmt stmt.headConfig scope name head).map (·, name)

/-- Resolves the fields of a path, each in the scope reached before it. -/
def resolveFields (program : Program) (find : Finder) (stmt : Statement) :
    ScopeId × Name → List (NodeId × Name) → Resolve (Option (ScopeId × Name))
  | reached, [] => return some reached
  | (scope, _), (site, field) :: rest => do
    match ← program.resolveSegment find stmt .member scope field site with
    | some inner => program.resolveFields find stmt (inner, field) rest
    | none => return none

/-- Resolves a path expression to a scope and the last name in the path. -/
def resolvePath (program : Program) (find : Finder) (stmt : Statement) (scope : ScopeId)
    (expr : NodeId) : Resolve (Option (ScopeId × Name)) := do
  let path := program.tree.path expr
  match ← program.resolveHead find stmt scope path.head with
  | some reached => program.resolveFields find stmt reached path.fields
  | none => return none

end Program

end Scoping
