import Scoping.Context

/-!
Building scopes. Every node has a scope in which its contents resolve: its own,
when it opens one, or that of the nearest ancestor that does. Scopes are built
when first asked for, the surrounding one before the inner one, so the handle of
a scope is always greater than those of the scopes around it.
-/

namespace Scoping.Program

/-- The root scope, built when it is first needed. -/
def rootScope (program : Program) : Resolve ScopeId := do
  match (← get).built.get? none with
  | some root => return root
  | none =>
    let root ← Resolve.addScope (.root program.builtins)
    modify fun context => { context with built := context.built.finish none root }
    return root

/-- Whether a node opens a scope of its own: named forms always do, the others
when they declare something or bring something in. -/
def opensScope (program : Program) (id : NodeId) : Bool :=
  match program.tree.tag? id with
  | none => false
  | some tag =>
    tag.mayOpenScope &&
      (tag.opensNamedScope || !program.sharesEmpty || !(program.gather id).isTrivial)

/-- The scope of a node that opens one, inside the given scopes. -/
def scopeFor (program : Program) (id : NodeId) (enclosing : List ScopeId) : Scope :=
  let gathered := program.gather id
  { owner := some id
    tag := program.tree.tag? id
    enclosing
    autoUses := program.tree.tag? id == some .moduleDecl && !program.tree.isInInternalModule id
    hasImports := gathered.hasImports
    hasFunctions := gathered.hasFunctions
    declared := gathered.declared }

/-- The node whose contents are asked for: an include stands for its linked
body, and one without body is reported. -/
def standsFor (program : Program) (id : NodeId) : Resolve NodeId := do
  match program.tree.tag? id with
  | some .includeDecl =>
    match program.tree.body? id with
    | some body => return body
    | none =>
      Resolve.report (.missingBody id)
      return id
  | _ => return id

/-- The scope that a node opens, built once. `around` finds the scope around it. -/
def buildScope (program : Program) (id : NodeId) (around : Resolve ScopeId) :
    Resolve ScopeId := do
  match (← get).built.get? (some id) with
  | some scope => return scope
  | none =>
    let parent ← around
    let enclosing := (← get).outward parent
    let scope ← Resolve.addScope (program.scopeFor id enclosing)
    modify fun context => { context with built := context.built.finish (some id) scope }
    return scope

/-- The scope of a node, climbing at most `fuel` parents. -/
def climbScopeOf (program : Program) : Nat → NodeId → Resolve ScopeId
  | 0, _ => failure
  | fuel + 1, id => do
    match (← get).scopeOf.get? id with
    | some scope => return scope
    | none =>
      let node ← program.standsFor id
      let around :=
        match program.tree.parent? node with
        | some parent => program.climbScopeOf fuel parent
        | none => program.rootScope
      let scope ← if program.opensScope node then program.buildScope node around else around
      modify fun context => { context with scopeOf := context.scopeOf.finish id scope }
      return scope

/-- The scope in which the contents of a node resolve. -/
def scopeOf (program : Program) (id : NodeId) : Resolve ScopeId :=
  program.climbScopeOf program.depth id

/-- The scope of the automatic module, if the tree has one. -/
def autoScope (program : Program) : Resolve (Option ScopeId) := do
  match (← get).autoScope with
  | some known => return known
  | none =>
    let found ←
      match program.tree.toplevel? program.autoModule with
      | some id => some <$> program.scopeOf id
      | none => pure none
    modify fun context => { context with autoScope := some found }
    return found

end Scoping.Program
