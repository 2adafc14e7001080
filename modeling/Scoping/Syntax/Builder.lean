import Scoping.Text.Identifier
import Scoping.Syntax.Tree

/-!
Trees are built from the leaves up: every composite node adopts the nodes that
it is given as children. Whatever has no parent in the end must be a module and
becomes a top-level one. A step that fails leaves the nodes that existed before
it as they were, but may leave fresh ones behind.
-/

namespace Scoping

/-- Why a build step, or the end of building, was refused. -/
inductive BuildError where
  | invalidIdentifier (text : String)
  | unknownNode (id : NodeId)
  | alreadyAdopted (child : NodeId)
  /-- A node without parent that is not a module. -/
  | detached (id : NodeId)
  | duplicateToplevel (name : String) (first second : NodeId)
  | invalidInclude (site body : NodeId)
deriving DecidableEq

/-- The wording of an error. -/
def BuildError.message : BuildError → String
  | .invalidIdentifier text => "'" ++ text ++ "' is not a valid identifier"
  | .unknownNode id => id.display ++ " does not exist in this builder"
  | .alreadyAdopted child => child.display ++ " already has a parent"
  | .detached id => id.display ++ " was never attached to a parent and is not a module"
  | .duplicateToplevel name first second =>
    "top-level module '" ++ name ++ "' is defined by both " ++ first.display ++ " and " ++
      second.display
  | .invalidInclude site body => site.display ++ " cannot include " ++ body.display

/-- A tree under construction. -/
structure Builder where
  names : Interner
  nodes : Array Node
  /-- The body last linked to each include. -/
  bodies : Assoc NodeId NodeId
  /-- Every module that was linked to an include. -/
  linked : List NodeId
deriving DecidableEq, Inhabited

/-- A build step keeps the builder also when it fails. -/
abbrev Build (α : Type) := ExceptT BuildError (StateM Builder) α

namespace Builder

/-- The builder that holds no node, over an interner that may be shared. -/
def ofNames (names : Interner) : Builder := ⟨names, #[], .empty, []⟩

def node? (builder : Builder) (id : NodeId) : Option Node := builder.nodes[id.index]?

/-- Whether a node can no longer be adopted. -/
def isTaken (builder : Builder) (id : NodeId) (node : Node) : Bool :=
  node.parent.isSome || builder.linked.contains id

/-- The first child, if any, that cannot be adopted, with the reason. `earlier`
holds the children before it: none may be listed twice. -/
def adoptionFault? (builder : Builder) (earlier : List NodeId) : List NodeId → Option BuildError
  | [] => none
  | child :: rest =>
    match builder.node? child with
    | none => some (.unknownNode child)
    | some node =>
      if builder.isTaken child node || earlier.contains child then some (.alreadyAdopted child)
      else builder.adoptionFault? (child :: earlier) rest

/-- Sets the parent of a node. -/
def setParent (nodes : Array Node) (parent child : NodeId) : Array Node :=
  match nodes[child.index]? with
  | some node => nodes.setIfInBounds child.index { node with parent := some parent }
  | none => nodes

/-- Appends a node that adopts `children`. -/
def adopt (builder : Builder) (kind : NodeKind) (children : List NodeId) : Builder :=
  let id : NodeId := ⟨builder.nodes.size⟩
  { builder with
    nodes := (children.foldl (fun nodes child => setParent nodes id child) builder.nodes).push
      { id, parent := none, kind, children } }

/-- Interns an identifier after checking that it is one. -/
def name (text : String) : Build Name := do
  unless Text.isIdentifier text do throw (.invalidIdentifier text)
  modifyGet fun builder =>
    let (name, names) := builder.names.intern text
    (name, { builder with names })

/-- Adds a node over children that have no parent yet. -/
def push (kind : NodeKind) (children : List NodeId) : Build NodeId := do
  let builder ← get
  match builder.adoptionFault? [] children with
  | some fault => throw fault
  | none =>
    set (builder.adopt kind children)
    return ⟨builder.nodes.size⟩

/-- Adds a node whose kind carries a checked name. -/
def pushNamed (kind : Name → NodeKind) (text : String) (children : List NodeId) :
    Build NodeId := do
  let checked ← name text
  push (kind checked) children

/-- An identifier expression. -/
def identifier (text : String) : Build NodeId := pushNamed .identifier text []

/-- `receiver.field` -/
def dot (receiver : NodeId) (field : String) : Build NodeId :=
  pushNamed (.dot receiver) field [receiver]

/-- Extends an expression by field accesses, one node a field. -/
def dots (receiver : NodeId) : List String → Build NodeId
  | [] => return receiver
  | field :: rest => do dots (← dot receiver field) rest

/-- The segments of a path written with dots, at least one. -/
def segments (path : String) : List String :=
  (path.toList.splitOn '.').map String.ofList

/-- `A.B.C` as field accesses over an identifier. -/
def dotted (path : String) : Build NodeId :=
  match segments path with
  | [] => identifier ""
  | first :: fields => do dots (← identifier first) fields

/-- `symbol as renamed`, for any expression after the keyword. -/
def rename (symbol renamed : NodeId) : Build NodeId :=
  push (.rename symbol renamed) [symbol, renamed]

/-- `symbol as newName`; the identifier is made before anything is adopted. -/
def renameTo (symbol : NodeId) (newName : String) : Build NodeId := do
  rename symbol (← identifier newName)

/-- A clause over its symbol and the entries of its list. -/
def clause (symbol : NodeId) (limitation : Limitation) (limitations : List NodeId) :
    Build NodeId :=
  push (.clause symbol limitation limitations) (symbol :: limitations)

/-- The elements of an enumeration, made one by one. -/
def elements : List String → Build (List NodeId)
  | [] => return []
  | text :: rest => do
    let element ← pushNamed .enumElement text []
    return element :: (← elements rest)

/-- An enumeration; its elements are made after its name is checked. -/
def enumeration (text : String) (elementNames : List String) : Build NodeId := do
  let checked ← name text
  push (.enumDecl checked) (← elements elementNames)

/-- The tag of a node that must exist. -/
def tagOf (id : NodeId) : Build Tag := do
  match (← get).node? id with
  | some node => return node.tag
  | none => throw (.unknownNode id)

/-- Registers a module as the parsed body of an include. The module will be
parented to whatever holds the include. -/
def link (site body : NodeId) : Build Unit := do
  unless (← tagOf site).isInclude do throw (.invalidInclude site body)
  unless (← tagOf body).isModule do throw (.invalidInclude site body)
  let builder ← get
  match builder.node? body with
  | none => throw (.unknownNode body)
  | some node =>
    if builder.isTaken body node then throw (.alreadyAdopted body)
    set { builder with
      bodies := builder.bodies.insert site body
      linked := body :: builder.linked }

/-- Gives each linked module the parent of its include. -/
def placeBodies (nodes : Array Node) : List (NodeId × NodeId) → Except BuildError (Array Node)
  | [] => .ok nodes
  | (site, body) :: rest =>
    match nodes[site.index]?.bind Node.parent with
    | none => .error (.detached site)
    | some parent => placeBodies (setParent nodes parent body) rest

/-- Collects the nodes without parent, which must be modules of distinct names. -/
def collectRoots (names : Interner) (roots : Assoc Name NodeId) :
    List Node → Except BuildError (Assoc Name NodeId)
  | [] => .ok roots
  | node :: rest =>
    match node.parent, node.kind with
    | some _, _ => collectRoots names roots rest
    | none, .moduleDecl name _ =>
      match roots.get? name with
      | some first => .error (.duplicateToplevel (names.display name) first node.id)
      | none => collectRoots names (roots.insert name node.id) rest
    | none, _ => .error (.detached node.id)

/-- Ends the construction. -/
def finish (builder : Builder) : Except BuildError Tree := do
  let nodes ← placeBodies builder.nodes builder.bodies.entries
  let roots ← collectRoots builder.names .empty nodes.toList
  return { names := builder.names, nodes, roots, bodies := builder.bodies }

theorem size_setParent (nodes : Array Node) (parent child : NodeId) :
    (setParent nodes parent child).size = nodes.size := by
  unfold setParent
  split <;> simp

/-- Adoption adds one node and no more. -/
theorem size_adopt (builder : Builder) (kind : NodeKind) (children : List NodeId) :
    (builder.adopt kind children).nodes.size = builder.nodes.size + 1 := by
  have kept : ∀ (id : NodeId) (nodes : Array Node),
      (children.foldl (fun nodes child => setParent nodes id child) nodes).size =
        nodes.size := by
    intro id
    induction children with
    | nil => intro nodes; rfl
    | cons child rest ih => intro nodes; simp [ih, size_setParent]
  simp [adopt, kept]

end Builder

end Scoping
