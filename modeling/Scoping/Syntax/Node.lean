import Scoping.Name

/-!
Nodes of the syntax tree. `NodeKind` carries what is particular to each form;
`Tag` is the same classification without the particulars, which is all that the
scope builder asks about.
-/

namespace Scoping

/-- A node of the tree, numbered in order of creation. -/
structure NodeId where
  index : Nat
deriving DecidableEq, Inhabited

namespace NodeId

/-- A node as messages name it, such as `node#3`. -/
def display (id : NodeId) : String := s!"node#{id.index}"

/-- A node written for inspection, such as `NodeId(3)`. -/
def label (id : NodeId) : String := s!"NodeId({id.index})"

end NodeId

/-- The access keyword written on a statement. -/
inductive Access where
  /-- No keyword was written. -/
  | unstated
  /-- `public` -/
  | exposed
  /-- `private` -/
  | hidden
deriving DecidableEq, Inhabited

/-- Only a statement that is written `public` lets others see through it. -/
def Access.isPrivate : Access → Bool
  | .exposed => false
  | .unstated | .hidden => true

/-- How a clause limits what it brings into scope. -/
inductive Limitation where
  /-- `use M`, `import M.f` -/
  | unlimited
  /-- `use M except a, b` -/
  | except
  /-- `use M only a, b as c` -/
  | only
  /-- `import M.{a, b as c}` -/
  | braces
deriving DecidableEq, Inhabited

/-- Statements that own a body but declare no name. -/
inductive Compound where
  | block
  | localBlock
  | onBlock
  | forLoop
  | whileLoop
  | doWhileLoop
  | forallLoop
  | coforallLoop
  | cobegin
  | conditional
  | select
  | tryBlock
deriving DecidableEq, Inhabited

/-- What one node is. A node that is named inside a kind is always a child of
the same node. -/
inductive NodeKind where
  /-- A module; `internal` marks those the standard library provides itself. -/
  | moduleDecl (name : Name) (internal : Bool)
  | functionDecl (name : Name)
  | recordDecl (name : Name)
  | classDecl (name : Name)
  | enumDecl (name : Name)
  | enumElement (name : Name)
  | variableDecl (name : Name) (typeExpr : Option NodeId)
  | formal (name : Name) (typeExpr : Option NodeId)
  /-- A pattern variable of a type expression, such as `?t` in `x: ?t`. -/
  | typeQuery (name : Name)
  | tupleDecl
  | multiDecl
  /-- `include module M;`, whose parsed body is linked separately. -/
  | includeDecl (name : Name)
  | useStmt (access : Access)
  | importStmt (access : Access)
  | clause (symbol : NodeId) (limitation : Limitation) (limitations : List NodeId)
  | identifier (name : Name)
  | dot (receiver : NodeId) (field : Name)
  /-- `symbol as renamed` -/
  | rename (symbol : NodeId) (renamed : NodeId)
  | compound (form : Compound)
  /-- Any other expression; its operands are its children. -/
  | call
deriving DecidableEq, Inhabited

/-- The form of a node without its particulars. -/
inductive Tag where
  | moduleDecl
  | functionDecl
  | recordDecl
  | classDecl
  | enumDecl
  | enumElement
  | variableDecl
  | formal
  | typeQuery
  | tupleDecl
  | multiDecl
  | includeDecl
  | useStmt
  | importStmt
  | clause
  | identifier
  | dot
  | rename
  | compound (form : Compound)
  | call
deriving DecidableEq, Inhabited

namespace Compound

/-- Every compound form. -/
def all : List Compound :=
  [.block, .localBlock, .onBlock, .forLoop, .whileLoop, .doWhileLoop, .forallLoop, .coforallLoop,
    .cobegin, .conditional, .select, .tryBlock]

/-- The word a compound form goes by. -/
def word : Compound → String
  | .block => "Block"
  | .localBlock => "Local"
  | .onBlock => "On"
  | .forLoop => "For"
  | .whileLoop => "While"
  | .doWhileLoop => "DoWhile"
  | .forallLoop => "Forall"
  | .coforallLoop => "Coforall"
  | .cobegin => "Cobegin"
  | .conditional => "Conditional"
  | .select => "Select"
  | .tryBlock => "Try"

def isBlock : Compound → Bool
  | .block | .localBlock | .onBlock => true
  | _ => false

def isLoop : Compound → Bool
  | .forLoop | .whileLoop | .doWhileLoop | .forallLoop | .coforallLoop => true
  | _ => false

end Compound

namespace Tag

/-- Every tag. -/
def all : List Tag :=
  [.moduleDecl, .functionDecl, .recordDecl, .classDecl, .enumDecl, .enumElement, .variableDecl,
    .formal, .typeQuery, .tupleDecl, .multiDecl, .includeDecl, .useStmt, .importStmt, .clause,
    .identifier, .dot, .rename] ++ Compound.all.map .compound ++ [.call]

/-- The word a tag goes by. -/
def word : Tag → String
  | .moduleDecl => "Module"
  | .functionDecl => "Function"
  | .recordDecl => "Record"
  | .classDecl => "Class"
  | .enumDecl => "Enum"
  | .enumElement => "EnumElement"
  | .variableDecl => "Variable"
  | .formal => "Formal"
  | .typeQuery => "TypeQuery"
  | .tupleDecl => "TupleDecl"
  | .multiDecl => "MultiDecl"
  | .includeDecl => "Include"
  | .useStmt => "Use"
  | .importStmt => "Import"
  | .clause => "VisibilityClause"
  | .identifier => "Identifier"
  | .dot => "Dot"
  | .rename => "As"
  | .compound form => form.word
  | .call => "Call"

def isModule : Tag → Bool
  | .moduleDecl => true
  | _ => false

def isEnum : Tag → Bool
  | .enumDecl => true
  | _ => false

def isInclude : Tag → Bool
  | .includeDecl => true
  | _ => false

/-- Forms that always open a scope of their own. -/
def opensNamedScope : Tag → Bool
  | .moduleDecl | .functionDecl | .recordDecl | .classDecl | .enumDecl => true
  | _ => false

def isBlock : Tag → Bool
  | .compound form => form.isBlock
  | _ => false

def isLoop : Tag → Bool
  | .compound form => form.isLoop
  | _ => false

def isCobegin (tag : Tag) : Bool := tag == .compound .cobegin

def isConditional (tag : Tag) : Bool := tag == .compound .conditional

def isSelect (tag : Tag) : Bool := tag == .compound .select

def isTry (tag : Tag) : Bool := tag == .compound .tryBlock

/-- Forms that may open a scope: the named ones always, the others when they
declare or bring in something. -/
def mayOpenScope (tag : Tag) : Bool :=
  tag.opensNamedScope || tag.isBlock || tag.isLoop || tag.isCobegin || tag.isConditional ||
    tag.isSelect || tag.isTry

/-- Forms that declare a name. An include carries one but is not among them. -/
def declaresName : Tag → Bool
  | .moduleDecl | .functionDecl | .recordDecl | .classDecl | .enumDecl | .enumElement
  | .variableDecl | .formal | .typeQuery => true
  | _ => false

/-- The properties of tags, each with the word it goes by. -/
def properties : List (String × (Tag → Bool)) :=
  [("module", isModule), ("enum", isEnum), ("include", isInclude),
    ("new_id_scope", opensNamedScope), ("simple_block_like", isBlock), ("loop", isLoop),
    ("cobegin", isCobegin), ("conditional", isConditional), ("select", isSelect),
    ("try", isTry), ("creates_scope", mayOpenScope), ("named", declaresName)]

/-- The words of the properties that hold of a tag. -/
def traits (tag : Tag) : List String :=
  (properties.filter fun property => property.2 tag).map Prod.fst

/-- Every compound statement may open a scope, and no other unnamed form. -/
theorem mayOpenScope_eq (tag : Tag) :
    tag.mayOpenScope = (tag.opensNamedScope || tag matches .compound _) := by
  cases tag with
  | compound form => cases form <;> rfl
  | _ => rfl

end Tag

namespace NodeKind

def tag : NodeKind → Tag
  | moduleDecl .. => .moduleDecl
  | functionDecl .. => .functionDecl
  | recordDecl .. => .recordDecl
  | classDecl .. => .classDecl
  | enumDecl .. => .enumDecl
  | enumElement .. => .enumElement
  | variableDecl .. => .variableDecl
  | formal .. => .formal
  | typeQuery .. => .typeQuery
  | tupleDecl => .tupleDecl
  | multiDecl => .multiDecl
  | includeDecl .. => .includeDecl
  | useStmt .. => .useStmt
  | importStmt .. => .importStmt
  | clause .. => .clause
  | identifier .. => .identifier
  | dot .. => .dot
  | rename .. => .rename
  | compound form => .compound form
  | call => .call

/-- The name that a declaration declares. -/
def declName? : NodeKind → Option Name
  | moduleDecl name _ | functionDecl name | recordDecl name | classDecl name | enumDecl name
  | enumElement name | variableDecl name _ | formal name _ | typeQuery name => some name
  | _ => none

theorem declName?_isSome (kind : NodeKind) : kind.declName?.isSome = kind.tag.declaresName := by
  cases kind <;> rfl

end NodeKind

/-- One node of the tree. -/
structure Node where
  id : NodeId
  /-- `none` for top-level modules. -/
  parent : Option NodeId
  kind : NodeKind
  /-- Direct children in source order. -/
  children : List NodeId
deriving DecidableEq, Inhabited

def Node.tag (node : Node) : Tag := node.kind.tag

end Scoping
