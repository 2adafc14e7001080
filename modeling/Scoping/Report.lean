import Scoping.Context

/-!
What answers show. Reports spell names out, so that they mean the same whatever
interner stands behind them.
-/

namespace Scoping

/-- A declaration with its name spelled out. -/
inductive DeclReport where
  | node (id : NodeId)
  | builtin (text : String)
deriving DecidableEq

/-- The declarations of one set, in order. -/
abbrev SetReport := List DeclReport

/-- One particular of a node. -/
inductive Particular where
  | text (text : String)
  | flag (flag : Bool)
  | node (id : NodeId)
  | node? (id : Option NodeId)
  | nodes (ids : List NodeId)
deriving DecidableEq

structure NodeReport where
  id : NodeId
  parent : Option NodeId
  tag : Tag
  particulars : List Particular
  children : List NodeId
deriving DecidableEq

/-- All that the tree knows of an id, which may be foreign to it. -/
structure IdReport where
  isContained : Bool
  node : Option NodeReport
  parent : Option NodeId
  tag : Option Tag
  children : List NodeId
  identifier : Option String
  body : Option NodeId
  declName : Option String
deriving DecidableEq

structure GatheredReport where
  declared : List (String × SetReport)
  hasImports : Bool
  hasFunctions : Bool
  isTrivial : Bool
deriving DecidableEq

structure ScopeReport where
  id : ScopeId
  owner : Option NodeId
  tag : Option Tag
  parent : Option ScopeId
  isRoot : Bool
  isModule : Bool
  autoUses : Bool
  hasImports : Bool
  hasFunctions : Bool
  declared : List (String × SetReport)
deriving DecidableEq

structure ClauseReport where
  target : ScopeId
  kind : ClauseKind
  isPrivate : Bool
  names : List (String × String)
deriving DecidableEq

/-- How one set answers for a declaration. -/
structure MembershipReport where
  size : Nat
  isEmpty : Bool
  first : DeclReport
  isMember : Bool
  isListed : Bool
deriving DecidableEq

structure InnermostReport where
  decl : Option DeclReport
  /-- The declaration written for inspection. -/
  label : Option String
  found : Multiplicity
  isBuiltin : Option Bool
  isUnique : Bool
  isAmbiguous : Bool
deriving DecidableEq

/-- The word an access keyword goes by. -/
def Access.word : Access → String
  | .unstated => "Default"
  | .exposed => "Public"
  | .hidden => "Private"

/-- The word a limitation goes by. -/
def Limitation.word : Limitation → String
  | .unlimited => "None"
  | .except => "Except"
  | .only => "Only"
  | .braces => "Braces"

namespace Interner

variable (names : Interner)

def reportDecl : Decl → DeclReport
  | .node id => .node id
  | .builtin name => .builtin (names.display name)

def reportSet (overloads : Overloads) : SetReport := overloads.toList.map names.reportDecl

def reportTable (table : DeclTable) : List (String × SetReport) :=
  table.entries.map fun (name, overloads) => (names.display name, names.reportSet overloads)

/-- What is particular to a kind of node, in a fixed order. -/
def particulars : NodeKind → List Particular
  | .moduleDecl name internal => [.text (names.display name), .flag internal]
  | .functionDecl name | .recordDecl name | .classDecl name | .enumDecl name | .enumElement name
  | .typeQuery name | .includeDecl name | .identifier name => [.text (names.display name)]
  | .variableDecl name typeExpr | .formal name typeExpr =>
    [.text (names.display name), .node? typeExpr]
  | .useStmt access | .importStmt access => [.text access.word]
  | .clause symbol limitation limitations =>
    [.node symbol, .text limitation.word, .nodes limitations]
  | .dot receiver field => [.node receiver, .text (names.display field)]
  | .rename symbol renamed => [.node symbol, .node renamed]
  | .tupleDecl | .multiDecl | .compound _ | .call => []

def reportNode (node : Node) : NodeReport where
  id := node.id
  parent := node.parent
  tag := node.tag
  particulars := names.particulars node.kind
  children := node.children

def reportId (tree : Tree) (id : NodeId) : IdReport where
  isContained := tree.contains id
  node := (tree.node? id).map names.reportNode
  parent := tree.parent? id
  tag := tree.tag? id
  children := tree.children id
  identifier := (tree.identifier? id).map names.display
  body := tree.body? id
  declName := (tree.declName? id).map names.display

def reportGathered (gathered : Gathered) : GatheredReport where
  declared := names.reportTable gathered.declared
  hasImports := gathered.hasImports
  hasFunctions := gathered.hasFunctions
  isTrivial := gathered.isTrivial

def reportScope (id : ScopeId) (scope : Scope) : ScopeReport where
  id
  owner := scope.owner
  tag := scope.tag
  parent := scope.parent?
  isRoot := scope.isRoot
  isModule := scope.isModule
  autoUses := scope.autoUses
  hasImports := scope.hasImports
  hasFunctions := scope.hasFunctions
  declared := names.reportTable scope.declared

def reportClause (clause : Clause) : ClauseReport where
  target := clause.target
  kind := clause.kind
  isPrivate := clause.isPrivate
  names := clause.names.map fun (actual, visible) =>
    (names.display actual, names.display visible)

def reportMembership (decl : Decl) (overloads : Overloads) : MembershipReport where
  size := overloads.size
  isEmpty := overloads.isEmpty
  first := names.reportDecl overloads.first
  isMember := overloads.contains decl
  isListed := overloads.toList.contains decl

def reportInnermost (result : InnermostMatch) : InnermostReport where
  decl := result.decl?.map names.reportDecl
  label := result.decl?.map Decl.label
  found := result.found
  isBuiltin := result.decl?.map Decl.isBuiltin
  isUnique := result.isUnique
  isAmbiguous := result.isAmbiguous

end Interner

end Scoping
