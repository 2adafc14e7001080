import Scoping.Assoc
import Scoping.Interner
import Scoping.Syntax.Node

/-!
The finished syntax tree. Nodes are kept in creation order, so a node's id is
its place. Parent links are stored rather than derived, because the body of an
include is parented to whatever holds the include without being its child.
-/

namespace Scoping

/-- A finished tree. -/
structure Tree where
  /-- The interner that the tree's names come from. -/
  names : Interner
  nodes : Array Node
  /-- Top-level modules by name, in creation order. -/
  roots : Assoc Name NodeId
  /-- The linked body of each include that has one. -/
  bodies : Assoc NodeId NodeId
deriving DecidableEq, Inhabited

namespace Tree

def size (tree : Tree) : Nat := tree.nodes.size

def isEmpty (tree : Tree) : Bool := tree.size == 0

def node? (tree : Tree) (id : NodeId) : Option Node := tree.nodes[id.index]?

def contains (tree : Tree) (id : NodeId) : Bool := id.index < tree.size

def kind? (tree : Tree) (id : NodeId) : Option NodeKind := (tree.node? id).map Node.kind

def tag? (tree : Tree) (id : NodeId) : Option Tag := (tree.node? id).map Node.tag

/-- The parent of a node; `none` for top-level modules and unknown ids. -/
def parent? (tree : Tree) (id : NodeId) : Option NodeId := (tree.node? id).bind Node.parent

/-- The children of a node; an unknown id has none. -/
def children (tree : Tree) (id : NodeId) : List NodeId :=
  match tree.node? id with
  | some node => node.children
  | none => []

/-- The name of an identifier expression. -/
def identifier? (tree : Tree) (id : NodeId) : Option Name :=
  match tree.kind? id with
  | some (.identifier name) => some name
  | _ => none

/-- The name that a declaration declares. -/
def declName? (tree : Tree) (id : NodeId) : Option Name := (tree.kind? id).bind NodeKind.declName?

/-- A top-level module by name. -/
def toplevel? (tree : Tree) (name : Name) : Option NodeId := tree.roots.get? name

def toplevelCount (tree : Tree) : Nat := tree.roots.size

/-- The linked body of an include. -/
def body? (tree : Tree) (id : NodeId) : Option NodeId := tree.bodies.get? id

/-- The first `fuel` entries of the chain of parents that starts at a node. -/
def chain (tree : Tree) : Nat → NodeId → List NodeId
  | 0, _ => []
  | fuel + 1, id =>
    match tree.parent? id with
    | some parent => id :: tree.chain fuel parent
    | none => [id]

/-- A node and its ancestors, innermost first. A chain that repeats no node is
never longer than the tree, so nothing is cut off. -/
def lineage (tree : Tree) (id : NodeId) : List NodeId := tree.chain tree.size id

/-- Whether a node is a module that the standard library provides itself. -/
def isInternalModule (tree : Tree) (id : NodeId) : Bool :=
  match tree.kind? id with
  | some (.moduleDecl _ internal) => internal
  | _ => false

/-- Whether a node is, or lies inside, an internal module. -/
def isInInternalModule (tree : Tree) (id : NodeId) : Bool :=
  (tree.lineage id).any tree.isInternalModule

theorem contains_iff {tree : Tree} {id : NodeId} :
    tree.contains id = true ↔ ∃ node, tree.node? id = some node := by
  unfold contains
  rw [decide_eq_true_eq]
  exact ⟨fun bound => ⟨_, Array.getElem?_eq_getElem bound⟩,
    fun ⟨_, found⟩ => (Array.getElem?_eq_some_iff.mp found).1⟩

end Tree

end Scoping
