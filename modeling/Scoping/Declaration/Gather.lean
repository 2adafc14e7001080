import Scoping.Declaration
import Scoping.Syntax.Tree

/-!
What a node declares directly. Tuple and multiple declarations are looked
through; blocks, loops and other compound statements are not, since they are
scopes of their own. The pattern variables in a formal's type count as declared
beside the formal.
-/

namespace Scoping

/-- The declarations found among the children of one node. -/
structure Gathered where
  declared : DeclTable
  /-- Whether a `use` or `import` is among them. -/
  hasImports : Bool
  /-- Whether a function is among them. -/
  hasFunctions : Bool
deriving DecidableEq

namespace Gathered

def empty : Gathered := ⟨.empty, false, false⟩

instance : Inhabited Gathered := ⟨empty⟩

/-- Nothing is declared and nothing is brought in. -/
def isTrivial (gathered : Gathered) : Bool := gathered.declared.isEmpty && !gathered.hasImports

/-- Adds the declaration of a name by a node. -/
def declare (gathered : Gathered) (name : Name) (id : NodeId) : Gathered :=
  { gathered with declared := DeclTable.declare gathered.declared name (.node id) }

end Gathered

namespace Tree

/-- The pattern variables at or below a node, in source order. Children are
older than their parents, so the size of the tree is fuel enough. -/
def typeQueries (tree : Tree) : Nat → NodeId → List (Name × NodeId)
  | 0, _ => []
  | fuel + 1, id =>
    let below := (tree.children id).flatMap (tree.typeQueries fuel)
    match tree.kind? id with
    | some (.typeQuery name) => (name, id) :: below
    | _ => below

/-- Adds what one child declares. A record named `excluded` is left out. -/
def gatherChild (tree : Tree) (excluded : Option Name) : Nat → Gathered → NodeId → Gathered
  | 0, gathered, _ => gathered
  | fuel + 1, gathered, id =>
    match tree.kind? id with
    | none => gathered
    | some .tupleDecl | some .multiDecl =>
      (tree.children id).foldl (tree.gatherChild excluded fuel) gathered
    | some (.useStmt _) | some (.importStmt _) => { gathered with hasImports := true }
    | some (.includeDecl name) => gathered.declare name id
    | some (.recordDecl name) =>
      if some name = excluded then gathered else gathered.declare name id
    | some (.functionDecl name) =>
      { gathered.declare name id with hasFunctions := true }
    | some (.formal name (some typeExpr)) =>
      (tree.typeQueries tree.size typeExpr).foldl
        (fun gathered query => gathered.declare query.1 query.2) (gathered.declare name id)
    | some kind =>
      match kind.declName? with
      | some name => gathered.declare name id
      | none => gathered

/-- What the direct children of a node declare. -/
def gather (tree : Tree) (id : NodeId) (excluded : Option Name) : Gathered :=
  (tree.children id).foldl (tree.gatherChild excluded tree.size) .empty

end Tree

end Scoping
