import Scoping.Syntax.Tree

/-!
The path expressions that name the target of a clause. `A.B.C` is read as a head
followed by fields, outermost field last.
-/

namespace Scoping

/-- An expression as a head and the fields accessed on it, in order. Each field
comes with the node that accesses it. -/
structure Path where
  head : NodeId
  fields : List (NodeId × Name)
deriving DecidableEq

namespace Tree

/-- Peels field accesses off an expression; `fields` are those peeled before. -/
def peel (tree : Tree) : Nat → NodeId → List (NodeId × Name) → Path
  | 0, id, fields => ⟨id, fields⟩
  | fuel + 1, id, fields =>
    match tree.kind? id with
    | some (.dot receiver field) => tree.peel fuel receiver ((id, field) :: fields)
    | _ => ⟨id, fields⟩

/-- The path of an expression. A receiver is older than the access to its field,
so the size of the tree is fuel enough. -/
def path (tree : Tree) (id : NodeId) : Path := tree.peel tree.size id []

end Tree

end Scoping
