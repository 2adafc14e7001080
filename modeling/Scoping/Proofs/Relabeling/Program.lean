import Scoping.Proofs.Relabeling.Basic

/-!
Relabeled trees and programs. Whatever is read off a tree, its links, names and paths and
what its nodes declare, is read off a relabeled tree with the names relabeled.
-/

namespace Scoping

/-- The names that stand in a kind. -/
def NodeKind.names : NodeKind → List Name
  | .moduleDecl name _ | .functionDecl name | .recordDecl name | .classDecl name | .enumDecl name
  | .enumElement name | .variableDecl name _ | .formal name _ | .typeQuery name
  | .includeDecl name | .identifier name | .dot _ name => [name]
  | _ => []

variable {ρ : Relabeling}

namespace Tree

/-- Whether a tree is what a relabeling makes of another one. -/
structure Relabeled (ρ : Relabeling) (tree tree' : Tree) : Prop where
  nodes : tree'.nodes = tree.nodes.map ρ.node
  roots : tree'.roots = tree.roots.bimap ρ.name id
  bodies : tree'.bodies = tree.bodies
  /-- The names that stand in the tree read as before in messages. -/
  display : ∀ id kind, tree.kind? id = some kind → ∀ name ∈ kind.names,
    tree'.names.display (ρ.name name) = tree.names.display name

namespace Relabeled

variable {tree tree' : Tree} (hrelabeled : tree.Relabeled ρ tree')
include hrelabeled

theorem size : tree'.size = tree.size := by
  rw [Tree.size, Tree.size, hrelabeled.nodes, Array.size_map]

theorem contains (id : NodeId) : tree'.contains id = tree.contains id := by
  rw [Tree.contains, Tree.contains, hrelabeled.size]

theorem node? (id : NodeId) : tree'.node? id = (tree.node? id).map ρ.node := by
  rw [Tree.node?, Tree.node?, hrelabeled.nodes, Array.getElem?_map]

theorem kind? (id : NodeId) : tree'.kind? id = (tree.kind? id).map ρ.kind := by
  rw [Tree.kind?, Tree.kind?, hrelabeled.node?, Option.map_map, Option.map_map]
  rfl

theorem tag? (id : NodeId) : tree'.tag? id = tree.tag? id := by
  rw [Tree.tag?, Tree.tag?, hrelabeled.node?, Option.map_map]
  exact congrArg (Option.map · (tree.node? id)) (funext ρ.tag_node)

theorem parent? (id : NodeId) : tree'.parent? id = tree.parent? id := by
  rw [Tree.parent?, Tree.parent?, hrelabeled.node?]
  cases tree.node? id <;> rfl

theorem children (id : NodeId) : tree'.children id = tree.children id := by
  rw [Tree.children, Tree.children, hrelabeled.node?]
  cases tree.node? id <;> rfl

theorem identifier? (id : NodeId) : tree'.identifier? id = (tree.identifier? id).map ρ.name := by
  rw [Tree.identifier?, Tree.identifier?, hrelabeled.kind?]
  cases tree.kind? id with
  | none => rfl
  | some kind => cases kind <;> rfl

theorem declName? (id : NodeId) : tree'.declName? id = (tree.declName? id).map ρ.name := by
  rw [Tree.declName?, Tree.declName?, hrelabeled.kind?]
  cases tree.kind? id with
  | none => rfl
  | some kind => exact ρ.declName?_kind kind

theorem toplevel? (name : Name) : tree'.toplevel? (ρ.name name) = tree.toplevel? name := by
  rw [Tree.toplevel?, Tree.toplevel?, hrelabeled.roots, Assoc.get?_bimap ρ.injective, Option.map_id]
  rfl

theorem body? (id : NodeId) : tree'.body? id = tree.body? id := by
  rw [Tree.body?, Tree.body?, hrelabeled.bodies]

theorem chain (fuel : Nat) (id : NodeId) : tree'.chain fuel id = tree.chain fuel id := by
  induction fuel generalizing id with
  | zero => rfl
  | succ fuel ih =>
    rw [Tree.chain, Tree.chain, hrelabeled.parent?]
    cases tree.parent? id with
    | none => rfl
    | some parent => exact congrArg (id :: ·) (ih parent)

theorem lineage (id : NodeId) : tree'.lineage id = tree.lineage id := by
  rw [Tree.lineage, Tree.lineage, hrelabeled.size, hrelabeled.chain]

theorem isInternalModule (id : NodeId) :
    tree'.isInternalModule id = tree.isInternalModule id := by
  rw [Tree.isInternalModule, Tree.isInternalModule, hrelabeled.kind?]
  cases tree.kind? id with
  | none => rfl
  | some kind => cases kind <;> rfl

theorem isInInternalModule (id : NodeId) :
    tree'.isInInternalModule id = tree.isInInternalModule id := by
  rw [Tree.isInInternalModule, Tree.isInInternalModule, hrelabeled.lineage]
  exact congrArg (List.any _) (funext hrelabeled.isInternalModule)

theorem typeQueries (fuel : Nat) (id : NodeId) :
    tree'.typeQueries fuel id =
      (tree.typeQueries fuel id).map (Prod.map ρ.name fun node => node) := by
  induction fuel generalizing id with
  | zero => rfl
  | succ fuel ih =>
    have hbelow : (tree'.children id).flatMap (tree'.typeQueries fuel) =
        ((tree.children id).flatMap (tree.typeQueries fuel)).map
          (Prod.map ρ.name fun node => node) := by
      rw [hrelabeled.children, List.map_flatMap]
      exact congrArg (List.flatMap · _) (funext ih)
    rw [Tree.typeQueries, Tree.typeQueries, hbelow, hrelabeled.kind?]
    cases tree.kind? id with
    | none => rfl
    | some kind => cases kind <;> rfl

theorem gatherChild (excluded : Option Name) (fuel : Nat) (gathered : Gathered) (id : NodeId) :
    tree'.gatherChild (excluded.map ρ.name) fuel (ρ.gathered gathered) id =
      ρ.gathered (tree.gatherChild excluded fuel gathered id) := by
  induction fuel generalizing gathered id with
  | zero => rfl
  | succ fuel ih =>
    have hthrough : (tree'.children id).foldl (tree'.gatherChild (excluded.map ρ.name) fuel)
        (ρ.gathered gathered) =
          ρ.gathered ((tree.children id).foldl (tree.gatherChild excluded fuel) gathered) := by
      rw [hrelabeled.children]
      exact List.foldl_hom ρ.gathered ih
    rw [Tree.gatherChild, Tree.gatherChild, hrelabeled.kind?]
    cases tree.kind? id with
    | none => rfl
    | some kind =>
      cases kind with
      | tupleDecl => exact hthrough
      | multiDecl => exact hthrough
      | recordDecl name =>
        have hexcluded := ρ.some_name_eq_map_iff name excluded
        show (if some (ρ.name name) = excluded.map ρ.name then _ else _) =
          ρ.gathered (if some name = excluded then _ else _)
        by_cases hname : some name = excluded
        · rw [if_pos hname, if_pos (hexcluded.mpr hname)]
        · rw [if_neg hname, if_neg (mt hexcluded.mp hname), ρ.gathered_declare]
      | formal name typeExpr =>
        cases typeExpr with
        | none => exact (ρ.gathered_declare gathered name id).symm
        | some typeExpr =>
          show (tree'.typeQueries tree'.size typeExpr).foldl _ _ = ρ.gathered (List.foldl _ _ _)
          rw [hrelabeled.size, hrelabeled.typeQueries, List.foldl_map, ← ρ.gathered_declare]
          exact List.foldl_hom ρ.gathered fun gathered query =>
            (ρ.gathered_declare gathered query.1 query.2).symm
      | functionDecl name =>
        show { (ρ.gathered gathered).declare (ρ.name name) id with hasFunctions := true } = _
        rw [← ρ.gathered_declare]
        rfl
      | useStmt | importStmt | clause | identifier | dot | rename | compound | call => rfl
      | moduleDecl name | classDecl name | enumDecl name | enumElement name | variableDecl name
      | typeQuery name | includeDecl name => exact (ρ.gathered_declare gathered name id).symm

/-- A node of a relabeled tree declares the same under other names. -/
theorem gather (id : NodeId) (excluded : Option Name) :
    tree'.gather id (excluded.map ρ.name) = ρ.gathered (tree.gather id excluded) := by
  rw [Tree.gather, Tree.gather, hrelabeled.children, hrelabeled.size]
  show List.foldl _ (ρ.gathered .empty) _ = _
  exact List.foldl_hom ρ.gathered (hrelabeled.gatherChild excluded tree.size)

theorem peel (fuel : Nat) (id : NodeId) (fields : List (NodeId × Name)) :
    tree'.peel fuel id (fields.map (Prod.map (fun node => node) ρ.name)) =
      ⟨(tree.peel fuel id fields).head,
        (tree.peel fuel id fields).fields.map (Prod.map (fun node => node) ρ.name)⟩ := by
  induction fuel generalizing id fields with
  | zero => rfl
  | succ fuel ih =>
    rw [Tree.peel, Tree.peel, hrelabeled.kind?]
    cases tree.kind? id with
    | none => rfl
    | some kind =>
      cases kind with
      | dot receiver field => exact ih receiver ((id, field) :: fields)
      | _ => rfl

theorem path (id : NodeId) :
    tree'.path id = ⟨(tree.path id).head,
      (tree.path id).fields.map (Prod.map (fun node => node) ρ.name)⟩ := by
  rw [Tree.path, Tree.path, hrelabeled.size]
  exact hrelabeled.peel tree.size id []

end Relabeled

end Tree

namespace Program

/-- Whether a program is what a relabeling makes of another one. -/
structure Relabeled (ρ : Relabeling) (program program' : Program) : Prop where
  tree : program.tree.Relabeled ρ program'.tree
  autoModule : program'.autoModule = ρ.name program.autoModule
  tupleRecord : program'.tupleRecord = ρ.name program.tupleRecord
  builtins : program'.builtins = program.builtins.map ρ.name
  sharesEmpty : program'.sharesEmpty = program.sharesEmpty

namespace Relabeled

variable {program program' : Program} (hrelabeled : program.Relabeled ρ program')
include hrelabeled

theorem depth : program'.depth = program.depth := by
  rw [Program.depth, Program.depth, hrelabeled.tree.size]

theorem gather (id : NodeId) : program'.gather id = ρ.gathered (program.gather id) := by
  rw [Program.gather, Program.gather, hrelabeled.tupleRecord]
  exact hrelabeled.tree.gather id (some program.tupleRecord)

theorem opensScope (id : NodeId) : program'.opensScope id = program.opensScope id := by
  rw [Program.opensScope, Program.opensScope, hrelabeled.tree.tag?, hrelabeled.sharesEmpty,
    hrelabeled.gather, ρ.isTrivial_gathered]

theorem scopeFor (id : NodeId) (enclosing : List ScopeId) :
    program'.scopeFor id enclosing = ρ.scope (program.scopeFor id enclosing) := by
  simp only [Program.scopeFor, hrelabeled.tree.tag?, hrelabeled.tree.isInInternalModule,
    hrelabeled.gather]
  rfl

theorem listedName? (entry : NodeId) :
    program'.listedName? entry =
      (program.listedName? entry).map (Prod.map (fun node => node) ρ.name) := by
  rw [Program.listedName?, Program.listedName?, hrelabeled.tree.kind?]
  cases program.tree.kind? entry with
  | none => rfl
  | some kind =>
    cases kind with
    | rename symbol renamed =>
      show (program'.tree.identifier? symbol).map _ =
        ((program.tree.identifier? symbol).map _).map _
      rw [hrelabeled.tree.identifier?, Option.map_map, Option.map_map]
      rfl
    | _ => rfl

theorem splitField (limitation : Limitation) (expr : NodeId) :
    program'.splitField limitation expr =
      Prod.map (fun node => node) (Option.map ρ.name) (program.splitField limitation expr) := by
  unfold Program.splitField
  rw [hrelabeled.tree.kind?]
  cases program.tree.kind? expr with
  | none => cases limitation <;> rfl
  | some kind => cases limitation <;> cases kind <;> rfl

theorem isTarget (stmt : Statement) (decl : Decl) :
    program'.isTarget stmt (ρ.decl decl) = program.isTarget stmt decl := by
  cases decl with
  | builtin => rfl
  | node id => rw [Relabeling.decl, Program.isTarget, Program.isTarget, hrelabeled.tree.tag?]

end Relabeled

end Program

end Scoping
