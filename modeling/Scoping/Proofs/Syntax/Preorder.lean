import Mathlib.Logic.Relation
import Scoping.Declaration.Gather
import Scoping.Proofs.Syntax.WellFormed

/-!
The nodes at and below others in the order of their text: a node comes before its
children, and they come before whatever follows the node. Children are older than their
parents, so there is one such list, without bounds on any depth. Each node has one place
among the children of others, so it is listed once.
-/

namespace Scoping.Tree

/-- The nodes at and below a list of nodes, each before those below it. -/
inductive Preorder (tree : Tree) : List NodeId → List NodeId → Prop
  | nil : tree.Preorder [] []
  | cons {id : NodeId} {rest below after : List NodeId}
    (hbelow : tree.Preorder (tree.children id) below) (hrest : tree.Preorder rest after) :
    tree.Preorder (id :: rest) (id :: (below ++ after))

/-- Whether one node is at or below another, as a child of children. -/
def Descends (tree : Tree) : NodeId → NodeId → Prop :=
  Relation.ReflTransGen fun id child => child ∈ tree.children id

/-- Nothing is below two nodes that lie apart. -/
def Apart (tree : Tree) (first second : NodeId) : Prop :=
  ∀ node, tree.Descends first node → ¬ tree.Descends second node

/-- The pattern variable that a node is, with its name. -/
def query? (tree : Tree) (id : NodeId) : Option (Name × NodeId) :=
  match tree.kind? id with
  | some (.typeQuery name) => some (name, id)
  | _ => none

variable {tree : Tree} {ids more nodes moreNodes : List NodeId}

namespace Preorder

theorem unique {nodes' : List NodeId} (hnodes : tree.Preorder ids nodes)
    (hnodes' : tree.Preorder ids nodes') : nodes = nodes' := by
  induction hnodes generalizing nodes' with
  | nil =>
    cases hnodes'
    rfl
  | cons _ _ ihbelow ihrest =>
    cases hnodes' with
    | cons hbelow' hrest' => rw [ihbelow hbelow', ihrest hrest']

theorem append (hnodes : tree.Preorder ids nodes) (hmore : tree.Preorder more moreNodes) :
    tree.Preorder (ids ++ more) (nodes ++ moreNodes) := by
  induction hnodes with
  | nil => exact hmore
  | cons hbelow _ _ ihrest =>
    rw [List.cons_append, List.cons_append, List.append_assoc]
    exact .cons hbelow ihrest

/-- Fewer nodes have less at or below them. -/
theorem sublist (hsub : ids.Sublist more) (hnodes : tree.Preorder ids nodes)
    (hmore : tree.Preorder more moreNodes) : nodes.Sublist moreNodes := by
  induction hsub generalizing nodes moreNodes with
  | slnil =>
    cases hnodes
    exact List.nil_sublist _
  | cons _ _ ih =>
    cases hmore with
    | cons _ hrest => exact ((ih hnodes hrest).trans (List.sublist_append_right _ _)).cons _
  | cons_cons _ _ ih =>
    cases hnodes with
    | cons hbelow hrest =>
      cases hmore with
      | cons hbelow' hrest' =>
        rw [hbelow.unique hbelow']
        exact ((ih hrest hrest').append_left _).cons_cons _

/-- All that is listed, and nothing else, is at or below one of the nodes. -/
theorem mem_iff (hnodes : tree.Preorder ids nodes) {node : NodeId} :
    node ∈ nodes ↔ ∃ id ∈ ids, tree.Descends id node := by
  induction hnodes with
  | nil => simp
  | @cons id rest below after _ _ ihbelow ihrest =>
    have hid : tree.Descends id node ↔
        node = id ∨ ∃ child ∈ tree.children id, tree.Descends child node := by
      rw [Descends, Relation.ReflTransGen.cases_head_iff, eq_comm]
    simp only [List.mem_cons, List.mem_append, exists_eq_or_imp, ihbelow, ihrest, hid, or_assoc]

/-- The pattern variables at or below nodes are those of their preorder, in its order. -/
theorem flatMap_typeQueries {fuel : Nat} (hnodes : tree.Preorder ids nodes)
    (hformed : tree.WellFormed) (hfuel : ∀ id ∈ ids, id.index < fuel) :
    ids.flatMap (tree.typeQueries fuel) = nodes.filterMap tree.query? := by
  induction hnodes generalizing fuel with
  | nil => rfl
  | @cons id rest below after _ _ ihbelow ihrest =>
    obtain ⟨hid, hrest⟩ := List.forall_mem_cons.mp hfuel
    obtain ⟨fuel, rfl⟩ := Nat.exists_eq_succ_of_ne_zero (Nat.ne_zero_of_lt hid)
    have hbelow := ihbelow fun child hchild =>
      (hformed.older id child hchild).trans_le (Nat.le_of_lt_succ hid)
    rw [List.flatMap_cons, ihrest hrest, typeQueries, hbelow, List.filterMap_cons,
      List.filterMap_append, query?]
    cases tree.kind? id with
    | none => rfl
    | some kind => cases kind <;> rfl

end Preorder

theorem Descends.index_le (hformed : tree.WellFormed) {id node : NodeId}
    (hdescends : tree.Descends id node) : node.index ≤ id.index := by
  induction hdescends with
  | refl => exact Nat.le_refl _
  | tail _ hchild ih => exact (Nat.le_of_lt (hformed.older _ _ hchild)).trans ih

/-- What is below a node other than itself is below the node its parent is. -/
theorem Descends.parent (hformed : tree.WellFormed) {id child parent : NodeId}
    (hdescends : tree.Descends id child) (hne : id ≠ child) (hchild : child ∈ tree.children parent) :
    tree.Descends id parent := by
  rcases Relation.ReflTransGen.cases_tail hdescends with heq | ⟨holder, hholder, hmem⟩
  · exact absurd heq.symm hne
  · have hparent := hformed.adopted holder child hmem
    rw [hformed.adopted parent child hchild] at hparent
    rwa [Option.some.inj hparent]

namespace WellFormed

variable (hformed : tree.WellFormed)
include hformed

/-- Children are older than their parents, so the preorder of any nodes can be listed. -/
theorem exists_preorder (ids : List NodeId) : ∃ nodes, tree.Preorder ids nodes := by
  have hbounded : ∀ bound (ids : List NodeId), (∀ id ∈ ids, id.index < bound) →
      ∃ nodes, tree.Preorder ids nodes := by
    intro bound
    induction bound with
    | zero =>
      rintro (_ | ⟨id, rest⟩) hids
      · exact ⟨[], .nil⟩
      · exact absurd (hids id List.mem_cons_self) (Nat.not_lt_zero _)
    | succ bound ih =>
      intro ids hids
      induction ids with
      | nil => exact ⟨[], .nil⟩
      | cons id rest ihrest =>
        obtain ⟨hid, hrest⟩ := List.forall_mem_cons.mp hids
        obtain ⟨after, hafter⟩ := ihrest hrest
        obtain ⟨below, hbelow⟩ := ih (tree.children id) fun child hchild =>
          (hformed.older id child hchild).trans_le (Nat.le_of_lt_succ hid)
        exact ⟨_, .cons hbelow hafter⟩
  obtain ⟨bound, hbound⟩ : ∃ bound, ∀ id ∈ ids, id.index < bound := by
    refine ⟨(ids.map NodeId.index).sum + 1, fun id hid => Nat.lt_succ_of_le ?_⟩
    exact List.le_sum_of_mem (List.mem_map_of_mem hid)
  exact hbounded bound ids hbound

/-- Two children of one node have nothing in common below them: the younger of two
nodes one below the other is not also its sibling. -/
theorem pairwise_apart (id : NodeId) : (tree.children id).Pairwise tree.Apart := by
  have hunique : Relator.RightUnique fun child parent : NodeId => child ∈ tree.children parent :=
    fun child first second hfirst hsecond => Option.some.inj
      ((hformed.adopted first child hfirst).symm.trans (hformed.adopted second child hsecond))
  have hbelow : ∀ first ∈ tree.children id, ∀ second ∈ tree.children id, first ≠ second →
      ¬ tree.Descends first second := by
    intro first hfirst second hsecond hne hdescends
    have hle := (hdescends.parent hformed hne hsecond).index_le hformed
    exact Nat.not_lt_of_le hle (hformed.older id first hfirst)
  refine (hformed.distinct id).imp_of_mem fun {first second} hfirst hsecond hne => ?_
  intro node hnode hnode'
  rcases Relation.ReflTransGen.total_of_right_unique hunique
    (Relation.reflTransGen_swap.mpr hnode) (Relation.reflTransGen_swap.mpr hnode') with hup | hup
  · exact hbelow second hsecond first hfirst (Ne.symm hne) (Relation.reflTransGen_swap.mp hup)
  · exact hbelow first hfirst second hsecond hne (Relation.reflTransGen_swap.mp hup)

/-- The preorder of nodes that lie apart lists no node twice. -/
theorem nodup_preorder (hnodes : tree.Preorder ids nodes) (hapart : ids.Pairwise tree.Apart) :
    nodes.Nodup := by
  induction hnodes with
  | nil => exact List.nodup_nil
  | @cons id rest below after hbelow hrest ihbelow ihrest =>
    obtain ⟨hid, hothers⟩ := List.pairwise_cons.mp hapart
    have hself : id ∉ below ++ after := by
      rw [List.mem_append, hbelow.mem_iff, hrest.mem_iff]
      rintro (⟨child, hchild, hdescends⟩ | ⟨other, hother, hdescends⟩)
      · exact Nat.not_lt_of_le (hdescends.index_le hformed) (hformed.older id child hchild)
      · exact hid other hother id .refl hdescends
    have hdisjoint : below.Disjoint after := by
      intro node hnode hnode'
      obtain ⟨child, hchild, hdescends⟩ := hbelow.mem_iff.mp hnode
      obtain ⟨other, hother, hdescends'⟩ := hrest.mem_iff.mp hnode'
      exact hid other hother node (.head hchild hdescends) hdescends'
    exact List.nodup_cons.mpr
      ⟨hself, (ihbelow (hformed.pairwise_apart id)).append (ihrest hothers) hdisjoint⟩

end WellFormed

end Scoping.Tree
