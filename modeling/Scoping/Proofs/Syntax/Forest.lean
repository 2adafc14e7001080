import Mathlib.Data.Fintype.Pigeonhole
import Mathlib.Tactic
import Scoping.Proofs.Syntax.Placement

/-!
Which trees a build can end with, as far as climbing from parent to parent is
concerned: a node that holds others is never an include, and a chain of parents
that ends at all ends within as many steps as the tree has nodes.
-/

namespace Scoping

namespace Builder

/-- Every parent is a node that can hold others, which an include cannot. -/
def ParentsHold (nodes : Array Node) : Prop :=
  ∀ (index : Nat) (node : Node), nodes[index]? = some node → ∀ parent, node.parent = some parent →
    ∃ tag, tagAt nodes parent = some tag ∧ tag ≠ .includeDecl

theorem ParentsHold.setParent {nodes : Array Node} (hnodes : ParentsHold nodes)
    {parent child : NodeId} (hparent : ∃ tag, tagAt nodes parent = some tag ∧ tag ≠ .includeDecl) :
    ParentsHold (setParent nodes parent child) := by
  intro index node hnode above habove
  rw [getElem?_setParent] at hnode
  rw [tagAt_setParent]
  split at hnode
  · obtain ⟨old, -, rfl⟩ := Option.map_eq_some_iff.mp hnode
    obtain rfl : parent = above := Option.some.inj habove
    exact hparent
  · exact hnodes index node hnode above habove

theorem ParentsHold.adopt {builder : Builder} (hnodes : ParentsHold builder.nodes)
    {kind : NodeKind} {children : List NodeId}
    (hkind : children ≠ [] → kind.tag ≠ .includeDecl) :
    ParentsHold (builder.adopt kind children).nodes := by
  have hold : ∀ (index : Nat) (node : Node), builder.nodes[index]? = some node →
      ∀ parent, node.parent = some parent →
      ∃ tag, tagAt (builder.adopt kind children).nodes parent = some tag ∧
        tag ≠ .includeDecl := by
    intro index node hnode parent hparent
    obtain ⟨tag, htag, hne⟩ := hnodes index node hnode parent hparent
    obtain ⟨holder, hholder, -⟩ := Option.map_eq_some_iff.mp htag
    exact ⟨tag, by rw [tagAt_adopt_of_lt _ _ _ (Array.getElem?_eq_some_iff.mp hholder).1, htag],
      hne⟩
  intro index node hnode parent hparent
  rcases cases_of_getElem?_adopt hnode with ⟨-, rfl⟩ | ⟨hchild, old, -, rfl⟩ | hbefore
  · cases hparent
  · obtain rfl := Option.some.inj hparent
    refine ⟨kind.tag, ?_, hkind (List.ne_nil_of_mem hchild)⟩
    simp [tagAt, getElem?_adopt, Node.tag]
  · exact hold index node hbefore parent hparent

theorem ParentsHold.placeBodies {nodes placed : Array Node} (hnodes : ParentsHold nodes)
    {bodies : List (NodeId × NodeId)} (hplaced : placeBodies nodes bodies = .ok placed) :
    ParentsHold placed := by
  induction bodies generalizing nodes with
  | nil =>
    obtain rfl := Except.ok.inj hplaced
    exact hnodes
  | cons link rest ih =>
    obtain ⟨parent, hparent, hmore⟩ := placeBodies_cons_eq_ok hplaced
    obtain ⟨siteNode, hsite, habove⟩ := Option.bind_eq_some_iff.mp hparent
    exact ih (hnodes.setParent (hnodes link.1.index siteNode hsite parent habove)) hmore

theorem parentsHold_invariant : Invariant fun builder => ParentsHold builder.nodes where
  name _ _ hbuilder := hbuilder
  adopt _ _ _ hbuilder _ hkind := hbuilder.adopt hkind.holds
  link _ _ _ hbuilder _ _ := hbuilder

end Builder

namespace Tree

/-- Climbing from a node meets the top after at most `steps` parents. -/
def EndsWithin (tree : Tree) : Nat → NodeId → Prop
  | 0, id => tree.parent? id = none
  | steps + 1, id => ∀ parent, tree.parent? id = some parent → tree.EndsWithin steps parent

/-- Every chain of parents is finite. -/
def Grounded (tree : Tree) : Prop := ∀ id, ∃ steps, tree.EndsWithin steps id

/-- The tree is what some build ends with, over an interner that may have been
filled before. -/
def Finished (tree : Tree) : Prop := ∃ texts steps, (Session.build texts steps).2 = .ok tree

/-- What climbing relies on. -/
structure IsForest (tree : Tree) : Prop extends tree.Placed where
  climbs : ∀ id, tree.EndsWithin tree.size id
  parents : ∀ id parent, tree.parent? id = some parent → tree.contains parent = true
  holds : ∀ id parent, tree.parent? id = some parent → tree.tag? parent ≠ some .includeDecl

/-- The ancestor a number of steps up. -/
def ancestor? (tree : Tree) : Nat → NodeId → Option NodeId
  | 0, id => some id
  | steps + 1, id => (tree.parent? id).bind (tree.ancestor? steps)

theorem endsWithin_iff {tree : Tree} {steps : Nat} {id : NodeId} :
    tree.EndsWithin steps id ↔ tree.ancestor? (steps + 1) id = none := by
  induction steps generalizing id with
  | zero => cases hparent : tree.parent? id <;> simp [EndsWithin, ancestor?, hparent]
  | succ steps ih =>
    rw [EndsWithin, ancestor?, Option.bind_eq_none_iff]
    exact forall₂_congr fun parent _ => ih

theorem ancestor?_add (tree : Tree) (first second : Nat) (id : NodeId) :
    tree.ancestor? (first + second) id =
      (tree.ancestor? first id).bind (tree.ancestor? second) := by
  induction first generalizing id with
  | zero => simp [ancestor?]
  | succ first ih =>
    rw [Nat.add_right_comm, ancestor?, ancestor?, Option.bind_assoc]
    exact congrArg _ (funext fun parent => ih parent)

theorem ancestor?_eq_none_of_le {tree : Tree} {fewer more : Nat} {id : NodeId}
    (hle : fewer ≤ more) (hnone : tree.ancestor? fewer id = none) :
    tree.ancestor? more id = none := by
  obtain ⟨rest, rfl⟩ := Nat.exists_eq_add_of_le hle
  rw [ancestor?_add, hnone, Option.bind_none]

theorem index_lt_of_parent? {tree : Tree} {id parent : NodeId}
    (hparent : tree.parent? id = some parent) : id.index < tree.size := by
  obtain ⟨node, hnode, -⟩ := Option.bind_eq_some_iff.mp hparent
  exact (Array.getElem?_eq_some_iff.mp hnode).1

theorem EndsWithin.succ {tree : Tree} {steps : Nat} {id : NodeId}
    (hends : tree.EndsWithin steps id) : tree.EndsWithin (steps + 1) id := by
  rw [endsWithin_iff] at hends ⊢
  exact ancestor?_eq_none_of_le (Nat.le_succ _) hends

theorem EndsWithin.of_parent?_eq_none {tree : Tree} {steps : Nat} {id : NodeId}
    (hparent : tree.parent? id = none) : tree.EndsWithin steps id := by
  rw [endsWithin_iff]
  exact ancestor?_eq_none_of_le (Nat.succ_le_succ (Nat.zero_le steps))
    (by simp [ancestor?, hparent])

/-- If two ancestors of one node coincide, its chain of parents never ends. -/
theorem ancestor?_isSome_of_repeat {tree : Tree} {id : NodeId} {low high : Nat}
    (hlt : low < high) (hsome : (tree.ancestor? high id).isSome = true)
    (hsame : tree.ancestor? low id = tree.ancestor? high id) (steps : Nat) :
    (tree.ancestor? steps id).isSome = true := by
  induction steps using Nat.strong_induction_on with
  | _ steps ih =>
    by_cases hle : steps ≤ high
    · by_contra hnone
      have := ancestor?_eq_none_of_le hle (Option.not_isSome_iff_eq_none.mp hnone)
      simp [this] at hsome
    · obtain ⟨rest, rfl⟩ := Nat.exists_eq_add_of_le (Nat.le_of_not_le hle)
      have hback : tree.ancestor? (low + rest) id = tree.ancestor? (high + rest) id := by
        rw [ancestor?_add, ancestor?_add, hsame]
      rw [← hback]
      exact ih (low + rest) (by omega)

theorem contains_of_parent? {tree : Tree} {id parent : NodeId}
    (hparent : tree.parent? id = some parent) : tree.contains id = true :=
  decide_eq_true (index_lt_of_parent? hparent)

theorem contains_of_tag? {tree : Tree} {id : NodeId} {tag : Tag} (htag : tree.tag? id = some tag) :
    tree.contains id = true := by
  obtain ⟨node, hnode, -⟩ := Option.map_eq_some_iff.mp htag
  exact decide_eq_true (Array.getElem?_eq_some_iff.mp hnode).1

/-- More ancestors than there are nodes cannot all be different. -/
theorem exists_repeat {tree : Tree} {id above : NodeId} {steps : Nat}
    (habove : tree.ancestor? steps id = some above) (hnode : tree.contains above = true)
    (hlong : tree.size ≤ steps) : ∃ low high, low < high ∧
      (tree.ancestor? high id).isSome = true ∧ tree.ancestor? low id = tree.ancestor? high id := by
  -- every ancestor on the way up has a parent itself, so it is a node of the tree
  have hstep : ∀ i : Fin (steps + 1), ∃ ancestor : NodeId,
      tree.ancestor? i id = some ancestor ∧ ancestor.index < tree.size := by
    intro i
    obtain ⟨rest, hrest⟩ := Nat.exists_eq_add_of_le (Nat.le_of_lt_succ i.isLt)
    rw [hrest, ancestor?_add] at habove
    obtain ⟨ancestor, hancestor, hmore⟩ := Option.bind_eq_some_iff.mp habove
    refine ⟨ancestor, hancestor, ?_⟩
    cases rest with
    | zero =>
      obtain rfl := Option.some.inj hmore
      exact of_decide_eq_true hnode
    | succ rest =>
      obtain ⟨parent, hparent, -⟩ := Option.bind_eq_some_iff.mp hmore
      exact index_lt_of_parent? hparent
  choose ancestor hancestor hbound using hstep
  obtain ⟨low, high, hne, hsame⟩ := Fintype.exists_ne_map_eq_of_card_lt
    (fun i => (⟨(ancestor i).index, hbound i⟩ : Fin tree.size)) (by simp; omega)
  have hnode : ancestor low = ancestor high := congrArg NodeId.mk (Fin.mk.inj hsame)
  have hrepeat : tree.ancestor? low id = tree.ancestor? high id := by
    rw [hancestor, hancestor, hnode]
  rcases lt_or_gt_of_ne hne with hlt | hgt
  · exact ⟨low, high, hlt, by simp [hancestor], hrepeat⟩
  · exact ⟨high, low, hgt, by simp [hancestor], hrepeat.symm⟩

/-- A chain that ends has no repetition, so the nodes of the tree bound how far up
there are nodes. -/
theorem lt_size_of_ancestor? {tree : Tree} {id above : NodeId} {ends steps : Nat}
    (hends : tree.EndsWithin ends id) (habove : tree.ancestor? steps id = some above)
    (hnode : tree.contains above = true) : steps < tree.size := by
  by_contra hlong
  obtain ⟨low, high, hlt, hsome, hsame⟩ := exists_repeat habove hnode (Nat.le_of_not_lt hlong)
  have hnever := ancestor?_isSome_of_repeat hlt hsome hsame (ends + 1)
  simp [endsWithin_iff.mp hends] at hnever

/-- A chain that does not end within some steps has a node of the tree that many steps up. -/
theorem exists_ancestor_of_not_endsWithin {tree : Tree} {steps : Nat} {id : NodeId}
    (hlong : ¬ tree.EndsWithin steps id) :
    ∃ above, tree.ancestor? steps id = some above ∧ tree.contains above = true := by
  rw [endsWithin_iff] at hlong
  obtain ⟨top, htop⟩ := Option.ne_none_iff_exists'.mp hlong
  rw [ancestor?_add] at htop
  obtain ⟨above, habove, hmore⟩ := Option.bind_eq_some_iff.mp htop
  obtain ⟨parent, hparent, -⟩ := Option.bind_eq_some_iff.mp hmore
  exact ⟨above, habove, contains_of_parent? hparent⟩

/-- A chain that ends at all ends within as many steps as there are nodes. -/
theorem EndsWithin.size {tree : Tree} {steps : Nat} {id : NodeId}
    (hends : tree.EndsWithin steps id) : tree.EndsWithin tree.size id := by
  by_contra hlong
  obtain ⟨above, habove, hnode⟩ := exists_ancestor_of_not_endsWithin hlong
  exact Nat.lt_irrefl _ (lt_size_of_ancestor? hends habove hnode)

/-- The chain of parents lists the ancestors of a node, itself first. -/
theorem mem_chain_iff {tree : Tree} {fuel : Nat} {id above : NodeId} :
    above ∈ tree.chain fuel id ↔ ∃ steps < fuel, tree.ancestor? steps id = some above := by
  induction fuel generalizing id with
  | zero => simp [chain]
  | succ fuel ih =>
    have hsplit : (∃ steps < fuel + 1, tree.ancestor? steps id = some above) ↔
        id = above ∨ ∃ steps < fuel, tree.ancestor? (steps + 1) id = some above := by
      rw [Nat.exists_lt_succ_left, ancestor?, Option.some_inj]
    rw [hsplit, chain]
    cases hparent : tree.parent? id with
    | none => simp [ancestor?, hparent, eq_comm]
    | some parent => simp [ancestor?, hparent, ih, eq_comm]

theorem contains_of_isInternalModule {tree : Tree} {id : NodeId}
    (hinternal : tree.isInternalModule id = true) : tree.contains id = true := by
  unfold isInternalModule at hinternal
  split at hinternal
  · next hkind =>
    obtain ⟨node, hnode, -⟩ := Option.map_eq_some_iff.mp hkind
    exact contains_iff.mpr ⟨node, hnode⟩
  · cases hinternal

/-- Where chains of parents end, a node lies inside an internal module exactly when
it or one of its ancestors is one. -/
theorem isInInternalModule_iff {tree : Tree} {id : NodeId}
    (hends : tree.EndsWithin tree.size id) : tree.isInInternalModule id = true ↔
      ∃ steps above, tree.ancestor? steps id = some above ∧ tree.isInternalModule above = true := by
  rw [isInInternalModule, List.any_eq_true]
  constructor
  · rintro ⟨above, hmem, hinternal⟩
    obtain ⟨steps, -, habove⟩ := mem_chain_iff.mp hmem
    exact ⟨steps, above, habove, hinternal⟩
  · rintro ⟨steps, above, habove, hinternal⟩
    have hlt := lt_size_of_ancestor? hends habove (contains_of_isInternalModule hinternal)
    exact ⟨above, mem_chain_iff.mpr ⟨steps, hlt, habove⟩, hinternal⟩

instance decidableEndsWithin (tree : Tree) (steps : Nat) (id : NodeId) :
    Decidable (tree.EndsWithin steps id) :=
  decidable_of_iff _ endsWithin_iff.symm

theorem grounded_iff {tree : Tree} :
    tree.Grounded ↔ ∀ index < tree.size, tree.EndsWithin tree.size ⟨index⟩ := by
  refine ⟨fun hgrounded index _ => (hgrounded ⟨index⟩).choose_spec.size, fun hall id => ?_⟩
  by_cases hbound : id.index < tree.size
  · exact ⟨tree.size, hall id.index hbound⟩
  · refine ⟨0, ?_⟩
    cases hparent : tree.parent? id with
    | none => exact hparent
    | some parent => exact absurd (index_lt_of_parent? hparent) hbound

instance decidableGrounded (tree : Tree) : Decidable tree.Grounded :=
  decidable_of_iff _ grounded_iff.symm

theorem Finished.parentsHold {tree : Tree} (hfinished : tree.Finished) :
    Builder.ParentsHold tree.nodes := by
  obtain ⟨texts, steps, hbuild⟩ := hfinished
  have hempty : Builder.ParentsHold
      (Builder.ofNames (Interner.initial.internAll texts).2).nodes := by
    intro index node hnode
    simp [Builder.ofNames] at hnode
  exact (Builder.parentsHold_invariant.runAll_holds steps _ hempty).placeBodies
    (Builder.eq_of_finish hbuild).1

theorem Finished.placed {tree : Tree} (hfinished : tree.Finished) : tree.Placed := by
  obtain ⟨texts, steps, hbuild⟩ := hfinished
  have hempty : Builder.Places (Builder.ofNames (Interner.initial.internAll texts).2) := by
    refine ⟨fun index node hnode => ?_, fun index node hnode => ?_, nofun, nofun⟩ <;>
      simp [Builder.ofNames] at hnode
  exact (Builder.places_invariant.runAll_holds steps _ hempty).placed hbuild

/-- The tree that some steps build, over an interner that holds nothing else. -/
def ofSteps (steps : List BuildStep) : Tree := (Session.build [] steps).2.toOption.getD default

theorem build_ofSteps {steps : List BuildStep}
    (hbuilt : (Session.build [] steps).2.toOption.isSome = true) :
    (Session.build [] steps).2 = .ok (ofSteps steps) := by
  unfold ofSteps
  cases hresult : (Session.build [] steps).2 with
  | ok tree => rfl
  | error fault => simp [hresult, Except.toOption] at hbuilt

theorem finished_ofSteps {steps : List BuildStep}
    (hbuilt : (Session.build [] steps).2.toOption.isSome = true) : (ofSteps steps).Finished :=
  ⟨[], steps, build_ofSteps hbuilt⟩

theorem Finished.contains_parent {tree : Tree} (hfinished : tree.Finished) {id parent : NodeId}
    (hparent : tree.parent? id = some parent) : tree.contains parent = true := by
  obtain ⟨node, hnode, habove⟩ := Option.bind_eq_some_iff.mp hparent
  obtain ⟨tag, htag, -⟩ := hfinished.parentsHold id.index node hnode parent habove
  obtain ⟨holder, hholder, -⟩ := Option.map_eq_some_iff.mp htag
  exact contains_iff.mpr ⟨holder, hholder⟩

/-- A finished tree whose chains of parents end can be climbed. -/
theorem Finished.isForest {tree : Tree} (hfinished : tree.Finished) (hgrounded : tree.Grounded) :
    tree.IsForest where
  toPlaced := hfinished.placed
  climbs id := (hgrounded id).choose_spec.size
  parents _ _ hparent := hfinished.contains_parent hparent
  holds id parent hparent := by
    obtain ⟨node, hnode, habove⟩ := Option.bind_eq_some_iff.mp hparent
    obtain ⟨tag, htag, hne⟩ := hfinished.parentsHold id.index node hnode parent habove
    intro hinclude
    exact hne (Option.some.inj (htag.symm.trans hinclude))

end Tree

end Scoping
