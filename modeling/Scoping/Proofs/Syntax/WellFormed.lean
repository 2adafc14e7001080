import Scoping.Proofs.Syntax.Forest

/-!
What every finished tree is like. Pushing sees to it that a node is younger than its
children and holds whatever its kind names; adoption and linking leave each node one
place at most. All of it holds after every step, so it does not matter which steps
failed or in which order includes were adopted and linked.
-/

namespace Scoping

/-- What pushing sees to about a node and its children. -/
structure Node.Shaped (node : Node) (index : Nat) : Prop where
  older : ∀ child ∈ node.children, child.index < index
  distinct : node.children.Nodup
  operands : node.kind.operands.Sublist node.children

namespace Builder

/-- The children of a node while the tree is built. -/
def childrenAt (nodes : Array Node) (id : NodeId) : List NodeId :=
  (nodes[id.index]?.map Node.children).getD []

/-- What is adopted is listed once. -/
theorem nodup_of_adoptionFault? {builder : Builder} {earlier children : List NodeId}
    (hfault : builder.adoptionFault? earlier children = none) :
    children.Nodup ∧ ∀ child ∈ children, child ∉ earlier := by
  induction children generalizing earlier with
  | nil => simp
  | cons first rest ih =>
    rw [adoptionFault?] at hfault
    split at hfault
    · cases hfault
    · split at hfault
      · cases hfault
      · next hfree =>
        obtain ⟨hnodup, hrest⟩ := ih hfault
        simp only [Bool.or_eq_true, not_or, List.contains_iff_mem] at hfree
        refine ⟨List.nodup_cons.mpr ⟨fun hmem => hrest first hmem List.mem_cons_self, hnodup⟩,
          List.forall_mem_cons.mpr ⟨hfree.2, fun child hchild hmem => ?_⟩⟩
        exact hrest child hchild (List.mem_cons_of_mem first hmem)

/-- What holds of nodes and links while the tree is built. -/
structure Formed (builder : Builder) : Prop extends builder.Places where
  shaped : ∀ (index : Nat) (node : Node), builder.nodes[index]? = some node → node.Shaped index
  /-- Until the end, a node has a parent only as one of its children. -/
  held : ∀ id parent, parentAt builder.nodes id = some parent → id ∈ childrenAt builder.nodes parent
  sites : ∀ link ∈ builder.bodies.entries, tagAt builder.nodes link.1 = some .includeDecl
  keys : builder.bodies.keys.Nodup
  exclusive : ∀ link ∈ builder.bodies.entries, ∀ other ∈ builder.bodies.entries,
    link.2 = other.2 → link = other

theorem childrenAt_adopt_of_mem {builder : Builder} (kind : NodeKind) (children : List NodeId)
    {id parent : NodeId} (hmem : id ∈ childrenAt builder.nodes parent) :
    id ∈ childrenAt (builder.adopt kind children).nodes parent := by
  have hlt : parent.index < builder.nodes.size := by
    by_contra hge
    rw [childrenAt, Array.getElem?_eq_none (by omega)] at hmem
    cases hmem
  rwa [childrenAt, map_adopt Node.children (fun _ _ => rfl) builder kind children hlt]

theorem shaped_adopt {builder : Builder} {kind : NodeKind} {children : List NodeId}
    (hnodes : ∀ (index : Nat) (node : Node), builder.nodes[index]? = some node → node.Shaped index)
    (hfault : builder.adoptionFault? [] children = none) (hsuits : kind.Suits children)
    (index : Nat) (node : Node) (hnode : (builder.adopt kind children).nodes[index]? = some node) :
    node.Shaped index := by
  rcases cases_of_getElem?_adopt hnode with ⟨hindex, rfl⟩ | ⟨-, old, hold, rfl⟩ | hold
  · refine ⟨fun child hchild => ?_, (nodup_of_adoptionFault? hfault).1, hsuits.operands⟩
    rw [hindex]
    exact (free_of_adoptionFault? hfault hchild).1
  · obtain ⟨holder, hdistinct, hoperands⟩ := hnodes index old hold
    exact ⟨holder, hdistinct, hoperands⟩
  · exact hnodes index node hold

theorem held_adopt {builder : Builder} {kind : NodeKind} {children : List NodeId}
    (hnodes : ∀ id parent, parentAt builder.nodes id = some parent →
      id ∈ childrenAt builder.nodes parent) (id parent : NodeId)
    (hparent : parentAt (builder.adopt kind children).nodes id = some parent) :
    id ∈ childrenAt (builder.adopt kind children).nodes parent := by
  obtain ⟨node, hnode, habove⟩ := Option.bind_eq_some_iff.mp hparent
  rcases cases_of_getElem?_adopt hnode with ⟨-, rfl⟩ | ⟨hchild, old, -, rfl⟩ | hold
  · cases habove
  · obtain rfl := Option.some.inj habove
    simpa [childrenAt, getElem?_adopt] using hchild
  · exact childrenAt_adopt_of_mem kind children
      (hnodes id parent (Option.bind_eq_some_iff.mpr ⟨node, hold, habove⟩))

theorem formed_invariant : Invariant Formed where
  name builder names hbuilder :=
    ⟨places_invariant.name builder names hbuilder.toPlaces, hbuilder.shaped, hbuilder.held,
      hbuilder.sites, hbuilder.keys, hbuilder.exclusive⟩
  adopt builder kind children hbuilder hfault hsuits := by
    refine ⟨places_invariant.adopt builder kind children hbuilder.toPlaces hfault hsuits,
      shaped_adopt hbuilder.shaped hfault hsuits, held_adopt hbuilder.held, ?_, hbuilder.keys,
      hbuilder.exclusive⟩
    intro link hlink
    have htag := hbuilder.sites link hlink
    obtain ⟨site, hsite, -⟩ := Option.map_eq_some_iff.mp htag
    rw [tagAt_adopt_of_lt _ _ _ (Array.getElem?_eq_some_iff.mp hsite).1, htag]
  link builder site body hbuilder hsite hfree := by
    -- the body was linked to no include before, so it is the body of no other one
    have hnew : ∀ link ∈ builder.bodies.entries, link.2 ≠ body := by
      intro link hlink heq
      obtain ⟨node, -, -, htaken⟩ := hfree
      have hlinked : body ∈ builder.linked := heq ▸ hbuilder.bodies link hlink
      simp [isTaken, hlinked] at htaken
    refine ⟨places_invariant.link builder site body hbuilder.toPlaces hsite hfree, hbuilder.shaped,
      hbuilder.held, ?_, Assoc.nodup_keys_insert hbuilder.keys site body, ?_⟩
    · intro link hlink
      rcases Assoc.mem_entries_insert hlink with rfl | hold
      · exact hsite
      · exact hbuilder.sites link hold
    · intro link hlink other hother heq
      rcases Assoc.mem_entries_insert hlink with rfl | hold
      · rcases Assoc.mem_entries_insert hother with rfl | hold'
        · rfl
        · exact absurd heq.symm (hnew other hold')
      · rcases Assoc.mem_entries_insert hother with rfl | hold'
        · exact absurd heq (hnew link hold)
        · exact hbuilder.exclusive link hold other hold' heq

/-- Placing bodies gives each the parent of its include, and touches no other node. -/
theorem parentAt_placeBodies {nodes placed : Array Node} {bodies : List (NodeId × NodeId)}
    (hsites : ∀ link ∈ bodies, tagAt nodes link.1 = some .includeDecl)
    (hbodies : ∀ link ∈ bodies, tagAt nodes link.2 = some .moduleDecl)
    (hdistinct : (bodies.map Prod.snd).Nodup) (hplaced : placeBodies nodes bodies = .ok placed) :
    (∀ id, id ∉ bodies.map Prod.snd → parentAt placed id = parentAt nodes id) ∧
      ∀ link ∈ bodies, ∃ parent, parentAt nodes link.1 = some parent ∧
        parentAt placed link.2 = some parent := by
  induction bodies generalizing nodes with
  | nil =>
    obtain rfl := Except.ok.inj hplaced
    simp
  | cons link rest ih =>
    obtain ⟨site, body⟩ := link
    obtain ⟨hbody, hrest⟩ := List.nodup_cons.mp hdistinct
    obtain ⟨parent, hparent, hmore⟩ := placeBodies_cons_eq_ok hplaced
    obtain ⟨hkept, hmoved⟩ := ih
      (fun link hlink => by rw [tagAt_setParent]; exact hsites link (List.mem_cons_of_mem _ hlink))
      (fun link hlink => by rw [tagAt_setParent]; exact hbodies link (List.mem_cons_of_mem _ hlink))
      hrest hmore
    have hbefore : ∀ id, id ≠ body →
        parentAt (setParent nodes parent body) id = parentAt nodes id :=
      fun id hne => parentAt_setParent_of_ne nodes parent hne.symm
    constructor
    · intro id hid
      obtain ⟨hne, hmore⟩ := List.ne_and_not_mem_of_not_mem_cons hid
      rw [hkept id hmore, hbefore id hne]
    · intro link hlink
      rcases List.mem_cons.mp hlink with rfl | hmore
      · obtain ⟨node, hnode, -⟩ :=
          Option.map_eq_some_iff.mp (hbodies (site, body) List.mem_cons_self)
        refine ⟨parent, hparent, ?_⟩
        rw [hkept body hbody, parentAt, getElem?_setParent, if_pos rfl, hnode]
        rfl
      · obtain ⟨above, hsite, hbelow⟩ := hmoved link hmore
        have hne : link.1 ≠ body := by
          intro heq
          have hinclude := hsites link hlink
          rw [heq, hbodies (site, body) List.mem_cons_self] at hinclude
          cases hinclude
        exact ⟨above, by rw [← hbefore link.1 hne, hsite], hbelow⟩

end Builder

namespace Tree

/-- The child lists of a tree, one after another. -/
def childLists (tree : Tree) : List NodeId := tree.nodes.toList.flatMap Node.children

/-- How a node that has a parent is attached to it. -/
inductive Attached (tree : Tree) (id parent : NodeId) : Prop
  /-- As one of its children, and in no other place. -/
  | child (honce : tree.childLists.count id = 1) (hmem : id ∈ tree.children parent)
  /-- As the body of one include, which is a node of the same parent. -/
  | body (site : NodeId) (hmodule : tree.tag? id = some .moduleDecl)
    (hinclude : tree.tag? site = some .includeDecl)
    (hlinked : ∀ other, tree.body? other = some id ↔ other = site)
    (hparent : tree.parent? site = some parent) (hnone : id ∉ tree.childLists)

/-- What every finished tree is like. -/
structure WellFormed (tree : Tree) : Prop where
  numbered : ∀ (index : Nat) (node : Node), tree.nodes[index]? = some node → node.id = ⟨index⟩
  older : ∀ id, ∀ child ∈ tree.children id, child.index < id.index
  distinct : ∀ id, (tree.children id).Nodup
  adopted : ∀ id, ∀ child ∈ tree.children id, tree.parent? child = some id
  attached : ∀ id parent, tree.parent? id = some parent → tree.Attached id parent
  operands : ∀ id kind, tree.kind? id = some kind → kind.operands ⊆ tree.children id
  /-- The table has each module without parent under its name, -/
  toplevel : ∀ name id, tree.toplevel? name = some id ↔
    tree.parent? id = none ∧ ∃ internal, tree.kind? id = some (.moduleDecl name internal)
  /-- and these are all the nodes without parent. -/
  tops : ∀ id, id ∈ tree.roots.entries.map Prod.snd ↔
    tree.contains id = true ∧ tree.parent? id = none

theorem children_eq_childrenAt (tree : Tree) (id : NodeId) :
    tree.children id = Builder.childrenAt tree.nodes id := by
  unfold children Builder.childrenAt node?
  cases tree.nodes[id.index]? <;> rfl

/-- A node is in the child lists when it is in one of them. -/
theorem mem_childLists_iff {tree : Tree} {id : NodeId} :
    id ∈ tree.childLists ↔ ∃ parent, id ∈ tree.children parent := by
  simp only [childLists, List.mem_flatMap, Array.mem_toList_iff]
  constructor
  · rintro ⟨node, hnode, hchild⟩
    obtain ⟨index, hindex⟩ := Array.mem_iff_getElem?.mp hnode
    refine ⟨⟨index⟩, ?_⟩
    simpa [children, node?, hindex] using hchild
  · rintro ⟨parent, hchild⟩
    unfold children at hchild
    split at hchild
    · next node hnode => exact ⟨node, Array.mem_of_getElem? hnode, hchild⟩
    · cases hchild

/-- Where no list has a child twice and all children know their parents, no node is
listed twice. -/
theorem nodup_childLists {tree : Tree} (hdistinct : ∀ id, (tree.children id).Nodup)
    (hadopted : ∀ id, ∀ child ∈ tree.children id, tree.parent? child = some id) :
    tree.childLists.Nodup := by
  have hchildren : ∀ (index : Nat) (hindex : index < tree.nodes.size),
      tree.children ⟨index⟩ = tree.nodes[index].children := by
    intro index hindex
    simp [children, node?, hindex]
  refine List.nodup_flatMap.mpr ⟨fun node hnode => ?_, List.pairwise_iff_getElem.mpr ?_⟩
  · obtain ⟨index, hindex, rfl⟩ := List.mem_iff_getElem.mp hnode
    simp only [Array.length_toList] at hindex
    simpa [hchildren index hindex] using hdistinct ⟨index⟩
  · intro first second hfirst hsecond hlt child hmem hmem'
    simp only [Array.length_toList] at hfirst hsecond
    have hleft := hadopted ⟨first⟩ child (by simpa [hchildren first hfirst] using hmem)
    have hright := hadopted ⟨second⟩ child (by simpa [hchildren second hsecond] using hmem')
    simp only [hleft, Option.some.injEq, NodeId.mk.injEq] at hright
    omega

end Tree

namespace Builder

theorem formed_empty (names : Interner) : (ofNames names).Formed := by
  refine ⟨⟨fun index node hnode => ?_, fun index node hnode => ?_, nofun, nofun⟩,
    fun index node hnode => ?_, fun id parent hparent => ?_, nofun, List.nodup_nil, nofun⟩
  all_goals simp [ofNames, parentAt] at *

variable {builder : Builder} {tree : Tree}

/-- Ending the construction moves linked bodies, and changes nothing else about nodes. -/
theorem Formed.shaped_of_finish (hbuilder : builder.Formed) (hfinish : builder.finish = .ok tree)
    {id : NodeId} {node : Node} (hnode : tree.node? id = some node) :
    node.id = id ∧ node.Shaped id.index := by
  have hview := map_placeBodies (fun node => (node.id, node.kind, node.children)) (fun _ _ => rfl)
    (eq_of_finish hfinish).1 id.index
  rw [show tree.nodes[id.index]? = some node from hnode, Option.map_some] at hview
  obtain ⟨old, hold, hsame⟩ := Option.map_eq_some_iff.mp hview.symm
  simp only [Prod.mk.injEq] at hsame
  obtain ⟨hid, hkind, hchildren⟩ := hsame
  obtain ⟨holder, hdistinct, hoperands⟩ := hbuilder.shaped id.index old hold
  rw [hchildren] at holder hdistinct hoperands
  rw [hkind] at hoperands
  exact ⟨hid ▸ hbuilder.numbered id.index old hold, holder, hdistinct, hoperands⟩

/-- Ending the construction keeps the child lists. -/
theorem children_of_finish (hfinish : builder.finish = .ok tree) (id : NodeId) :
    tree.children id = childrenAt builder.nodes id := by
  rw [Tree.children_eq_childrenAt, childrenAt, childrenAt,
    map_placeBodies Node.children (fun _ _ => rfl) (eq_of_finish hfinish).1]

/-- In the end a linked body has the parent of its include, and every other node the
parent that it was adopted by. -/
theorem Formed.parent?_of_finish (hbuilder : builder.Formed) (hfinish : builder.finish = .ok tree) :
    (∀ id, id ∉ builder.bodies.entries.map Prod.snd →
      tree.parent? id = parentAt builder.nodes id) ∧
    ∀ link ∈ builder.bodies.entries, ∃ parent,
      tree.parent? link.1 = some parent ∧ tree.parent? link.2 = some parent := by
  have hmodules : ∀ link ∈ builder.bodies.entries, tagAt builder.nodes link.2 = some .moduleDecl :=
    fun link hlink => hbuilder.linked _ (hbuilder.bodies link hlink)
  have hdistinct : (builder.bodies.entries.map Prod.snd).Nodup :=
    (List.Nodup.of_map Prod.fst hbuilder.keys).map_on hbuilder.exclusive
  obtain ⟨hkept, hmoved⟩ :=
    parentAt_placeBodies hbuilder.sites hmodules hdistinct (eq_of_finish hfinish).1
  refine ⟨hkept, fun link hlink => ?_⟩
  obtain ⟨parent, hsite, hbody⟩ := hmoved link hlink
  have hne : link.1 ∉ builder.bodies.entries.map Prod.snd := by
    intro hmem
    obtain ⟨other, hother, heq⟩ := List.mem_map.mp hmem
    have hinclude := hbuilder.sites link hlink
    rw [← heq, hmodules other hother] at hinclude
    cases hinclude
  exact ⟨parent, (hkept link.1 hne).trans hsite, hbody⟩

/-- The links of a finished tree are those that were made. -/
theorem Formed.body?_eq_some_iff (hbuilder : builder.Formed) (hfinish : builder.finish = .ok tree)
    {site body : NodeId} :
    tree.body? site = some body ↔ (site, body) ∈ builder.bodies.entries := by
  rw [Tree.body?, (eq_of_finish hfinish).2.2, Assoc.get?_eq_some_iff_mem hbuilder.keys]

/-- A linked body is a child of no node. -/
theorem Formed.not_mem_childLists (hbuilder : builder.Formed) (hfinish : builder.finish = .ok tree)
    {link : NodeId × NodeId} (hlink : link ∈ builder.bodies.entries) :
    link.2 ∉ tree.childLists := by
  intro hmem
  obtain ⟨holder, hchild⟩ := Tree.mem_childLists_iff.mp hmem
  rw [children_of_finish hfinish, childrenAt] at hchild
  cases hnode : builder.nodes[holder.index]? with
  | none => simp [hnode] at hchild
  | some node =>
    simp only [hnode, Option.map_some, Option.getD_some] at hchild
    exact (hbuilder.adopted _ node hnode _ hchild).1 (hbuilder.bodies link hlink)

/-- A node has its parent as a child of it or as the body of an include. -/
theorem Formed.attached_of_finish (hbuilder : builder.Formed) (hfinish : builder.finish = .ok tree)
    (hlists : tree.childLists.Nodup) {id parent : NodeId}
    (hparent : tree.parent? id = some parent) : tree.Attached id parent := by
  have htag : ∀ other, tree.tag? other = tagAt builder.nodes other := fun other =>
    map_placeBodies Node.tag (fun _ _ => rfl) (eq_of_finish hfinish).1 other.index
  obtain ⟨hkept, hmoved⟩ := hbuilder.parent?_of_finish hfinish
  by_cases hid : id ∈ builder.bodies.entries.map Prod.snd
  · obtain ⟨link, hlink, rfl⟩ := List.mem_map.mp hid
    obtain ⟨above, hsite, hbelow⟩ := hmoved link hlink
    obtain rfl : above = parent := Option.some.inj (hbelow.symm.trans hparent)
    refine .body link.1 ((htag _).trans (hbuilder.linked _ (hbuilder.bodies link hlink)))
      ((htag _).trans (hbuilder.sites link hlink)) (fun other => ?_) hsite
      (hbuilder.not_mem_childLists hfinish hlink)
    rw [hbuilder.body?_eq_some_iff hfinish]
    constructor
    · intro hother
      exact congrArg Prod.fst (hbuilder.exclusive _ hother link hlink rfl)
    · rintro rfl
      exact hlink
  · have hchild : id ∈ tree.children parent := by
      rw [children_of_finish hfinish]
      exact hbuilder.held id parent ((hkept id hid).symm.trans hparent)
    exact .child (List.count_eq_one_of_mem hlists (Tree.mem_childLists_iff.mpr ⟨parent, hchild⟩))
      hchild

/-- The table of top-level modules lists the modules without parent, each under its name. -/
theorem Formed.mem_roots_iff (hbuilder : builder.Formed) (hfinish : builder.finish = .ok tree)
    {name : Name} {id : NodeId} : (name, id) ∈ tree.roots.entries ↔
      tree.parent? id = none ∧ ∃ internal, tree.kind? id = some (.moduleDecl name internal) := by
  obtain ⟨-, hcollected, -⟩ := eq_of_finish hfinish
  obtain ⟨-, -, hentries⟩ := collectRoots_eq_ok (by simp [Assoc.keys, Assoc.empty]) hcollected
  rw [hentries]
  constructor
  · rintro (hnone | ⟨node, hmem, rfl, hparent, internal, hkind⟩)
    · cases hnone
    · obtain ⟨index, hindex⟩ := Array.mem_iff_getElem?.mp (Array.mem_toList_iff.mp hmem)
      have hid : node.id = ⟨index⟩ := (hbuilder.shaped_of_finish hfinish hindex).1
      have hnode : tree.node? node.id = some node := by
        rw [hid]
        exact hindex
      simp [Tree.parent?, Tree.kind?, hnode, hparent, hkind]
  · rintro ⟨hparent, internal, hkind⟩
    obtain ⟨node, hnode, hkind⟩ := Option.map_eq_some_iff.mp hkind
    have hnone : node.parent = none := by simpa [Tree.parent?, hnode] using hparent
    exact .inr ⟨node, Array.mem_toList_iff.mpr (Array.mem_of_getElem? hnode),
      (hbuilder.shaped_of_finish hfinish hnode).1, hnone, internal, hkind⟩

/-- Every node without parent is in the table. -/
theorem Formed.mem_tops_iff (hbuilder : builder.Formed) (hfinish : builder.finish = .ok tree)
    {id : NodeId} : id ∈ tree.roots.entries.map Prod.snd ↔
      tree.contains id = true ∧ tree.parent? id = none := by
  constructor
  · intro hmem
    obtain ⟨⟨name, top⟩, hentry, rfl⟩ := List.mem_map.mp hmem
    obtain ⟨hparent, internal, hkind⟩ := (hbuilder.mem_roots_iff hfinish).mp hentry
    obtain ⟨node, hnode, -⟩ := Option.map_eq_some_iff.mp hkind
    exact ⟨Tree.contains_iff.mpr ⟨node, hnode⟩, hparent⟩
  · rintro ⟨hcontains, hparent⟩
    have htag := (hbuilder.toPlaces.placed hfinish).tops id hcontains hparent
    obtain ⟨node, hnode, hmodule⟩ := Option.map_eq_some_iff.mp htag
    cases hkind : node.kind with
    | moduleDecl name internal =>
      refine List.mem_map.mpr ⟨(name, id), (hbuilder.mem_roots_iff hfinish).mpr ?_, rfl⟩
      exact ⟨hparent, internal, by simp [Tree.kind?, hnode, hkind]⟩
    | _ => simp [Node.tag, hkind, NodeKind.tag] at hmodule

/-- What a builder ends with is well formed. -/
theorem Formed.wellFormed (hbuilder : builder.Formed) (hfinish : builder.finish = .ok tree) :
    tree.WellFormed := by
  have hadopted := (hbuilder.toPlaces.placed hfinish).children
  have hshaped : ∀ id, (∀ child ∈ tree.children id, child.index < id.index) ∧
      (tree.children id).Nodup := by
    intro id
    unfold Tree.children
    split
    · next node hnode =>
      obtain ⟨-, holder, hdistinct, -⟩ := hbuilder.shaped_of_finish hfinish hnode
      exact ⟨holder, hdistinct⟩
    · simp
  have hlists := Tree.nodup_childLists (fun id => (hshaped id).2) hadopted
  refine ⟨fun index node hnode => ?_, fun id => (hshaped id).1, fun id => (hshaped id).2, hadopted,
    fun id parent hparent => hbuilder.attached_of_finish hfinish hlists hparent,
    fun id kind hkind => ?_, fun name id => ?_, fun id => hbuilder.mem_tops_iff hfinish⟩
  · exact (hbuilder.shaped_of_finish hfinish hnode).1
  · obtain ⟨node, hnode, rfl⟩ := Option.map_eq_some_iff.mp hkind
    simpa [Tree.children, hnode] using (hbuilder.shaped_of_finish hfinish hnode).2.operands.subset
  · obtain ⟨-, hcollected, -⟩ := eq_of_finish hfinish
    obtain ⟨-, hkeys, -⟩ := collectRoots_eq_ok (by simp [Assoc.keys, Assoc.empty]) hcollected
    rw [Tree.toplevel?, Assoc.get?_eq_some_iff_mem hkeys, hbuilder.mem_roots_iff hfinish]

end Builder

namespace Tree

/-- Every build leaves a builder whose nodes and links are in order. -/
theorem Finished.exists_formed {tree : Tree} (hfinished : tree.Finished) :
    ∃ builder : Builder, builder.Formed ∧ builder.finish = .ok tree := by
  obtain ⟨texts, steps, hbuild⟩ := hfinished
  exact ⟨_, Builder.formed_invariant.runAll_holds steps _ (Builder.formed_empty _), hbuild⟩

/-- Whatever steps were tried, and whichever of them failed, a tree that the construction
ends with is well formed. -/
theorem wellFormed_of_build {texts : List String} {steps : List BuildStep} {tree : Tree}
    (hbuild : (Session.build texts steps).2 = .ok tree) : tree.WellFormed := by
  obtain ⟨builder, hbuilder, hfinish⟩ := Finished.exists_formed ⟨texts, steps, hbuild⟩
  exact hbuilder.wellFormed hfinish

/-- Steps that link a module to an include before the include is adopted, two of which fail. -/
def includingSteps : List BuildStep :=
  [.variableDecl "x" none, .variableDecl "1x" none, .includeDecl "Sub", .moduleDecl false "Sub" [⟨0⟩],
    .link ⟨1⟩ ⟨2⟩, .moduleDecl false "Other" [⟨2⟩], .dotted "Sub.x", .clause ⟨4⟩ .unlimited [],
    .importStmt .unstated [⟨5⟩], .moduleDecl false "Outer" [⟨1⟩, ⟨6⟩]]

theorem including_wellFormed :
    (Session.build [] includingSteps).2 = .ok (ofSteps includingSteps) ∧
      (ofSteps includingSteps).WellFormed ∧
      (ofSteps includingSteps).parent? ⟨2⟩ = some ⟨7⟩ ∧
      (ofSteps includingSteps).children ⟨7⟩ = [⟨1⟩, ⟨6⟩] := by
  have hbuild := build_ofSteps (show (Session.build [] includingSteps).2.toOption.isSome = true by
    decide +kernel)
  exact ⟨hbuild, wellFormed_of_build hbuild, by decide +kernel, by decide +kernel⟩

end Tree

end Scoping
