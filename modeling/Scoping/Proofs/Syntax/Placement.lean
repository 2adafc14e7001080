import Scoping.Proofs.Syntax.Building

/-!
Where the nodes of a finished tree are. A node is the parent of its children, a
linked body is a module that is no node's child, and whatever has no parent in
the end is a top-level module.
-/

namespace Scoping

namespace Assoc

variable {κ α : Type} [DecidableEq κ]

theorem mem_entries_of_get? {map : Assoc κ α} {key : κ} {value : α}
    (hvalue : map.get? key = some value) : (key, value) ∈ map.entries := by
  obtain ⟨⟨found, _⟩, hfind, rfl⟩ := Option.map_eq_some_iff.mp hvalue
  obtain rfl : found = key := by simpa using List.find?_some hfind
  exact List.mem_of_find?_eq_some hfind

/-- Setting a value brings in one entry and keeps others at most. -/
theorem mem_entries_insert {map : Assoc κ α} {key : κ} {value : α} {entry : κ × α}
    (hentry : entry ∈ (map.insert key value).entries) :
    entry = (key, value) ∨ entry ∈ map.entries := by
  obtain ⟨entries⟩ := map
  change entry ∈ alter key (fun _ => value) entries at hentry
  induction entries with
  | nil => exact .inl (List.mem_singleton.mp hentry)
  | cons first rest ih =>
    obtain ⟨other, old⟩ := first
    rw [alter] at hentry
    split at hentry
    · exact (List.mem_cons.mp hentry).imp_right (List.mem_cons_of_mem _)
    · rcases List.mem_cons.mp hentry with rfl | hmore
      · exact .inr List.mem_cons_self
      · exact (ih hmore).imp_right (List.mem_cons_of_mem _)

theorem mem_keys_insert {map : Assoc κ α} {key other : κ} {value : α}
    (hother : other ∈ (map.insert key value).keys) : other = key ∨ other ∈ map.keys := by
  obtain ⟨entry, hentry, rfl⟩ := List.mem_map.mp hother
  rcases mem_entries_insert hentry with rfl | hold
  · exact .inl rfl
  · exact .inr (List.mem_map_of_mem hold)

/-- Setting a value sets no key twice. -/
theorem nodup_keys_insert {map : Assoc κ α} (hkeys : map.keys.Nodup) (key : κ) (value : α) :
    (map.insert key value).keys.Nodup := by
  obtain ⟨entries⟩ := map
  induction entries with
  | nil => simp [insert, alter, keys]
  | cons entry rest ih =>
    obtain ⟨other, old⟩ := entry
    obtain ⟨hnew, hrest⟩ := List.nodup_cons.mp hkeys
    by_cases heq : other = key
    · simpa [insert, alter, keys, heq] using hkeys
    · have htail : (alter key (fun _ => value) rest).map Prod.fst =
          (insert ⟨rest⟩ key value).keys := rfl
      simp only [insert, alter, keys, heq, if_false, List.map_cons]
      refine List.nodup_cons.mpr ⟨fun hmem => ?_, ih hrest⟩
      rw [htail] at hmem
      exact (mem_keys_insert hmem).elim heq hnew

/-- Where no key is set twice, every entry can be read. -/
theorem get?_eq_some_iff_mem {map : Assoc κ α} (hkeys : map.keys.Nodup) {key : κ} {value : α} :
    map.get? key = some value ↔ (key, value) ∈ map.entries := by
  refine ⟨mem_entries_of_get?, fun hentry => ?_⟩
  obtain ⟨entries⟩ := map
  induction entries with
  | nil => cases hentry
  | cons entry rest ih =>
    obtain ⟨other, old⟩ := entry
    obtain ⟨hnew, hrest⟩ := List.nodup_cons.mp hkeys
    rcases List.mem_cons.mp hentry with hfirst | hmore
    · obtain ⟨rfl, rfl⟩ := Prod.mk.inj hfirst
      simp [get?]
    · have hne : other ≠ key := by
        rintro rfl
        exact hnew (List.mem_map.mpr ⟨_, hmore, rfl⟩)
      simpa [get?, hne] using ih hrest hmore

/-- Setting the value of a new key adds one entry and keeps the others. -/
theorem mem_entries_insert_iff {map : Assoc κ α} (hkeys : map.keys.Nodup) {key : κ}
    (hnone : map.get? key = none) {value : α} {entry : κ × α} :
    entry ∈ (map.insert key value).entries ↔ entry = (key, value) ∨ entry ∈ map.entries := by
  refine ⟨mem_entries_insert, ?_⟩
  obtain ⟨other, found⟩ := entry
  rw [← get?_eq_some_iff_mem (nodup_keys_insert hkeys key value), ← get?_eq_some_iff_mem hkeys]
  rintro (heq | hold)
  · obtain ⟨rfl, rfl⟩ := Prod.mk.inj heq
    exact get?_insert_self map other found
  · have hne : other ≠ key := by
      rintro rfl
      rw [hnone] at hold
      cases hold
    rw [get?_insert_of_ne map hne, hold]

end Assoc

namespace Builder

/-- The parent of a node while the tree is built. -/
def parentAt (nodes : Array Node) (id : NodeId) : Option NodeId :=
  nodes[id.index]?.bind Node.parent

theorem parentAt_setParent_of_ne (nodes : Array Node) (parent : NodeId) {child id : NodeId}
    (hne : child ≠ id) : parentAt (setParent nodes parent child) id = parentAt nodes id := by
  rw [parentAt, parentAt, getElem?_setParent,
    if_neg fun heq : child.index = id.index => hne (congrArg NodeId.mk heq)]

/-- What is adopted was there, had no parent and was linked to no include. -/
theorem free_of_adoptionFault? {builder : Builder} {earlier children : List NodeId}
    (hfault : builder.adoptionFault? earlier children = none) {child : NodeId}
    (hchild : child ∈ children) :
    child.index < builder.nodes.size ∧ parentAt builder.nodes child = none ∧
      child ∉ builder.linked := by
  induction children generalizing earlier with
  | nil => cases hchild
  | cons first rest ih =>
    rw [adoptionFault?] at hfault
    split at hfault
    · cases hfault
    · next node hnode =>
      split at hfault
      · cases hfault
      · next hfree =>
        rcases List.mem_cons.mp hchild with rfl | hmore
        · simp only [isTaken, Bool.or_eq_true, not_or, List.contains_iff_mem,
            Option.not_isSome_iff_eq_none] at hfree
          refine ⟨(Array.getElem?_eq_some_iff.mp hnode).1, ?_, hfree.1.2⟩
          rw [parentAt, show builder.nodes[child.index]? = some node from hnode]
          exact hfree.1.1
        · exact ih hfault hmore

/-- The children of each node have it as their parent, and none is linked to an include. -/
def Adopted (nodes : Array Node) (linked : List NodeId) : Prop :=
  ∀ (index : Nat) (node : Node), nodes[index]? = some node → ∀ child ∈ node.children,
    child ∉ linked ∧ parentAt nodes child = some ⟨index⟩

/-- What holds of the places of nodes while the tree is built. -/
structure Places (builder : Builder) : Prop where
  numbered : ∀ (index : Nat) (node : Node), builder.nodes[index]? = some node → node.id = ⟨index⟩
  adopted : Adopted builder.nodes builder.linked
  linked : ∀ body ∈ builder.linked, tagAt builder.nodes body = some .moduleDecl
  bodies : ∀ link ∈ builder.bodies.entries, link.2 ∈ builder.linked

theorem Adopted.adopt {builder : Builder} (hnodes : Adopted builder.nodes builder.linked)
    {kind : NodeKind} {children : List NodeId}
    (hfault : builder.adoptionFault? [] children = none) :
    Adopted (builder.adopt kind children).nodes builder.linked := by
  -- what had a parent keeps it, since adoption takes nodes without parent only
  have hkept : ∀ child parent, parentAt builder.nodes child = some parent →
      parentAt (builder.adopt kind children).nodes child = some parent := by
    intro child parent hparent
    obtain ⟨node, hnode, -⟩ := Option.bind_eq_some_iff.mp hparent
    have hchild : child ∉ children := fun hmem => by
      rw [(free_of_adoptionFault? hfault hmem).2.1] at hparent
      cases hparent
    rw [parentAt, getElem?_adopt, if_neg (Nat.ne_of_lt (Array.getElem?_eq_some_iff.mp hnode).1),
      if_neg hchild]
    exact hparent
  have hold : ∀ (index : Nat) (node : Node), builder.nodes[index]? = some node →
      ∀ child ∈ node.children, child ∉ builder.linked ∧
        parentAt (builder.adopt kind children).nodes child = some ⟨index⟩ :=
    fun index node hnode child hchild =>
      (hnodes index node hnode child hchild).imp_right (hkept child _)
  intro index node hnode
  rcases cases_of_getElem?_adopt hnode with ⟨hindex, rfl⟩ | ⟨-, old, hbefore, rfl⟩ | hbefore
  · intro child hchild
    obtain ⟨hlt, -, hfree⟩ := free_of_adoptionFault? hfault hchild
    obtain ⟨old, hold⟩ : ∃ old, builder.nodes[child.index]? = some old :=
      ⟨_, Array.getElem?_eq_getElem hlt⟩
    refine ⟨hfree, ?_⟩
    rw [parentAt, getElem?_adopt, if_neg (Nat.ne_of_lt hlt),
      if_pos (show (⟨child.index⟩ : NodeId) ∈ children from hchild), hold, hindex]
    rfl
  · exact hold index old hbefore
  · exact hold index node hbefore

theorem numbered_adopt {builder : Builder}
    (hnodes : ∀ (index : Nat) (node : Node), builder.nodes[index]? = some node → node.id = ⟨index⟩)
    (kind : NodeKind) (children : List NodeId) (index : Nat) (node : Node)
    (hnode : (builder.adopt kind children).nodes[index]? = some node) : node.id = ⟨index⟩ := by
  rcases cases_of_getElem?_adopt hnode with ⟨-, rfl⟩ | ⟨-, old, hbefore, rfl⟩ | hbefore
  · rfl
  · exact hnodes index old hbefore
  · exact hnodes index node hbefore

theorem places_invariant : Invariant Places where
  name _ _ hbuilder := ⟨hbuilder.numbered, hbuilder.adopted, hbuilder.linked, hbuilder.bodies⟩
  adopt builder kind children hbuilder hfault _ := by
    refine ⟨numbered_adopt hbuilder.numbered kind children, hbuilder.adopted.adopt hfault, ?_,
      hbuilder.bodies⟩
    intro body hbody
    have htag := hbuilder.linked body hbody
    obtain ⟨node, hnode, -⟩ := Option.map_eq_some_iff.mp htag
    rw [tagAt_adopt_of_lt _ _ _ (Array.getElem?_eq_some_iff.mp hnode).1, htag]
  link builder site body hbuilder _ hfree := by
    obtain ⟨node, hnode, htag, htaken⟩ := hfree
    simp only [isTaken, Bool.or_eq_false_iff, Option.isSome_eq_false_iff,
      Option.isNone_iff_eq_none] at htaken
    have hnone : parentAt builder.nodes body = none := by
      rw [parentAt, show builder.nodes[body.index]? = some node from hnode]
      exact htaken.1
    refine ⟨hbuilder.numbered, fun index holder hholder child hchild => ?_, fun other hother => ?_,
      fun link hlink => ?_⟩
    · obtain ⟨hfree, hparent⟩ := hbuilder.adopted index holder hholder child hchild
      refine ⟨fun hmem => ?_, hparent⟩
      rcases List.mem_cons.mp hmem with rfl | hold
      · rw [hnone] at hparent
        cases hparent
      · exact hfree hold
    · rcases List.mem_cons.mp hother with rfl | hold
      · exact Option.map_eq_some_iff.mpr ⟨node, hnode, htag⟩
      · exact hbuilder.linked other hold
    · rcases Assoc.mem_entries_insert hlink with rfl | hold
      · exact List.mem_cons_self
      · exact List.mem_cons_of_mem _ (hbuilder.bodies link hold)

/-- Placing a body first gives it the parent that its include has. -/
theorem placeBodies_cons_eq_ok {nodes placed : Array Node} {link : NodeId × NodeId}
    {rest : List (NodeId × NodeId)} (hplaced : placeBodies nodes (link :: rest) = .ok placed) :
    ∃ parent, parentAt nodes link.1 = some parent ∧
      placeBodies (setParent nodes parent link.2) rest = .ok placed := by
  obtain ⟨site, body⟩ := link
  rw [placeBodies] at hplaced
  split at hplaced
  · cases hplaced
  · next parent hparent => exact ⟨parent, hparent, hplaced⟩

/-- Placing bodies touches no parent but theirs. -/
theorem adopted_placeBodies {linked : List NodeId} {nodes placed : Array Node}
    (hnodes : Adopted nodes linked) {bodies : List (NodeId × NodeId)}
    (hbodies : ∀ link ∈ bodies, link.2 ∈ linked) (hplaced : placeBodies nodes bodies = .ok placed) :
    Adopted placed linked := by
  induction bodies generalizing nodes with
  | nil =>
    obtain rfl := Except.ok.inj hplaced
    exact hnodes
  | cons link rest ih =>
    obtain ⟨hbody, hrest⟩ := List.forall_mem_cons.mp hbodies
    obtain ⟨parent, -, hmore⟩ := placeBodies_cons_eq_ok hplaced
    refine ih (fun index node hnode child hchild => ?_) hrest hmore
    have hview := map_setParent Node.children (fun _ _ => rfl) nodes parent link.2 index
    rw [hnode, Option.map_some] at hview
    obtain ⟨old, hold, hsame⟩ := Option.map_eq_some_iff.mp hview.symm
    obtain ⟨hfree, hparent⟩ := hnodes index old hold child (hsame ▸ hchild)
    refine ⟨hfree, ?_⟩
    rw [parentAt_setParent_of_ne nodes parent fun heq : link.2 = child => hfree (heq ▸ hbody),
      hparent]

/-- Placing bodies moves nodes, and changes nothing else about them. -/
theorem map_placeBodies {α : Type} (view : Node → α)
    (hview : ∀ node parent, view { node with parent } = view node) {nodes placed : Array Node}
    {bodies : List (NodeId × NodeId)} (hplaced : placeBodies nodes bodies = .ok placed)
    (index : Nat) : placed[index]?.map view = nodes[index]?.map view := by
  induction bodies generalizing nodes with
  | nil =>
    obtain rfl := Except.ok.inj hplaced
    rfl
  | cons link rest ih =>
    obtain ⟨parent, -, hmore⟩ := placeBodies_cons_eq_ok hplaced
    rw [ih hmore, map_setParent view hview]

/-- Collecting succeeds only when whatever has no parent is a module, and it collects
just these modules, each under its name. -/
theorem collectRoots_eq_ok {names : Interner} {roots collected : Assoc Name NodeId}
    {nodes : List Node} (hkeys : roots.keys.Nodup)
    (hcollected : collectRoots names roots nodes = .ok collected) :
    (∀ node ∈ nodes, node.parent = none → node.tag = .moduleDecl) ∧ collected.keys.Nodup ∧
      ∀ name id, (name, id) ∈ collected.entries ↔ (name, id) ∈ roots.entries ∨
        ∃ node ∈ nodes, node.id = id ∧ node.parent = none ∧
          ∃ internal, node.kind = .moduleDecl name internal := by
  induction nodes generalizing roots with
  | nil =>
    obtain rfl := Except.ok.inj hcollected
    exact ⟨nofun, hkeys, by simp⟩
  | cons node rest ih =>
    rw [collectRoots] at hcollected
    split at hcollected
    · next hparent =>
      obtain ⟨htops, hnodup, hentries⟩ := ih hkeys hcollected
      refine ⟨List.forall_mem_cons.mpr ⟨fun hnone => ?_, htops⟩, hnodup, fun name id => ?_⟩
      · rw [hparent] at hnone
        cases hnone
      · simp [hentries, hparent]
    · next added internal hparent hkind =>
      split at hcollected
      · cases hcollected
      · next hnew =>
        obtain ⟨htops, hnodup, hentries⟩ :=
          ih (Assoc.nodup_keys_insert hkeys added node.id) hcollected
        have htag : node.tag = .moduleDecl := by rw [Node.tag, hkind, NodeKind.tag]
        refine ⟨List.forall_mem_cons.mpr ⟨fun _ => htag, htops⟩, hnodup, fun name id => ?_⟩
        rw [hentries, Assoc.mem_entries_insert_iff hkeys hnew]
        simp only [Prod.mk.injEq, List.exists_mem_cons_iff, hkind, hparent, NodeKind.moduleDecl.injEq,
          true_and, exists_and_left, exists_eq', and_true]
        constructor
        · rintro ((⟨rfl, rfl⟩ | hold) | hmore)
          · exact .inr (.inl ⟨rfl, rfl⟩)
          · exact .inl hold
          · exact .inr (.inr hmore)
        · rintro (hold | ⟨rfl, rfl⟩ | hmore)
          · exact .inl (.inr hold)
          · exact .inl (.inl ⟨rfl, rfl⟩)
          · exact .inr hmore
    · cases hcollected

end Builder

namespace Tree

/-- Where the nodes of a tree are. -/
structure Placed (tree : Tree) : Prop where
  children : ∀ id child, child ∈ tree.children id → tree.parent? child = some id
  tops : ∀ id, tree.contains id = true → tree.parent? id = none → tree.tag? id = some .moduleDecl
  bodies : ∀ site body, tree.body? site = some body → tree.tag? body = some .moduleDecl
  toplevels : ∀ name id, tree.toplevel? name = some id → tree.tag? id = some .moduleDecl

end Tree

/-- What a builder ends with has its nodes in their places. -/
theorem Builder.Places.placed {builder : Builder} {tree : Tree} (hbuilder : builder.Places)
    (hfinish : builder.finish = .ok tree) : tree.Placed := by
  obtain ⟨hplaced, hcollected, hbodies⟩ := eq_of_finish hfinish
  obtain ⟨htops, -, hentries⟩ := collectRoots_eq_ok (by simp [Assoc.keys, Assoc.empty]) hcollected
  have hadopted := adopted_placeBodies hbuilder.adopted hbuilder.bodies hplaced
  refine ⟨fun id child hchild => ?_, fun id hcontains hparent => ?_, fun site body hbody => ?_,
    fun name id hname => ?_⟩
  · unfold Tree.children at hchild
    split at hchild
    · next node hnode => exact (hadopted id.index node hnode child hchild).2
    · cases hchild
  · obtain ⟨node, hnode⟩ := Tree.contains_iff.mp hcontains
    have hnone : node.parent = none := by rwa [Tree.parent?, hnode] at hparent
    have hmem : node ∈ tree.nodes.toList :=
      Array.mem_toList_iff.mpr (Array.mem_of_getElem? hnode)
    rw [Tree.tag?, hnode, Option.map_some, htops node hmem hnone]
  · rw [Tree.body?, hbodies] at hbody
    exact (map_placeBodies Node.tag (fun _ _ => rfl) hplaced body.index).trans
      (hbuilder.linked body (hbuilder.bodies _ (Assoc.mem_entries_of_get? hbody)))
  · rcases (hentries name id).mp (Assoc.mem_entries_of_get? hname) with
      hnone | ⟨node, hmem, rfl, -, internal, hkind⟩
    · cases hnone
    · have htag : node.tag = .moduleDecl := by rw [Node.tag, hkind, NodeKind.tag]
      obtain ⟨index, hnode⟩ := List.mem_iff_getElem?.mp hmem
      rw [Array.getElem?_toList] at hnode
      have hview := map_placeBodies Node.id (fun _ _ => rfl) hplaced index
      rw [hnode, Option.map_some] at hview
      obtain ⟨old, hold, hsame⟩ := Option.map_eq_some_iff.mp hview.symm
      have hid : node.id = ⟨index⟩ := hsame ▸ hbuilder.numbered index old hold
      rw [Tree.tag?, Tree.node?, hid, hnode, Option.map_some, htag]

end Scoping
