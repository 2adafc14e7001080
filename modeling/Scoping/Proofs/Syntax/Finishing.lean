import Scoping.Proofs.Syntax.Growing

/-!
When building can end. The bodies of includes get their places first, in any order, and then
the nodes that are left without one are scanned in the order of their ids. Each must be a module
whose name no other one before it has. So the outcome can be told from the builder alone: it is
the fault of the first node that has one, or a tree with all of them at the top.
-/

namespace Scoping

open Build

namespace Assoc

variable {κ α : Type} [DecidableEq κ]

/-- A new key comes last. -/
theorem entries_insert_of_get?_eq_none {map : Assoc κ α} {key : κ} (hnone : map.get? key = none)
    (value : α) : (map.insert key value).entries = map.entries ++ [(key, value)] := by
  obtain ⟨entries⟩ := map
  induction entries with
  | nil => rfl
  | cons entry rest ih =>
    obtain ⟨other, old⟩ := entry
    have hne : other ≠ key := by
      rintro rfl
      simp [get?] at hnone
    have htail := ih (by simpa [get?, hne] using hnone)
    simpa [insert, alter, hne] using htail

end Assoc

namespace NodeKind

theorem tag_eq_moduleDecl_iff {kind : NodeKind} :
    kind.tag = .moduleDecl ↔ ∃ name internal, kind = .moduleDecl name internal := by
  cases kind <;> simp [tag]

/-- A kind that reads as a module is one, under a name that spells the text. -/
theorem reads_moduleDecl_iff {names : Interner} {kind : NodeKind} {text : String} :
    kind.Reads names (.moduleDecl, text) ↔
      ∃ name internal, kind = .moduleDecl name internal ∧ names.lookup? name = some text := by
  constructor
  · rintro ⟨htag, name, hnames, hread⟩
    obtain ⟨other, internal, rfl⟩ := tag_eq_moduleDecl_iff.mp htag
    obtain rfl := List.singleton_inj.mp hnames
    exact ⟨_, internal, rfl, hread⟩
  · rintro ⟨name, internal, rfl, hread⟩
    exact ⟨rfl, name, rfl, hread⟩

end NodeKind

namespace Builder

/-- The nodes without a place: those that nothing has adopted and that are the body of no include.
They are in the order of their ids. -/
def unplaced (builder : Builder) : List Node :=
  builder.nodes.toList.filter fun node =>
    node.parent.isNone && !(builder.bodies.entries.map Prod.snd).contains node.id

/-- Why a node cannot be at the top level, after the nodes before it. -/
inductive TopFault (names : Interner) (before : List Node) (node : Node) : BuildError → Prop
  | detached (htag : node.tag ≠ .moduleDecl) : TopFault names before node (.detached node.id)
  | duplicate {first : Node} {text : String} (hfirst : first ∈ before)
    (hreads : first.kind.Reads names (.moduleDecl, text))
    (hsame : node.kind.Reads names (.moduleDecl, text)) :
    TopFault names before node (.duplicateToplevel text first.id node.id)

/-- Whether nodes can all be at the top level. -/
def AllTop (names : Interner) (nodes : List Node) : Prop :=
  ∀ before node after, nodes = before ++ node :: after → ∀ error, ¬ TopFault names before node error

section Top

variable {names : Interner} {before : List Node} {node : Node}

theorem allTop_nil : AllTop names [] := by
  intro before node after heq
  simp at heq

theorem allTop_append_singleton : AllTop names (before ++ [node]) ↔
    AllTop names before ∧ ∀ error, ¬ TopFault names before node error := by
  constructor
  · refine fun htop => ⟨fun earlier other after heq => ?_, htop before node [] rfl⟩
    exact htop earlier other (after ++ [node]) (by rw [heq]; simp)
  · rintro ⟨htop, hlast⟩ earlier other after heq
    rcases List.eq_nil_or_concat after with rfl | ⟨middle, last, rfl⟩
    · obtain ⟨rfl, hother⟩ := List.append_inj' heq rfl
      obtain rfl := List.singleton_inj.mp hother
      exact hlast
    · have hsplit : before ++ [node] = (earlier ++ other :: middle) ++ [last] := by
        rw [heq]; simp
      exact htop earlier other middle (List.append_inj' hsplit rfl).1

/-- Among nodes that cannot all be at the top there is a first one at fault. -/
theorem allTop_or_exists_fault (names : Interner) (nodes : List Node) : AllTop names nodes ∨
    ∃ before node after error, nodes = before ++ node :: after ∧ AllTop names before ∧
      TopFault names before node error := by
  induction nodes using List.reverseRecOn with
  | nil => exact .inl allTop_nil
  | append_singleton init last ih =>
    rcases ih with htop | ⟨before, node, after, error, rfl, htop, hfault⟩
    · by_cases hlast : ∃ error, TopFault names init last error
      · obtain ⟨error, hfault⟩ := hlast
        exact .inr ⟨init, last, [], error, rfl, htop, hfault⟩
      · exact .inl (allTop_append_singleton.mpr ⟨htop, not_exists.mp hlast⟩)
    · exact .inr ⟨before, node, after ++ [last], error, by simp, htop, hfault⟩

end Top

/-- What a module is entered as among the top-level ones. -/
def topEntry? (node : Node) : Option (Name × NodeId) :=
  match node.kind with
  | .moduleDecl name _ => some (name, node.id)
  | _ => none

theorem topEntry?_eq_some_iff {node : Node} {name : Name} {id : NodeId} :
    topEntry? node = some (name, id) ↔
      (∃ internal, node.kind = .moduleDecl name internal) ∧ node.id = id := by
  unfold topEntry?
  split
  · next other internal hkind =>
    simp [hkind]
  · next hkind =>
    simp only [reduceCtorEq, false_iff, not_and]
    rintro ⟨internal, hmodule⟩
    exact absurd hmodule (hkind name internal)

/-- The table after the nodes of a list, which all could be entered. -/
structure Collected (before : List Node) (roots : Assoc Name NodeId) : Prop where
  entries : before.map topEntry? = roots.entries.map some
  keys : roots.keys.Nodup

namespace Collected

variable {names : Interner} {before : List Node} {roots : Assoc Name NodeId} {node : Node}

theorem empty : Collected [] .empty := ⟨rfl, List.nodup_nil⟩

/-- The table holds a name when one of the modules has it. -/
theorem get?_eq_some_iff (hroots : Collected before roots) {name : Name} {id : NodeId} :
    roots.get? name = some id ↔
      ∃ first ∈ before, (∃ internal, first.kind = .moduleDecl name internal) ∧ first.id = id := by
  rw [Assoc.get?_eq_some_iff_mem hroots.keys]
  have hmem : (name, id) ∈ roots.entries ↔ some (name, id) ∈ before.map topEntry? := by
    rw [hroots.entries]
    simp
  simp only [hmem, List.mem_map, topEntry?_eq_some_iff]

/-- A node at fault ends the scan with its fault. -/
theorem collectRoots_eq_error (hroots : Collected before roots) (hsound : names.Sound)
    (hparent : node.parent = none) {error : BuildError} (hfault : TopFault names before node error)
    (rest : List Node) : collectRoots names roots (node :: rest) = .error error := by
  cases hfault with
  | detached htag =>
    rw [collectRoots]
    split
    · next hparent' =>
      rw [hparent] at hparent'
      cases hparent'
    · next hkind => exact absurd (NodeKind.tag_eq_moduleDecl_iff.mpr ⟨_, _, hkind⟩) htag
    · rfl
  | duplicate hfirst hreads hsame =>
    obtain ⟨name, internal, hkind, hread⟩ := NodeKind.reads_moduleDecl_iff.mp hreads
    obtain ⟨other, internal', hkind', hread'⟩ := NodeKind.reads_moduleDecl_iff.mp hsame
    obtain rfl := hsound.unique hread hread'
    have hheld := hroots.get?_eq_some_iff.mpr ⟨_, hfirst, ⟨internal, hkind⟩, rfl⟩
    rw [collectRoots, hparent, hkind']
    simp only [hheld, Interner.display, hread, Option.getD_some]

/-- A node without fault is entered after the others. -/
theorem collectRoots_eq (hroots : Collected before roots) (hparent : node.parent = none)
    (hknown : ∀ name ∈ node.kind.names, ∃ text, names.lookup? name = some text)
    (hfree : ∀ error, ¬ TopFault names before node error) :
    ∃ later, Collected (before ++ [node]) later ∧
      ∀ rest, collectRoots names roots (node :: rest) = collectRoots names later rest := by
  have htag : node.tag = .moduleDecl := by
    by_contra htag
    exact hfree _ (.detached htag)
  obtain ⟨name, internal, hkind⟩ := NodeKind.tag_eq_moduleDecl_iff.mp htag
  obtain ⟨text, hread⟩ := hknown name (by rw [hkind]; exact List.mem_cons_self)
  have hnone : roots.get? name = none := by
    refine Option.eq_none_iff_forall_ne_some.mpr fun id hheld => ?_
    obtain ⟨first, hfirst, ⟨internal', hsame⟩, -⟩ := hroots.get?_eq_some_iff.mp hheld
    exact hfree _ (.duplicate hfirst
      (NodeKind.reads_moduleDecl_iff.mpr ⟨name, internal', hsame, hread⟩)
      (NodeKind.reads_moduleDecl_iff.mpr ⟨name, internal, hkind, hread⟩))
  refine ⟨roots.insert name node.id, ⟨?_, Assoc.nodup_keys_insert hroots.keys name node.id⟩,
    fun rest => ?_⟩
  · have hentry := topEntry?_eq_some_iff.mpr ⟨⟨internal, hkind⟩, rfl⟩
    rw [Assoc.entries_insert_of_get?_eq_none hnone, List.map_append, List.map_append,
      hroots.entries, List.map_singleton, List.map_singleton, hentry]
  · rw [collectRoots, hparent, hkind]
    simp only [hnone]

end Collected

section Collecting

variable {names : Interner} {nodes : List Node}

/-- Nodes without fault are all entered, one after another. -/
theorem AllTop.collectRoots_append (htop : AllTop names nodes)
    (hparents : ∀ node ∈ nodes, node.parent = none)
    (hknown : ∀ node ∈ nodes, ∀ name ∈ node.kind.names, ∃ text, names.lookup? name = some text) :
    ∃ roots, Collected nodes roots ∧
      ∀ rest, collectRoots names .empty (nodes ++ rest) = collectRoots names roots rest := by
  induction nodes using List.reverseRecOn with
  | nil => exact ⟨.empty, .empty, fun _ => rfl⟩
  | append_singleton init last ih =>
    obtain ⟨hinit, hlast⟩ := allTop_append_singleton.mp htop
    obtain ⟨roots, hroots, hscan⟩ := ih hinit
      (fun node hnode => hparents node (List.mem_append_left _ hnode))
      (fun node hnode => hknown node (List.mem_append_left _ hnode))
    have hmem : last ∈ init ++ [last] := List.mem_append_right _ List.mem_cons_self
    obtain ⟨later, hlater, hstep⟩ :=
      hroots.collectRoots_eq (hparents last hmem) (hknown last hmem) hlast
    refine ⟨later, hlater, fun rest => ?_⟩
    rw [List.append_assoc, hscan, List.singleton_append, hstep]

/-- The scan passes over the nodes that have a parent. -/
theorem collectRoots_filter (names : Interner) (roots : Assoc Name NodeId) (nodes : List Node) :
    collectRoots names roots nodes =
      collectRoots names roots (nodes.filter fun node => node.parent.isNone) := by
  induction nodes generalizing roots with
  | nil => rfl
  | cons node rest ih =>
    cases hparent : node.parent with
    | some parent =>
      rw [List.filter_cons_of_neg (by simp [hparent]), collectRoots, hparent]
      exact ih roots
    | none =>
      rw [List.filter_cons_of_pos (by simp [hparent]), collectRoots, collectRoots]
      simp only [ih]

/-- The scan comes as far as the first node at fault. -/
theorem AllTop.collectRoots_eq_error {before after : List Node} {node : Node} {error : BuildError}
    (htop : AllTop names before) (hsound : names.Sound)
    (hparents : ∀ other ∈ before ++ node :: after, other.parent = none)
    (hknown : ∀ other ∈ before ++ node :: after, ∀ name ∈ other.kind.names,
      ∃ text, names.lookup? name = some text) (hfault : TopFault names before node error) :
    collectRoots names .empty (before ++ node :: after) = .error error := by
  obtain ⟨roots, hroots, hscan⟩ := htop.collectRoots_append
    (fun other hother => hparents other (List.mem_append_left _ hother))
    (fun other hother => hknown other (List.mem_append_left _ hother))
  rw [hscan]
  exact hroots.collectRoots_eq_error hsound
    (hparents node (List.mem_append_right _ List.mem_cons_self)) hfault after

/-- The outcome of the scan: the first fault, or a table with an entry for each node. -/
theorem collectRoots_outcome (hsound : names.Sound) (hparents : ∀ node ∈ nodes, node.parent = none)
    (hknown : ∀ node ∈ nodes, ∀ name ∈ node.kind.names, ∃ text, names.lookup? name = some text) :
    (∀ error, collectRoots names .empty nodes = .error error ↔ ∃ before node after,
      nodes = before ++ node :: after ∧ AllTop names before ∧ TopFault names before node error) ∧
    ((∃ roots, collectRoots names .empty nodes = .ok roots) ↔ AllTop names nodes) ∧
    ∀ roots, collectRoots names .empty nodes = .ok roots → roots.size = nodes.length := by
  rcases allTop_or_exists_fault names nodes with
    htop | ⟨before, node, after, error, rfl, htop, hfault⟩
  · obtain ⟨roots, hroots, hscan⟩ := htop.collectRoots_append hparents hknown
    have hdone : collectRoots names .empty nodes = .ok roots := by
      simpa [collectRoots] using hscan []
    rw [hdone]
    refine ⟨fun error => ⟨fun hfailed => (by cases hfailed), ?_⟩,
      ⟨fun _ => htop, fun _ => ⟨roots, rfl⟩⟩, ?_⟩
    · rintro ⟨before, node, after, hsplit, -, hfault⟩
      exact absurd hfault (htop before node after hsplit error)
    · rintro _ heq
      obtain rfl := Except.ok.inj heq
      simpa [Assoc.size] using (congrArg List.length hroots.entries).symm
  · have hfailed := htop.collectRoots_eq_error hsound hparents hknown hfault
    refine ⟨fun other => ⟨fun hother => ?_, ?_⟩, ⟨?_, ?_⟩, ?_⟩
    · obtain rfl := Except.error.inj (hfailed.symm.trans hother)
      exact ⟨before, node, after, rfl, htop, hfault⟩
    · rintro ⟨earlier, first, later, hsplit, hearlier, hfirst⟩
      rw [hsplit] at hparents hknown ⊢
      exact hearlier.collectRoots_eq_error hsound hparents hknown hfirst
    · rintro ⟨roots, hroots⟩
      rw [hfailed] at hroots
      cases hroots
    · exact fun hall => absurd hfault (hall before node after rfl error)
    · intro roots hroots
      rw [hfailed] at hroots
      cases hroots

end Collecting

section Placing

variable {nodes : Array Node} {bodies : List (NodeId × NodeId)}

/-- The node that gets a parent is not without one any more, and no other node changes. -/
theorem filter_setParent (hnumbered : ∀ (index : Nat) (node : Node),
    nodes[index]? = some node → node.id = ⟨index⟩) (parent child : NodeId) :
    (setParent nodes parent child).toList.filter (fun node => node.parent.isNone) =
      nodes.toList.filter fun node => node.parent.isNone && !(node.id == child) := by
  have hmap : (setParent nodes parent child).toList = nodes.toList.map fun node =>
      if node.id = child then { node with parent := some parent } else node := by
    refine List.ext_getElem? fun index => ?_
    rw [Array.getElem?_toList, getElem?_setParent, List.getElem?_map, Array.getElem?_toList]
    cases hnode : nodes[index]? with
    | none => simp
    | some node =>
      have hid : node.id = child ↔ child.index = index := by
        rw [hnumbered index node hnode]
        exact ⟨fun heq => heq ▸ rfl, fun heq => heq ▸ rfl⟩
      simp only [Option.map_some, hid]
      split <;> rfl
  rw [hmap, List.filter_map]
  have hkeep : ∀ node ∈ nodes.toList.filter fun node => node.parent.isNone && !(node.id == child),
      (if node.id = child then { node with parent := some parent } else node) = node := by
    intro node hnode
    obtain ⟨-, hne⟩ : node.parent = none ∧ ¬ node.id = child := by
      simpa using (List.mem_filter.mp hnode).2
    exact if_neg hne
  have hsame : (fun node : Node => node.parent.isNone) ∘ (fun node =>
      if node.id = child then { node with parent := some parent } else node) =
        fun node => node.parent.isNone && !(node.id == child) := by
    funext node
    by_cases heq : node.id = child <;> simp [heq]
  rw [hsame, List.map_congr_left hkeep, List.map_id']

/-- After the bodies are placed, the nodes without parent are the others that had none. -/
theorem filter_placeBodies (hnumbered : ∀ (index : Nat) (node : Node),
    nodes[index]? = some node → node.id = ⟨index⟩) {placed : Array Node}
    (hplaced : placeBodies nodes bodies = .ok placed) :
    placed.toList.filter (fun node => node.parent.isNone) =
      nodes.toList.filter fun node =>
        node.parent.isNone && !(bodies.map Prod.snd).contains node.id := by
  induction bodies generalizing nodes with
  | nil =>
    obtain rfl := Except.ok.inj hplaced
    simp
  | cons link rest ih =>
    obtain ⟨site, body⟩ := link
    obtain ⟨parent, -, hmore⟩ := placeBodies_cons_eq_ok hplaced
    have hlater : ∀ (index : Nat) (node : Node),
        (setParent nodes parent body)[index]? = some node → node.id = ⟨index⟩ := by
      intro index node hnode
      have hview := map_setParent Node.id (fun _ _ => rfl) nodes parent body index
      rw [hnode, Option.map_some] at hview
      obtain ⟨old, hold, hsame⟩ := Option.map_eq_some_iff.mp hview.symm
      exact hsame ▸ hnumbered index old hold
    rw [ih hlater hmore]
    have hsplit : ∀ list : List Node, (list.filter fun node =>
        node.parent.isNone && !(rest.map Prod.snd).contains node.id) =
          (list.filter fun node => node.parent.isNone).filter fun node =>
            !(rest.map Prod.snd).contains node.id := by
      intro list
      rw [List.filter_filter]
      exact List.filter_congr fun node _ => Bool.and_comm _ _
    rw [hsplit, filter_setParent hnumbered, List.filter_filter]
    refine List.filter_congr fun node _ => ?_
    cases node.parent.isNone <;> simp [Bool.and_comm]

variable (hsites : ∀ link ∈ bodies, tagAt nodes link.1 = some .includeDecl)
  (hbodies : ∀ link ∈ bodies, tagAt nodes link.2 = some .moduleDecl)
include hsites hbodies

/-- Placing a module leaves all includes as they are. -/
theorem sites_setParent {link : NodeId × NodeId} (hlink : link ∈ bodies) (parent : NodeId) :
    ∀ other ∈ bodies,
      parentAt (setParent nodes parent link.2) other.1 = parentAt nodes other.1 := by
  intro other hother
  refine parentAt_setParent_of_ne nodes parent fun heq => ?_
  have htag := hbodies link hlink
  rw [heq, hsites other hother] at htag
  cases htag

/-- Bodies can be placed when all includes have a parent. -/
theorem exists_placeBodies (hheld : ∀ link ∈ bodies, parentAt nodes link.1 ≠ none) :
    ∃ placed, placeBodies nodes bodies = .ok placed := by
  induction bodies generalizing nodes with
  | nil => exact ⟨nodes, rfl⟩
  | cons link rest ih =>
    obtain ⟨parent, hparent⟩ := Option.ne_none_iff_exists'.mp (hheld link List.mem_cons_self)
    have hkept := sites_setParent hsites hbodies List.mem_cons_self parent
    rw [placeBodies, show nodes[link.1.index]?.bind Node.parent = some parent from hparent]
    refine ih (fun other hother => ?_) (fun other hother => ?_) (fun other hother => ?_)
    · rw [tagAt_setParent]
      exact hsites other (List.mem_cons_of_mem _ hother)
    · rw [tagAt_setParent]
      exact hbodies other (List.mem_cons_of_mem _ hother)
    · rw [hkept other (List.mem_cons_of_mem _ hother)]
      exact hheld other (List.mem_cons_of_mem _ hother)

/-- The one include without parent is what placing fails at, wherever it stands. -/
theorem placeBodies_eq_error {link : NodeId × NodeId} (hlink : link ∈ bodies)
    (hnone : parentAt nodes link.1 = none)
    (hlone : ∀ other ∈ bodies, parentAt nodes other.1 = none → other.1 = link.1) :
    placeBodies nodes bodies = .error (.detached link.1) := by
  induction bodies generalizing nodes with
  | nil => cases hlink
  | cons first rest ih =>
    cases hfirst : parentAt nodes first.1 with
    | none =>
      rw [placeBodies, show nodes[first.1.index]?.bind Node.parent = none from hfirst,
        ← hlone first List.mem_cons_self hfirst]
    | some parent =>
      have hkept := sites_setParent hsites hbodies List.mem_cons_self parent
      have hmore : link ∈ rest := by
        rcases List.mem_cons.mp hlink with rfl | hmore
        · rw [hnone] at hfirst
          cases hfirst
        · exact hmore
      rw [placeBodies, show nodes[first.1.index]?.bind Node.parent = some parent from hfirst]
      refine ih (fun other hother => ?_) (fun other hother => ?_) hmore ?_ fun other hother => ?_
      · rw [tagAt_setParent]
        exact hsites other (List.mem_cons_of_mem _ hother)
      · rw [tagAt_setParent]
        exact hbodies other (List.mem_cons_of_mem _ hother)
      · rw [hkept link hlink, hnone]
      · rw [hkept other (List.mem_cons_of_mem _ hother)]
        exact hlone other (List.mem_cons_of_mem _ hother)

end Placing

/-- What the scan is given: nodes without parent whose names have been given out. -/
theorem Reachable.known_unplaced {builder : Builder} (hbuilder : builder.Reachable) {node : Node}
    (hnode : node ∈ builder.unplaced) : node.parent = none ∧
      ∀ name ∈ node.kind.names, ∃ text, builder.names.lookup? name = some text := by
  obtain ⟨hmem, hfree⟩ := List.mem_filter.mp hnode
  obtain ⟨index, hindex⟩ := List.mem_iff_getElem?.mp hmem
  rw [Array.getElem?_toList] at hindex
  refine ⟨?_, hbuilder.alike.known index node hindex⟩
  simp only [Bool.and_eq_true, Option.isNone_iff_eq_none] at hfree
  exact hfree.1

/-- The nodes without a place are in the order of their ids. -/
theorem Formed.sorted_unplaced {builder : Builder} (hformed : builder.Formed) :
    builder.unplaced.Pairwise fun node later => node.id.index < later.id.index := by
  refine List.Pairwise.sublist List.filter_sublist (List.pairwise_iff_getElem.mpr ?_)
  intro index other hindex hother hlt
  rw [Array.length_toList] at hindex hother
  simpa [hformed.numbered index _ (Array.getElem?_eq_getElem hindex),
    hformed.numbered other _ (Array.getElem?_eq_getElem hother)] using hlt

section Order

variable {builder : Builder} (hformed : builder.Formed) {order : List (NodeId × NodeId)}
  (horder : order.Perm builder.bodies.entries)
include hformed horder

/-- The links of a builder go from includes to modules, in whatever order they are taken. -/
theorem Formed.tags_of_perm : (∀ link ∈ order, tagAt builder.nodes link.1 = some .includeDecl) ∧
    ∀ link ∈ order, tagAt builder.nodes link.2 = some .moduleDecl :=
  ⟨fun link hlink => hformed.sites link (horder.mem_iff.mp hlink),
    fun link hlink => hformed.linked _ (hformed.bodies link (horder.mem_iff.mp hlink))⟩

/-- An include that nothing holds ends the building. -/
theorem Formed.finish_eq_error {link : NodeId × NodeId} (hlink : link ∈ builder.bodies.entries)
    (hnone : parentAt builder.nodes link.1 = none)
    (hlone : ∀ other ∈ builder.bodies.entries, parentAt builder.nodes other.1 = none →
      other.1 = link.1) :
    finish { builder with bodies := ⟨order⟩ } = .error (.detached link.1) := by
  obtain ⟨hsites, hbodies⟩ := hformed.tags_of_perm horder
  unfold finish
  rw [placeBodies_eq_error hsites hbodies (horder.mem_iff.mpr hlink) hnone
    fun other hother => hlone other (horder.mem_iff.mp hother)]
  rfl

/-- Where all includes are held, the scan of the nodes without a place decides. -/
theorem Formed.finish_eq_map (hheld : ∀ link ∈ builder.bodies.entries,
    parentAt builder.nodes link.1 ≠ none) :
    ∃ placed, finish { builder with bodies := ⟨order⟩ } =
      (collectRoots builder.names .empty builder.unplaced).map
        fun roots => ⟨builder.names, placed, roots, ⟨order⟩⟩ := by
  obtain ⟨hsites, hbodies⟩ := hformed.tags_of_perm horder
  obtain ⟨placed, hplaced⟩ := exists_placeBodies hsites hbodies
    fun link hlink => hheld link (horder.mem_iff.mp hlink)
  have hscan : collectRoots builder.names .empty placed.toList =
      collectRoots builder.names .empty builder.unplaced := by
    rw [collectRoots_filter, filter_placeBodies hformed.numbered hplaced, unplaced]
    simp only [(horder.map Prod.snd).contains_eq]
  refine ⟨placed, ?_⟩
  unfold finish
  rw [hplaced, ← hscan]
  rfl

end Order

/-- Building ends in a tree exactly when each include that has a body is held by a node and the
nodes without a place can all be at the top level. Otherwise it fails: at the include that nothing
holds, if there is one, else at the first of those nodes that is at fault. The order in which the
bodies are given their places has no say in it. -/
theorem finish_outcome {builder : Builder} (hbuilder : builder.Reachable)
    {order : List (NodeId × NodeId)} (horder : order.Perm builder.bodies.entries)
    (hlone : ∀ link ∈ builder.bodies.entries, ∀ other ∈ builder.bodies.entries,
      parentAt builder.nodes link.1 = none → parentAt builder.nodes other.1 = none →
        link.1 = other.1) :
    let finished := finish { builder with bodies := ⟨order⟩ }
    builder.unplaced.Pairwise (fun node later => node.id.index < later.id.index) ∧
    (∀ link ∈ builder.bodies.entries, parentAt builder.nodes link.1 = none →
      finished = .error (.detached link.1)) ∧
    ((∀ link ∈ builder.bodies.entries, parentAt builder.nodes link.1 ≠ none) →
      (∀ error, finished = .error error ↔ ∃ before node after,
        builder.unplaced = before ++ node :: after ∧ AllTop builder.names before ∧
          TopFault builder.names before node error) ∧
      ((∃ tree, finished = .ok tree) ↔ AllTop builder.names builder.unplaced) ∧
      ∀ tree, finished = .ok tree → tree.toplevelCount = builder.unplaced.length) := by
  intro finished
  refine ⟨hbuilder.formed.sorted_unplaced, fun link hlink hnone => ?_, fun hheld => ?_⟩
  · exact hbuilder.formed.finish_eq_error horder hlink hnone
      fun other hother hnone' => hlone other hother link hlink hnone' hnone
  · obtain ⟨hfails, hdone, hsize⟩ := collectRoots_outcome hbuilder.sound
      (fun node hnode => (hbuilder.known_unplaced hnode).1)
      (fun node hnode => (hbuilder.known_unplaced hnode).2)
    obtain ⟨placed, hfinished⟩ := hbuilder.formed.finish_eq_map horder hheld
    rw [show finished = _ from hfinished]
    simp only [← hfails, ← hdone]
    cases hroots : collectRoots builder.names .empty builder.unplaced with
    | error error => simp [Except.map]
    | ok roots => simpa [Except.map, Tree.toplevelCount] using hsize roots hroots

/-- Steps that link two includes of a module, define a module of its name again, and leave an
identifier behind when a path is refused. -/
def strayingSteps : List BuildStep :=
  [.includeDecl "A", .moduleDecl false "A" [], .link ⟨0⟩ ⟨1⟩, .includeDecl "B",
    .moduleDecl false "B" [], .link ⟨2⟩ ⟨3⟩, .moduleDecl false "M" [⟨0⟩, ⟨2⟩],
    .moduleDecl false "M" [], .dotted "p.1"]

/-- Both linked modules have a place. The second module of one name is the first node at fault,
before the identifier that is left, also when the later link is taken first. -/
theorem finish_outcome_straying :
    let builder := (BuildStep.runAll strayingSteps (ofNames .initial)).2
    builder.Reachable ∧
      [(⟨2⟩, ⟨3⟩), (⟨0⟩, ⟨1⟩)].Perm builder.bodies.entries ∧
      builder.unplaced.map Node.id = [⟨4⟩, ⟨5⟩, ⟨6⟩] ∧
      finish { builder with bodies := ⟨[(⟨2⟩, ⟨3⟩), (⟨0⟩, ⟨1⟩)]⟩ } =
        .error (.duplicateToplevel "M" ⟨4⟩ ⟨5⟩) := by
  intro builder
  have hbuilder : builder.Reachable := (Reachable.start []).runAll strayingSteps
  have horder : [(⟨2⟩, ⟨3⟩), (⟨0⟩, ⟨1⟩)].Perm builder.bodies.entries := by decide +kernel
  have hheld : ∀ link ∈ builder.bodies.entries, parentAt builder.nodes link.1 ≠ none := by
    decide +kernel
  have hunplaced : builder.unplaced = [⟨⟨4⟩, none, .moduleDecl ⟨4⟩ false, [⟨0⟩, ⟨2⟩]⟩] ++
      ⟨⟨5⟩, none, .moduleDecl ⟨4⟩ false, []⟩ :: [⟨⟨6⟩, none, .identifier ⟨5⟩, []⟩] := by
    decide +kernel
  have hread : (NodeKind.moduleDecl ⟨4⟩ false).Reads builder.names (.moduleDecl, "M") :=
    NodeKind.reads_moduleDecl_iff.mpr ⟨_, false, rfl, by decide +kernel⟩
  obtain ⟨-, -, hscan⟩ := finish_outcome hbuilder horder
    fun link hlink _ _ hnone _ => absurd hnone (hheld link hlink)
  refine ⟨hbuilder, horder, by rw [hunplaced]; rfl, ((hscan hheld).1 _).mpr ⟨_, _, _, hunplaced, ?_,
    .duplicate List.mem_cons_self hread hread⟩⟩
  refine (@allTop_append_singleton _ [] _).mpr ⟨allTop_nil, fun error hfault => ?_⟩
  cases hfault with
  | detached htag => exact htag rfl
  | duplicate hfirst => cases hfirst

end Builder

end Scoping
