import Scoping.Proofs.Syntax.Regions
import Scoping.Proofs.Syntax.Rooted

/-!
Where the entries of a list are reported. An entry is reported as missing at one node and
as unsupported at another; both belong to the entry, and no two entries of a list have a
node in common. So whatever is reported about a list, nothing is reported twice.
-/

namespace Scoping

namespace Tree

variable {tree : Tree}

/-- An entry of a list and the nodes that it names. -/
def entryNodes (tree : Tree) (entry : NodeId) : List NodeId := entry :: tree.operandsOf entry

theorem WellFormed.not_mem_operandsOf_self (hformed : tree.WellFormed) (id : NodeId) :
    id ∉ tree.operandsOf id := fun hmem =>
  Nat.lt_irrefl _ (hformed.older id id (hformed.mem_children_of_operand hmem))

/-- Two entries of one list have no node in common. -/
theorem WellFormed.eq_of_mem_entryNodes (hformed : tree.WellFormed) {site entry other id : NodeId}
    (hsite : tree.IsSite site) (hentry : entry ∈ tree.operandsOf site)
    (hother : other ∈ tree.operandsOf site) (hid : id ∈ tree.entryNodes entry)
    (hid' : id ∈ tree.entryNodes other) : entry = other := by
  -- an entry that another one names would have two parents
  have hnot : ∀ {first second}, first ∈ tree.operandsOf site → second ∈ tree.operandsOf site →
      first ∉ tree.operandsOf second := by
    intro first second hfirst hsecond hmem
    have hparent := (hformed.parent?_of_operand hfirst).symm.trans (hformed.parent?_of_operand hmem)
    obtain rfl := Option.some.inj hparent
    exact hsite.not_operand hformed _ hsecond
  rcases List.mem_cons.mp hid with rfl | hmem
  · rcases List.mem_cons.mp hid' with rfl | hmem'
    · rfl
    · exact absurd hmem' (hnot hentry hother)
  · rcases List.mem_cons.mp hid' with rfl | hmem'
    · exact absurd hmem (hnot hother hentry)
    · exact Option.some.inj
        ((hformed.parent?_of_operand hmem).symm.trans (hformed.parent?_of_operand hmem'))

/-- The node at which an entry is refused in the list of an `except` for being a rename. -/
def renameSite? (tree : Tree) (entry : NodeId) : Option NodeId :=
  if tree.tag? entry = some .rename then some entry else none

/-- The node at which an entry is refused because it stands for no pair of names. -/
def pairSite? (tree : Tree) (entry : NodeId) : Option NodeId :=
  match tree.kind? entry with
  | some (.identifier _) => none
  | some (.rename symbol renamed) =>
    match tree.identifier? symbol, tree.identifier? renamed with
    | none, _ => some symbol
    | some _, none => some renamed
    | some _, some _ => none
  | _ => some entry

/-- The error about an entry of the list of an `except` that is a rename. -/
def renameFault? (tree : Tree) (entry : NodeId) : Option Diagnostic :=
  if tree.tag? entry = some .rename then
    some (.unsupported entry "'as' cannot be used with 'except'")
  else none

/-- The error about an entry that stands for no pair of names. -/
def pairFault? (tree : Tree) (entry : NodeId) : Option Diagnostic :=
  match tree.kind? entry with
  | some (.identifier _) => none
  | some (.dot ..) => some (.unsupported entry "dot expression not supported here")
  | some (.rename symbol renamed) =>
    match tree.identifier? symbol, tree.identifier? renamed with
    | none, _ => some (.unsupported symbol "expression type not supported for 'as'")
    | some _, none => some (.unsupported renamed "this form of as is not yet supported")
    | some _, some _ => none
  | _ => some (.unsupported entry "expression type not supported here")

/-- The errors about the list of an `except`. -/
def exceptFaults (tree : Tree) (entries : List NodeId) : List Diagnostic :=
  entries.filterMap tree.renameFault? ++ entries.filterMap tree.pairFault?

theorem map_node_renameFault? (tree : Tree) (entry : NodeId) :
    (tree.renameFault? entry).map Diagnostic.node = tree.renameSite? entry := by
  unfold renameFault? renameSite?
  split <;> rfl

theorem map_node_pairFault? (tree : Tree) (entry : NodeId) :
    (tree.pairFault? entry).map Diagnostic.node = tree.pairSite? entry := by
  unfold pairFault? pairSite?
  cases tree.kind? entry with
  | none => rfl
  | some kind =>
    cases kind with
    | rename symbol renamed =>
      dsimp only
      cases tree.identifier? symbol with
      | none => rfl
      | some _ => cases tree.identifier? renamed <;> rfl
    | _ => rfl

/-- Where the errors about a list are. -/
theorem map_node_filterMap {fault? : NodeId → Option Diagnostic} {site? : NodeId → Option NodeId}
    (hsite : ∀ entry, (fault? entry).map Diagnostic.node = site? entry) (entries : List NodeId) :
    (entries.filterMap fault?).map Diagnostic.node = entries.filterMap site? := by
  rw [List.map_filterMap]
  exact List.filterMap_congr fun entry _ => hsite entry

theorem map_node_exceptFaults (tree : Tree) (entries : List NodeId) :
    (tree.exceptFaults entries).map Diagnostic.node =
      entries.filterMap tree.renameSite? ++ entries.filterMap tree.pairSite? := by
  rw [exceptFaults, List.map_append, map_node_filterMap tree.map_node_renameFault?,
    map_node_filterMap tree.map_node_pairFault?]

theorem mem_entryNodes_of_renameSite? {entry id : NodeId} (hid : id ∈ tree.renameSite? entry) :
    id ∈ tree.entryNodes entry := by
  unfold renameSite? at hid
  split at hid
  · obtain rfl := Option.some.inj hid
    exact List.mem_cons_self
  · cases hid

theorem mem_entryNodes_of_pairSite? {entry id : NodeId} (hid : id ∈ tree.pairSite? entry) :
    id ∈ tree.entryNodes entry := by
  unfold pairSite? at hid
  split at hid
  · cases hid
  · next hkind =>
    rw [entryNodes, operandsOf_eq hkind, NodeKind.operands]
    split at hid
    · obtain rfl := Option.some.inj hid
      simp
    · obtain rfl := Option.some.inj hid
      simp
    · cases hid
  · obtain rfl := Option.some.inj hid
    exact List.mem_cons_self

/-- A node that an entry is reported at belongs to an entry. -/
theorem exists_entry_of_mem_filterMap {place : NodeId → Option NodeId}
    (hplace : ∀ entry, ∀ id ∈ place entry, id ∈ tree.entryNodes entry) {entries : List NodeId}
    {id : NodeId} (hid : id ∈ entries.filterMap place) :
    ∃ entry ∈ entries, id ∈ tree.entryNodes entry := by
  obtain ⟨entry, hentry, hid⟩ := List.mem_filterMap.mp hid
  exact ⟨entry, hentry, hplace entry id hid⟩

/-- A rename is refused as such at itself, and as a pair at a node that it names. -/
theorem WellFormed.not_mem_pairSite?_of_renameSite? (hformed : tree.WellFormed)
    {entry id : NodeId} (hid : id ∈ tree.renameSite? entry) : id ∉ tree.pairSite? entry := by
  unfold renameSite? at hid
  split at hid
  · next htag =>
    obtain rfl := Option.some.inj hid
    obtain ⟨node, hnode, hrename⟩ := Option.map_eq_some_iff.mp htag
    have hkind : tree.kind? entry = some node.kind := by rw [kind?, hnode, Option.map_some]
    cases hcase : node.kind with
    | rename symbol renamed =>
      rw [hcase] at hkind
      have hnot := hformed.not_mem_operandsOf_self entry
      rw [operandsOf_eq hkind, NodeKind.operands] at hnot
      rw [pairSite?, hkind]
      intro hpair
      dsimp only at hpair
      split at hpair
      · exact hnot (by simp [Option.some.inj hpair])
      · exact hnot (by simp [Option.some.inj hpair])
      · cases hpair
    | _ => simp [Node.tag, hcase, NodeKind.tag] at hrename
  · cases hid

/-- The symbol of a clause and what it names are neither the clause nor part of its list. -/
theorem Finished.off_list_of_within_symbol {tree : Tree} (hfinished : tree.Finished)
    {owner : NodeId} {written : WrittenClause} (hmem : written ∈ tree.writtenClauses owner)
    {id : NodeId} (hid : tree.Within written.symbol id) :
    id ≠ written.site ∧ ∀ entry ∈ written.limitations, id ∉ tree.entryNodes entry := by
  have hformed := hfinished.wellFormed
  have hsite := isSite_of_mem hmem
  obtain ⟨-, -, -, -, hkind⟩ := exists_statement hmem
  have hoperands : tree.operandsOf written.site = written.symbol :: written.limitations :=
    operandsOf_eq hkind
  have hsymbol : tree.parent? written.symbol = some written.site :=
    hformed.parent?_of_operand (by simp [hoperands])
  have hoff : ∀ {other}, tree.Within written.symbol other → other ≠ written.site := by
    intro other hother heq
    cases hother with
    | self =>
      refine hsite.not_operand hformed written.site ?_
      rw [hoperands]
      exact List.mem_cons.mpr (.inl heq.symm)
    | operand _ hnamed => exact hsite.not_operand hformed _ (heq ▸ hnamed)
  -- an entry is a child of the clause, and the only one of them below the symbol is itself
  have hnot : ∀ {other}, tree.Within written.symbol other → other ∉ written.limitations := by
    intro other hother hentry
    cases hother with
    | self =>
      have hnodup := hfinished.nodup_operandsOf written.site
      rw [hoperands] at hnodup
      exact (List.nodup_cons.mp hnodup).1 hentry
    | operand hfrom hnamed =>
      have hparent := hformed.parent?_of_operand
        (hoperands ▸ List.mem_cons_of_mem _ hentry : other ∈ tree.operandsOf written.site)
      exact hoff hfrom (Option.some.inj ((hformed.parent?_of_operand hnamed).symm.trans hparent))
  refine ⟨hoff hid, fun entry hentry hnode => ?_⟩
  rcases List.mem_cons.mp hnode with rfl | hnamed
  · exact hnot hid hentry
  · cases hid with
    | self =>
      obtain rfl := Option.some.inj (hsymbol.symm.trans (hformed.parent?_of_operand hnamed))
      exact hsite.not_operand hformed _ (hoperands ▸ List.mem_cons_of_mem _ hentry)
    | operand hfrom hnamed' =>
      obtain rfl := Option.some.inj
        ((hformed.parent?_of_operand hnamed').symm.trans (hformed.parent?_of_operand hnamed))
      exact hnot hfrom hentry

/-- Reports of two kinds about a list, each at one node of an entry at most, are all at
different nodes. -/
theorem Finished.nodup_sites {tree : Tree} (hfinished : tree.Finished) {owner : NodeId}
    {written : WrittenClause} (hmem : written ∈ tree.writtenClauses owner)
    {first second : NodeId → Option NodeId}
    (hfirst : ∀ entry, ∀ id ∈ first entry, id ∈ tree.entryNodes entry)
    (hsecond : ∀ entry, ∀ id ∈ second entry, id ∈ tree.entryNodes entry)
    (hapart : ∀ entry, ∀ id ∈ first entry, id ∉ second entry) :
    (written.limitations.filterMap first ++ written.limitations.filterMap second).Nodup := by
  have hformed := hfinished.wellFormed
  have hsite := isSite_of_mem hmem
  obtain ⟨-, -, -, -, hkind⟩ := exists_statement hmem
  have hoperands := operandsOf_eq hkind
  have hentries : written.limitations.Nodup := by
    have hnodup := hfinished.nodup_operandsOf written.site
    rw [hoperands] at hnodup
    exact (List.nodup_cons.mp hnodup).2
  have hentry : ∀ {entry}, entry ∈ written.limitations → entry ∈ tree.operandsOf written.site :=
    fun hmem => hoperands ▸ List.mem_cons_of_mem _ hmem
  have hsame : ∀ {place : NodeId → Option NodeId},
      (∀ entry, ∀ id ∈ place entry, id ∈ tree.entryNodes entry) →
      (written.limitations.filterMap place).Nodup := by
    intro place hplace
    refine List.pairwise_filterMap.mpr (hentries.imp_of_mem ?_)
    rintro entry other hmem hmem' hne id hid _ hid' rfl
    exact hne (hformed.eq_of_mem_entryNodes hsite (hentry hmem) (hentry hmem')
      (hplace entry id hid) (hplace other id hid'))
  refine List.nodup_append.mpr ⟨hsame hfirst, hsame hsecond, ?_⟩
  rintro id hid _ hid' rfl
  obtain ⟨entry, hmem, hplace⟩ := List.mem_filterMap.mp hid
  obtain ⟨other, hmem', hplace'⟩ := List.mem_filterMap.mp hid'
  obtain rfl := hformed.eq_of_mem_entryNodes hsite (hentry hmem) (hentry hmem')
    (hfirst entry id hplace) (hsecond other id hplace')
  exact hapart entry id hplace hplace'

/-- The errors about the list of an `except` are all at different nodes. -/
theorem Finished.nodup_exceptFaults {tree : Tree} (hfinished : tree.Finished) {owner : NodeId}
    {written : WrittenClause} (hmem : written ∈ tree.writtenClauses owner) :
    ((tree.exceptFaults written.limitations).map Diagnostic.node).Nodup := by
  rw [map_node_exceptFaults]
  exact hfinished.nodup_sites hmem (fun _ _ => mem_entryNodes_of_renameSite?)
    (fun _ _ => mem_entryNodes_of_pairSite?)
    fun _ _ => hfinished.wellFormed.not_mem_pairSite?_of_renameSite?

/-- They are at nodes of the entries. -/
theorem exists_entry_of_mem_exceptFaults {tree : Tree} {entries : List NodeId} {error : Diagnostic}
    (herror : error ∈ tree.exceptFaults entries) :
    ∃ entry ∈ entries, error.node ∈ tree.entryNodes entry := by
  have hnode := List.mem_map_of_mem (f := Diagnostic.node) herror
  rw [map_node_exceptFaults] at hnode
  rcases List.mem_append.mp hnode with hrename | hpair
  · exact exists_entry_of_mem_filterMap (fun _ _ => mem_entryNodes_of_renameSite?) hrename
  · exact exists_entry_of_mem_filterMap (fun _ _ => mem_entryNodes_of_pairSite?) hpair

end Tree

namespace Program

variable {program : Program}

/-- The node at which an entry is looked up. -/
def listedSite? (program : Program) (entry : NodeId) : Option NodeId :=
  (program.listedName? entry).map Prod.fst

theorem mem_entryNodes_of_listedSite? {entry id : NodeId} (hid : id ∈ program.listedSite? entry) :
    id ∈ program.tree.entryNodes entry := by
  obtain ⟨listed, hlisted, rfl⟩ := Option.map_eq_some_iff.mp hid
  unfold listedName? at hlisted
  split at hlisted
  · cases hlisted
    exact List.mem_cons_self
  · next hkind =>
    obtain ⟨name, -, rfl⟩ := Option.map_eq_some_iff.mp hlisted
    simp [Tree.entryNodes, Tree.operandsOf_eq hkind, NodeKind.operands]
  · cases hlisted

/-- An entry that is looked up at a node is refused as a pair at another one, if at all. -/
theorem not_mem_pairSite?_of_listedSite? {entry id : NodeId}
    (hid : id ∈ program.listedSite? entry) : id ∉ program.tree.pairSite? entry := by
  obtain ⟨listed, hlisted, rfl⟩ := Option.map_eq_some_iff.mp hid
  unfold listedName? at hlisted
  split at hlisted
  · next hkind =>
    rw [Tree.pairSite?, hkind]
    exact nofun
  · next symbol renamed hkind =>
    obtain ⟨name, hname, rfl⟩ := Option.map_eq_some_iff.mp hlisted
    rw [Tree.pairSite?, hkind]
    dsimp only
    rw [hname]
    cases hrenamed : program.tree.identifier? renamed with
    | some newName => exact nofun
    | none =>
      rintro hsame
      rw [Option.some.inj hsame, hname] at hrenamed
      cases hrenamed
  · cases hlisted

/-- The nodes at which names of a list are missing, and those at which entries of it are
refused, are all different. -/
theorem nodup_listedSites (hfinished : program.tree.Finished) {owner : NodeId}
    {written : WrittenClause} (hmem : written ∈ program.tree.writtenClauses owner) :
    (written.limitations.filterMap program.listedSite? ++
      written.limitations.filterMap program.tree.pairSite?).Nodup :=
  hfinished.nodup_sites hmem (fun _ _ => mem_entryNodes_of_listedSite?)
    (fun _ _ => Tree.mem_entryNodes_of_pairSite?) fun _ _ => not_mem_pairSite?_of_listedSite?

/-- Both belong to entries of the list. -/
theorem exists_entry_of_mem_listedSites {entries : List NodeId} {id : NodeId}
    (hid : id ∈ entries.filterMap program.listedSite? ++ entries.filterMap program.tree.pairSite?) :
    ∃ entry ∈ entries, id ∈ program.tree.entryNodes entry := by
  rcases List.mem_append.mp hid with hlisted | hpair
  · exact Tree.exists_entry_of_mem_filterMap (fun _ _ => mem_entryNodes_of_listedSite?) hlisted
  · exact Tree.exists_entry_of_mem_filterMap (fun _ _ => Tree.mem_entryNodes_of_pairSite?) hpair

end Program

end Scoping
