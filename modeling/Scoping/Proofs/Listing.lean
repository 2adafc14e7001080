import Scoping.Proofs.Gathering
import Scoping.Proofs.Reordering.Tree
import Scoping.Proofs.Syntax.Preorder
import Scoping.Proofs.Syntax.Rooted

/-!
What a node declares, told without any order of visits: its children with tuple and
multiple declarations replaced by theirs, of these the named ones, and after each formal
the pattern variables of its type. The table that gathering builds has the names of this
list in order of first occurrence, each with its nodes in order and no node twice.
-/

namespace Scoping

/-- Adding to a table opens an entry at its end or keeps the entries it has. -/
theorem Assoc.keys_upsert {κ α : Type} [DecidableEq κ] (map : Assoc κ α) (key : κ)
    (change : Option α → α) :
    (map.upsert key change).keys = if key ∈ map.keys then map.keys else map.keys ++ [key] := by
  obtain ⟨entries⟩ := map
  induction entries with
  | nil => rfl
  | cons entry rest ih =>
    obtain ⟨other, value⟩ := entry
    simp only [upsert, alter, keys, List.map_cons, List.mem_cons] at ih ⊢
    by_cases heq : other = key
    · simp [heq]
    · rw [if_neg heq, List.map_cons, ih]
      by_cases hmem : key ∈ rest.map Prod.fst <;> simp [hmem, Ne.symm heq]

/-- The names of a table that is filled from a list, in order of first occurrence. -/
theorem DeclTable.keys_declareAll (entries : List (Name × NodeId)) :
    (DeclTable.declareAll .empty entries).keys = (entries.map Prod.fst).eraseDups := by
  induction entries using List.reverseRecOn with
  | nil => rfl
  | append_singleton entries entry ih =>
    rw [declareAll_append, declareAll, List.foldl_cons, List.foldl_nil, declare,
      Assoc.keys_upsert, ih, List.map_append, List.eraseDups_append]
    by_cases hmem : entry.1 ∈ entries.map Prod.fst <;>
      simp [List.removeAll, hmem, List.mem_eraseDups, List.eraseDups_cons]

namespace Tree

/-- Whether a node declares what its children declare. -/
def isSpread (tree : Tree) (id : NodeId) : Bool :=
  match tree.kind? id with
  | some .tupleDecl | some .multiDecl => true
  | _ => false

/-- A list of nodes with tuple and multiple declarations replaced by their children, at
any depth. -/
inductive Flattens (tree : Tree) : List NodeId → List NodeId → Prop
  | nil : tree.Flattens [] []
  | keep {id : NodeId} {rest flat : List NodeId} (hid : tree.isSpread id = false)
    (hrest : tree.Flattens rest flat) : tree.Flattens (id :: rest) (id :: flat)
  | spread {id : NodeId} {rest inside flat : List NodeId} (hid : tree.isSpread id = true)
    (hinside : tree.Flattens (tree.children id) inside) (hrest : tree.Flattens rest flat) :
    tree.Flattens (id :: rest) (inside ++ flat)

/-- The name under which a node is declared: that of an include or of a declaration, but
for records named `excluded`. -/
def listedName? (tree : Tree) (excluded : Option Name) (id : NodeId) : Option Name :=
  match tree.kind? id with
  | none => none
  | some (.includeDecl name) => some name
  | some (.recordDecl name) => if some name = excluded then none else some name
  | some kind => kind.declName?

/-- The type expression of a formal that has one. -/
def formalType? (tree : Tree) (id : NodeId) : Option NodeId :=
  match tree.kind? id with
  | some (.formal _ typeExpr) => typeExpr
  | _ => none

/-- What flattened children declare, in order: the named ones, and after each formal the
pattern variables of its type in preorder. -/
inductive Lists (tree : Tree) (excluded : Option Name) :
    List NodeId → List (Name × NodeId) → Prop
  | nil : tree.Lists excluded [] []
  | skip {id : NodeId} {rest : List NodeId} {listed : List (Name × NodeId)}
    (hname : tree.listedName? excluded id = none) (hrest : tree.Lists excluded rest listed) :
    tree.Lists excluded (id :: rest) listed
  | add {id : NodeId} {name : Name} {rest inside : List NodeId} {listed : List (Name × NodeId)}
    (hname : tree.listedName? excluded id = some name)
    (htype : tree.Preorder (tree.formalType? id).toList inside)
    (hrest : tree.Lists excluded rest listed) :
    tree.Lists excluded (id :: rest) ((name, id) :: (inside.filterMap tree.query? ++ listed))

/-- Whether a node is a `use` or an `import`. -/
def isImport (tree : Tree) (id : NodeId) : Bool :=
  tree.tag? id = some .useStmt || tree.tag? id = some .importStmt

/-- Whether a node is a function. -/
def isFunction (tree : Tree) (id : NodeId) : Bool := tree.tag? id = some .functionDecl

variable {tree : Tree} {excluded : Option Name} {ids flat : List NodeId}
variable {listed : List (Name × NodeId)}

namespace Flattens

theorem unique {flat' : List NodeId} (hflat : tree.Flattens ids flat)
    (hflat' : tree.Flattens ids flat') : flat = flat' := by
  induction hflat generalizing flat' with
  | nil =>
    cases hflat'
    rfl
  | keep hid _ ih =>
    cases hflat' with
    | keep _ hrest' => rw [ih hrest']
    | spread hid' => cases hid.symm.trans hid'
  | spread hid _ _ ihinside ihrest =>
    cases hflat' with
    | keep hid' => cases hid.symm.trans hid'
    | spread _ hinside' hrest' => rw [ihinside hinside', ihrest hrest']

theorem isSpread_eq_false (hflat : tree.Flattens ids flat) :
    ∀ id ∈ flat, tree.isSpread id = false := by
  induction hflat with
  | nil => exact List.forall_mem_nil _
  | keep hid _ ih => exact List.forall_mem_cons.mpr ⟨hid, ih⟩
  | spread _ _ _ ihinside ihrest => exact List.forall_mem_append.mpr ⟨ihinside, ihrest⟩

theorem mem_of_isSpread_eq_false (hflat : tree.Flattens ids flat) {id : NodeId} (hmem : id ∈ ids)
    (hid : tree.isSpread id = false) : id ∈ flat := by
  induction hflat with
  | nil => cases hmem
  | keep _ _ ih =>
    rcases List.mem_cons.mp hmem with rfl | hrest
    · exact List.mem_cons_self
    · exact List.mem_cons_of_mem _ (ih hrest)
  | spread hspread _ _ _ ihrest =>
    rcases List.mem_cons.mp hmem with rfl | hrest
    · cases hid.symm.trans hspread
    · exact List.mem_append_right _ (ihrest hrest)

/-- The nodes that have a preorder can be flattened, and their preorder has all that is at
or below the flattened nodes. -/
theorem of_preorder {nodes : List NodeId} (hnodes : tree.Preorder ids nodes) :
    ∃ flat inner, tree.Flattens ids flat ∧ tree.Preorder flat inner ∧ inner.Sublist nodes := by
  induction hnodes with
  | nil => exact ⟨[], [], .nil, .nil, .slnil⟩
  | @cons id rest below after hbelow _ ihbelow ihrest =>
    obtain ⟨flat, inner, hflat, hinner, hsub⟩ := ihrest
    cases hid : tree.isSpread id with
    | false =>
      exact ⟨id :: flat, id :: (below ++ inner), .keep hid hflat, .cons hbelow hinner,
        (hsub.append_left below).cons_cons id⟩
    | true =>
      obtain ⟨inside, within, hinside, hwithin, hsub'⟩ := ihbelow
      exact ⟨inside ++ flat, within ++ inner, .spread hid hinside hflat, hwithin.append hinner,
        (hsub'.append hsub).cons id⟩

/-- Gathering the children of a tuple or multiple declaration in its place is gathering
the flattened children. The fuel is enough, since children are older. -/
theorem foldl_gatherChild {fuel : Nat} (hflat : tree.Flattens ids flat)
    (hformed : tree.WellFormed) (hfuel : ∀ id ∈ ids, id.index < fuel) (gathered : Gathered) :
    ids.foldl (tree.gatherChild excluded fuel) gathered =
      flat.foldl (tree.gatherChild excluded 1) gathered := by
  induction hflat generalizing fuel gathered with
  | nil => rfl
  | @keep id _ _ hid _ ih =>
    obtain ⟨hlt, hrest⟩ := List.forall_mem_cons.mp hfuel
    obtain ⟨fuel, rfl⟩ := Nat.exists_eq_succ_of_ne_zero (Nat.ne_zero_of_lt hlt)
    have hsame : tree.gatherChild excluded (fuel + 1) gathered id =
        tree.gatherChild excluded 1 gathered id := by
      rw [gatherChild, gatherChild]
      rw [isSpread] at hid
      split at hid
      · cases hid
      · cases hid
      · next htuple hmulti =>
        split
        · rfl
        · next hkind => exact (htuple hkind).elim
        · next hkind => exact (hmulti hkind).elim
        all_goals rfl
    rw [List.foldl_cons, List.foldl_cons, hsame, ih hrest]
  | @spread id _ _ _ hid _ _ ihinside ihrest =>
    obtain ⟨hlt, hrest⟩ := List.forall_mem_cons.mp hfuel
    obtain ⟨fuel, rfl⟩ := Nat.exists_eq_succ_of_ne_zero (Nat.ne_zero_of_lt hlt)
    have hinside := ihinside fun child hchild =>
      (hformed.older id child hchild).trans_le (Nat.le_of_lt_succ hlt)
    have hspread : tree.gatherChild excluded (fuel + 1) gathered id =
        (tree.children id).foldl (tree.gatherChild excluded fuel) gathered := by
      rw [gatherChild]
      rw [isSpread] at hid
      split at hid
      · next hkind => rw [hkind]
      · next hkind => rw [hkind]
      · cases hid
    rw [List.foldl_cons, hspread, hinside, ihrest hrest, List.foldl_append]

end Flattens

section Step

variable {id : NodeId} (gathered : Gathered)

/-- A child that is not listed declares nothing. -/
theorem gatherChild_of_listedName?_eq_none (hid : tree.isSpread id = false)
    (hname : tree.listedName? excluded id = none) :
    tree.gatherChild excluded 1 gathered id =
      { gathered with hasImports := gathered.hasImports || tree.isImport id } := by
  rw [gatherChild, isImport, tag?_eq]
  rw [listedName?] at hname
  rw [isSpread] at hid
  cases hkind : tree.kind? id with
  | none => simp
  | some kind =>
    rw [hkind] at hname hid
    cases kind with
    | recordDecl name =>
      rw [ite_eq_left_iff] at hname
      have hexcluded : some name = excluded := by
        by_contra hne
        cases hname hne
      simp [hexcluded, NodeKind.tag]
    | tupleDecl => cases hid
    | multiDecl => cases hid
    | _ => simp_all [NodeKind.declName?, NodeKind.tag]

/-- A child that is listed declares its name and, for a formal, the pattern variables of
its type. -/
theorem gatherChild_of_listedName?_eq_some {name : Name}
    (hname : tree.listedName? excluded id = some name) :
    tree.gatherChild excluded 1 gathered id =
      { gathered with
        declared := gathered.declared.declareAll
          ((name, id) :: (tree.formalType? id).toList.flatMap (tree.typeQueries tree.size))
        hasFunctions := gathered.hasFunctions || tree.isFunction id } := by
  rw [gatherChild, isFunction, tag?_eq, formalType?]
  rw [listedName?] at hname
  cases hkind : tree.kind? id with
  | none =>
    rw [hkind] at hname
    cases hname
  | some kind =>
    rw [hkind] at hname
    cases kind with
    | recordDecl other =>
      rw [Option.ite_none_left_eq_some] at hname
      obtain ⟨hne, hname⟩ := hname
      obtain rfl := Option.some.inj hname
      simp [hne, NodeKind.tag, Gathered.declare, DeclTable.declareAll]
    | formal other typeExpr =>
      obtain rfl := Option.some.inj hname
      cases typeExpr with
      | none => simp [NodeKind.declName?, NodeKind.tag, Gathered.declare, DeclTable.declareAll]
      | some typeExpr =>
        dsimp only
        rw [Gathered.foldl_declare]
        simp [NodeKind.tag, Gathered.declare, DeclTable.declareAll]
    | _ => simp_all [NodeKind.declName?, NodeKind.tag, Gathered.declare, DeclTable.declareAll]

/-- What is listed brings nothing in. -/
theorem isImport_of_listedName?_eq_some {name : Name}
    (hname : tree.listedName? excluded id = some name) : tree.isImport id = false := by
  rw [isImport, tag?_eq]
  rw [listedName?] at hname
  cases hkind : tree.kind? id with
  | none => simp
  | some kind =>
    rw [hkind] at hname
    cases kind with
    | useStmt => cases hname
    | importStmt => cases hname
    | _ => simp [NodeKind.tag]

end Step

/-- The type expression of a formal is one of its children. -/
theorem WellFormed.formalType?_sublist (hformed : tree.WellFormed) (id : NodeId) :
    (tree.formalType? id).toList.Sublist (tree.children id) := by
  rw [formalType?]
  split
  · next name typeExpr hkind =>
    cases typeExpr with
    | none => exact List.nil_sublist _
    | some typeExpr =>
      exact List.singleton_sublist.mpr (hformed.operands id _ hkind List.mem_cons_self)
  · exact List.nil_sublist _

theorem isFunction_of_mem_queries {nodes : List NodeId} {query : Name × NodeId}
    (hquery : query ∈ nodes.filterMap tree.query?) : tree.isFunction query.2 = false := by
  obtain ⟨node, -, hnode⟩ := List.mem_filterMap.mp hquery
  rw [query?] at hnode
  split at hnode
  · next hkind =>
    obtain rfl := Option.some.inj hnode
    simp [isFunction, tag?_of_kind? hkind, NodeKind.tag]
  · cases hnode

theorem map_query? (nodes : List NodeId) :
    ((nodes.filterMap tree.query?).map Prod.snd).Sublist nodes := by
  induction nodes with
  | nil => exact .slnil
  | cons node rest ih =>
    rw [List.filterMap_cons]
    cases hnode : tree.query? node with
    | none => exact ih.cons node
    | some query =>
      rw [query?] at hnode
      split at hnode
      · obtain rfl := Option.some.inj hnode
        exact ih.cons_cons node
      · cases hnode

namespace Lists

theorem unique {listed' : List (Name × NodeId)} (hlisted : tree.Lists excluded flat listed)
    (hlisted' : tree.Lists excluded flat listed') : listed = listed' := by
  induction hlisted generalizing listed' with
  | nil =>
    cases hlisted'
    rfl
  | skip hname _ ih =>
    cases hlisted' with
    | skip _ hrest' => rw [ih hrest']
    | add hname' => cases hname.symm.trans hname'
  | add hname htype _ ih =>
    cases hlisted' with
    | skip hname' => cases hname.symm.trans hname'
    | add hname' htype' hrest' =>
      rw [Option.some.inj (hname.symm.trans hname'), htype.unique htype', ih hrest']

/-- The nodes that have a preorder can be listed, in its order and as often. -/
theorem of_preorder (hformed : tree.WellFormed) (excluded : Option Name) {nodes : List NodeId}
    (hnodes : tree.Preorder flat nodes) :
    ∃ listed, tree.Lists excluded flat listed ∧ (listed.map Prod.snd).Sublist nodes := by
  induction flat generalizing nodes with
  | nil => exact ⟨[], .nil, List.nil_sublist _⟩
  | cons id rest ih =>
    cases hnodes with
    | cons hbelow hrest =>
      obtain ⟨listed, hlisted, hsub⟩ := ih hrest
      cases hname : tree.listedName? excluded id with
      | none =>
        exact ⟨listed, .skip hname hlisted,
          (hsub.trans (List.sublist_append_right _ _)).cons id⟩
      | some name =>
        obtain ⟨inside, hinside⟩ := hformed.exists_preorder (tree.formalType? id).toList
        refine ⟨_, .add hname hinside hlisted, ?_⟩
        have hwithin := hinside.sublist (hformed.formalType?_sublist id) hbelow
        rw [List.map_cons, List.map_append]
        exact (((map_query? inside).trans hwithin).append hsub).cons_cons id

/-- Gathering flattened children adds their list to the table and marks it accordingly. -/
theorem foldl_gatherChild (hlisted : tree.Lists excluded flat listed) (hformed : tree.WellFormed)
    (hflat : ∀ id ∈ flat, tree.isSpread id = false) (gathered : Gathered) :
    flat.foldl (tree.gatherChild excluded 1) gathered =
      { declared := gathered.declared.declareAll listed
        hasImports := gathered.hasImports || flat.any tree.isImport
        hasFunctions := gathered.hasFunctions || listed.any fun entry => tree.isFunction entry.2 }
      := by
  induction hlisted generalizing gathered with
  | nil => simp [DeclTable.declareAll]
  | skip hname _ ih =>
    obtain ⟨hid, hrest⟩ := List.forall_mem_cons.mp hflat
    rw [List.foldl_cons, gatherChild_of_listedName?_eq_none gathered hid hname, ih hrest]
    simp [Bool.or_assoc]
  | @add id name rest inside listed hname htype _ ih =>
    obtain ⟨hid, hrest⟩ := List.forall_mem_cons.mp hflat
    have hqueries : (tree.formalType? id).toList.flatMap (tree.typeQueries tree.size) =
        inside.filterMap tree.query? := by
      refine htype.flatMap_typeQueries hformed fun typeExpr hmem => ?_
      exact index_lt_of_parent? (hformed.adopted id _ ((hformed.formalType?_sublist id).mem hmem))
    have hnone : (inside.filterMap tree.query?).any (fun query => tree.isFunction query.2) = false :=
      List.any_eq_false.mpr fun query hquery => by simp [isFunction_of_mem_queries hquery]
    rw [List.foldl_cons, gatherChild_of_listedName?_eq_some gathered hname, ih hrest, hqueries,
      ← DeclTable.declareAll_append]
    simp [isImport_of_listedName?_eq_some hname, hnone, Bool.or_assoc]

end Lists

/-- The list of the flattened children of a node is what the node declares. -/
theorem WellFormed.exists_listing (hformed : tree.WellFormed) (id : NodeId)
    (excluded : Option Name) :
    ∃ flat listed, tree.Flattens (tree.children id) flat ∧ tree.Lists excluded flat listed ∧
      (listed.map Prod.snd).Nodup ∧
      tree.gather id excluded =
        { declared := DeclTable.declareAll .empty listed
          hasImports := flat.any tree.isImport
          hasFunctions := listed.any fun entry => tree.isFunction entry.2 } := by
  obtain ⟨nodes, hnodes⟩ := hformed.exists_preorder (tree.children id)
  obtain ⟨flat, inner, hflat, hinner, hsub⟩ := Flattens.of_preorder hnodes
  obtain ⟨listed, hlisted, hsub'⟩ := Lists.of_preorder hformed excluded hinner
  have hnodup := hformed.nodup_preorder hnodes (hformed.pairwise_apart id)
  refine ⟨flat, listed, hflat, hlisted, hnodup.sublist (hsub'.trans hsub), ?_⟩
  have hfuel : ∀ child ∈ tree.children id, child.index < tree.size := fun child hchild =>
    index_lt_of_parent? (hformed.adopted id child hchild)
  rw [gather, hflat.foldl_gatherChild hformed hfuel,
    hlisted.foldl_gatherChild hformed hflat.isSpread_eq_false]
  rfl

/-- What a node declares is the list of its flattened children: each name in order of
first occurrence, with its nodes in order. -/
theorem gather_eq_listing {tree : Tree} (hfinished : tree.Finished) (id : NodeId)
    (excluded : Option Name) :
    ∃ flat listed, (∀ flat', tree.Flattens (tree.children id) flat' ↔ flat' = flat) ∧
      (∀ listed', tree.Lists excluded flat listed' ↔ listed' = listed) ∧
      (tree.gather id excluded).declared.keys = (listed.map Prod.fst).eraseDups ∧
      (∀ name, (tree.gather id excluded).declared.decls name =
        (listed.filter fun entry => entry.1 = name).map (.node ·.2)) ∧
      (listed.map Prod.snd).Nodup ∧
      ((tree.gather id excluded).hasFunctions = true ↔
        ∃ entry ∈ listed, tree.tag? entry.2 = some .functionDecl) ∧
      ((tree.gather id excluded).hasImports = true ↔
        ∃ child ∈ flat, tree.tag? child = some .useStmt ∨ tree.tag? child = some .importStmt) := by
  obtain ⟨flat, listed, hflat, hlisted, hnodup, hgather⟩ :=
    hfinished.wellFormed.exists_listing id excluded
  rw [hgather]
  refine ⟨flat, listed, fun flat' => ⟨fun h => h.unique hflat, fun h => h ▸ hflat⟩,
    fun listed' => ⟨fun h => h.unique hlisted, fun h => h ▸ hlisted⟩,
    DeclTable.keys_declareAll listed, DeclTable.decls_declareAll .empty listed, hnodup, ?_, ?_⟩
  · simp [isFunction]
  · simp [isImport]

/-- A module with a formal and a record in a tuple, that and a variable in a multiple
declaration, a `use`, a function named as the formal, and an include. -/
def tupleTree : Tree := ofSteps
  [.typeQuery "t", .typeQuery "u", .call [⟨1⟩], .call [⟨0⟩, ⟨2⟩], .formal "x" (some ⟨3⟩),
    .recordDecl "R" [], .tupleDecl [⟨4⟩, ⟨5⟩], .variableDecl "y" none, .multiDecl [⟨6⟩, ⟨7⟩],
    .identifier "M", .clause ⟨9⟩ .unlimited [], .useStmt .unstated [⟨10⟩],
    .functionDecl "x" [] [], .includeDecl "i", .moduleDecl false "M" [⟨8⟩, ⟨11⟩, ⟨12⟩, ⟨13⟩]]

/-- The formal and the function share the first entry of the module, and the pattern
variables of the type stand in front of the variable. -/
theorem gather_eq_listing_tuple :
    tupleTree.Finished ∧ ∃ flat listed, tupleTree.Flattens (tupleTree.children ⟨14⟩) flat ∧
      tupleTree.Lists (tupleTree.declName? ⟨5⟩) flat listed ∧
      (listed.map Prod.fst).eraseDups.map some = [⟨4⟩, ⟨0⟩, ⟨1⟩, ⟨7⟩].map tupleTree.declName? ++
        [tupleTree.names.find? "i"] ∧
      (listed.map Prod.snd).Nodup ∧ (∃ entry ∈ listed, tupleTree.tag? entry.2 = some .functionDecl) ∧
      ∃ child ∈ flat, tupleTree.tag? child = some .useStmt ∨
        tupleTree.tag? child = some .importStmt := by
  have hfinished : tupleTree.Finished := finished_ofSteps (by decide +kernel)
  obtain ⟨flat, listed, hflat, hlisted, hkeys, -, hnodup, hfunctions, himports⟩ :=
    gather_eq_listing hfinished ⟨14⟩ (tupleTree.declName? ⟨5⟩)
  refine ⟨hfinished, flat, listed, (hflat flat).mpr rfl, (hlisted listed).mpr rfl, ?_, hnodup,
    hfunctions.mp (by decide +kernel), himports.mp (by decide +kernel)⟩
  rw [← hkeys]
  decide +kernel

end Tree

end Scoping
