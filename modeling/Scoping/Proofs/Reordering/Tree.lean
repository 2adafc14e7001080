import Mathlib.Data.List.Perm.Basic
import Scoping.Proofs.Context.Ownership

/-!
Two trees that differ in the order of some children only, such as that of the `use` and
`import` statements in one module. The same nodes open scopes in both, inside the same
others, and what they declare differs in order at most.
-/

namespace Scoping

/-- The declarations of a name in a table, in order; none if there are none. -/
def DeclTable.decls (table : DeclTable) (name : Name) : List Decl :=
  ((table.get? name).map Overloads.toList).getD []

/-- Adds declarations by nodes, one after the other. -/
def DeclTable.declareAll (table : DeclTable) (entries : List (Name × NodeId)) : DeclTable :=
  entries.foldl (fun table entry => table.declare entry.1 (.node entry.2)) table

/-- Whether two tables declare the same, in whatever order. -/
def DeclTable.SameDecls (table table' : DeclTable) : Prop :=
  ∀ name, (table.decls name).Perm (table'.decls name)

namespace DeclTable

variable {table table' : DeclTable} {name : Name}

theorem decls_of_get? {overloads : Overloads} (hknown : table.get? name = some overloads) :
    table.decls name = overloads.toList := by
  rw [decls, hknown]
  rfl

theorem get?_eq_none_iff : table.get? name = none ↔ table.decls name = [] := by
  rw [decls]
  cases table.get? name with
  | none => simp
  | some overloads => simp [Overloads.toList]

theorem decls_declare (table : DeclTable) (added name : Name) (decl : Decl) :
    (table.declare added decl).decls name =
      table.decls name ++ if added = name then [decl] else [] := by
  by_cases heq : added = name
  · subst heq
    rw [decls, get?_declare_self, if_pos rfl]
    rfl
  · rw [decls, get?_declare_of_ne table (Ne.symm heq), if_neg heq, List.append_nil]
    rfl

theorem decls_declareAll (table : DeclTable) (entries : List (Name × NodeId)) (name : Name) :
    (table.declareAll entries).decls name =
      table.decls name ++ (entries.filter fun entry => entry.1 = name).map (.node ·.2) := by
  induction entries generalizing table with
  | nil => simp [declareAll]
  | cons entry rest ih =>
    rw [declareAll, List.foldl_cons, ← declareAll, ih, decls_declare, List.append_assoc,
      List.filter_cons]
    by_cases heq : entry.1 = name <;> simp [heq]

theorem declareAll_append (table : DeclTable) (entries more : List (Name × NodeId)) :
    table.declareAll (entries ++ more) = (table.declareAll entries).declareAll more :=
  List.foldl_append

end DeclTable

/-- Declaring names one after the other fills the table and touches nothing else. -/
theorem Gathered.foldl_declare (gathered : Gathered) (entries : List (Name × NodeId)) :
    entries.foldl (fun gathered entry => gathered.declare entry.1 entry.2) gathered =
      { gathered with declared := gathered.declared.declareAll entries } := by
  induction entries generalizing gathered with
  | nil => rfl
  | cons entry rest ih => exact ih (gathered.declare entry.1 entry.2)

namespace DeclTable

variable {table table' : DeclTable} {name : Name}

namespace SameDecls

theorem get?_eq_none_iff (hsame : table.SameDecls table') :
    table.get? name = none ↔ table'.get? name = none := by
  rw [DeclTable.get?_eq_none_iff, DeclTable.get?_eq_none_iff]
  exact ⟨fun hnone => (hnone ▸ hsame name).nil_eq.symm, fun hnone => (hnone ▸ hsame name).eq_nil⟩

theorem isEmpty_eq (hsame : table.SameDecls table') : table.isEmpty = table'.isEmpty := by
  rw [Bool.eq_iff_iff, Assoc.isEmpty_iff, Assoc.isEmpty_iff]
  exact forall_congr' fun name => hsame.get?_eq_none_iff

theorem exists_perm (hsame : table.SameDecls table') {overloads : Overloads}
    (hknown : table.get? name = some overloads) :
    ∃ overloads', table'.get? name = some overloads' ∧
      overloads.toList.Perm overloads'.toList := by
  cases hother : table'.get? name with
  | none =>
    rw [hsame.get?_eq_none_iff.mpr hother] at hknown
    cases hknown
  | some overloads' =>
    refine ⟨overloads', rfl, ?_⟩
    rw [← decls_of_get? hknown, ← decls_of_get? hother]
    exact hsame name

end SameDecls

end DeclTable

namespace Tree

variable {tree tree' : Tree} {holder : NodeId}

/-- Two trees that differ in nothing but the order of the children of one node. -/
structure Reorders (tree tree' : Tree) (holder : NodeId) : Prop where
  names : tree.names = tree'.names
  roots : tree.roots = tree'.roots
  bodies : tree.bodies = tree'.bodies
  size : tree.size = tree'.size
  kind? : ∀ id, tree.kind? id = tree'.kind? id
  parent? : ∀ id, tree.parent? id = tree'.parent? id
  children : ∀ id ≠ holder, tree.children id = tree'.children id
  perm : (tree.children holder).Perm (tree'.children holder)

/-- A tree with other children of one node. -/
def rearrange (tree : Tree) (holder : NodeId) (children : List NodeId) : Tree :=
  { tree with nodes := tree.nodes.modify holder.index fun node => { node with children } }

theorem node?_rearrange (tree : Tree) (holder : NodeId) (children : List NodeId) (id : NodeId) :
    (tree.rearrange holder children).node? id =
      if id = holder then (tree.node? id).map fun node => { node with children }
      else tree.node? id := by
  obtain ⟨holder⟩ := holder
  obtain ⟨id⟩ := id
  rw [node?, rearrange, Array.getElem?_modify]
  simp only [NodeId.mk.injEq, eq_comm (a := holder)]
  rfl

theorem reorders_rearrange {children : List NodeId} (hperm : (tree.children holder).Perm children) :
    tree.Reorders (tree.rearrange holder children) holder where
  names := rfl
  roots := rfl
  bodies := rfl
  size := Array.size_modify.symm
  kind? id := by
    rw [Tree.kind?, Tree.kind?, node?_rearrange]
    split
    · rw [Option.map_map]
      rfl
    · rfl
  parent? id := by
    rw [Tree.parent?, Tree.parent?, node?_rearrange]
    split
    · rw [Option.bind_map]
      rfl
    · rfl
  children id hne := by
    rw [Tree.children, Tree.children, node?_rearrange, if_neg hne]
  perm := by
    unfold Tree.children at hperm ⊢
    rw [node?_rearrange, if_pos rfl]
    cases hnode : tree.node? holder with
    | none => exact .nil
    | some node =>
      rw [hnode] at hperm
      exact hperm

/-- What a child declares, in the order in which it is gathered. -/
def declarations (tree : Tree) (excluded : Option Name) : Nat → NodeId → List (Name × NodeId)
  | 0, _ => []
  | fuel + 1, id =>
    match tree.kind? id with
    | none | some (.useStmt _) | some (.importStmt _) => []
    | some .tupleDecl | some .multiDecl =>
      (tree.children id).flatMap (tree.declarations excluded fuel)
    | some (.includeDecl name) => [(name, id)]
    | some (.recordDecl name) => if some name = excluded then [] else [(name, id)]
    | some (.formal name (some typeExpr)) => (name, id) :: tree.typeQueries tree.size typeExpr
    | some kind =>
      match kind.declName? with
      | some name => [(name, id)]
      | none => []

/-- Whether a child is a `use` or an `import`, or a declaration that holds one. -/
def bringsIn (tree : Tree) : Nat → NodeId → Bool
  | 0, _ => false
  | fuel + 1, id =>
    match tree.kind? id with
    | some .tupleDecl | some .multiDecl => (tree.children id).any (tree.bringsIn fuel)
    | some (.useStmt _) | some (.importStmt _) => true
    | _ => false

/-- Gathering children one after the other adds up what each of them adds. -/
theorem foldl_gather {step : Gathered → NodeId → Gathered} {adds : NodeId → List (Name × NodeId)}
    {marks : NodeId → Bool}
    (hdeclared : ∀ gathered id,
      (step gathered id).declared = gathered.declared.declareAll (adds id))
    (himports : ∀ gathered id,
      (step gathered id).hasImports = (gathered.hasImports || marks id))
    (gathered : Gathered) (ids : List NodeId) :
    (ids.foldl step gathered).declared = gathered.declared.declareAll (ids.flatMap adds) ∧
      (ids.foldl step gathered).hasImports = (gathered.hasImports || ids.any marks) := by
  induction ids generalizing gathered with
  | nil => exact ⟨rfl, (Bool.or_false _).symm⟩
  | cons id rest ih =>
    obtain ⟨hrest, hrest'⟩ := ih (step gathered id)
    rw [List.foldl_cons, hrest, hrest', hdeclared, himports]
    exact ⟨by rw [List.flatMap_cons, DeclTable.declareAll_append], Bool.or_assoc _ _ _⟩

theorem gatherChild_adds (tree : Tree) (excluded : Option Name) (fuel : Nat) (gathered : Gathered)
    (id : NodeId) :
    (tree.gatherChild excluded fuel gathered id).declared =
        gathered.declared.declareAll (tree.declarations excluded fuel id) ∧
      (tree.gatherChild excluded fuel gathered id).hasImports =
        (gathered.hasImports || tree.bringsIn fuel id) := by
  induction fuel generalizing gathered id with
  | zero => exact ⟨rfl, (Bool.or_false _).symm⟩
  | succ fuel ih =>
    have hbelow := foldl_gather (fun gathered id => (ih gathered id).1)
      (fun gathered id => (ih gathered id).2) gathered (tree.children id)
    rw [gatherChild, declarations, bringsIn]
    cases tree.kind? id with
    | none => exact ⟨rfl, (Bool.or_false _).symm⟩
    | some kind =>
      cases kind with
      | tupleDecl => exact hbelow
      | multiDecl => exact hbelow
      | useStmt => exact ⟨rfl, (Bool.or_true _).symm⟩
      | importStmt => exact ⟨rfl, (Bool.or_true _).symm⟩
      | recordDecl name =>
        dsimp only
        split
        · exact ⟨rfl, (Bool.or_false _).symm⟩
        · exact ⟨rfl, (Bool.or_false _).symm⟩
      | formal name typeExpr =>
        cases typeExpr with
        | none => exact ⟨rfl, (Bool.or_false _).symm⟩
        | some typeExpr =>
          dsimp only
          rw [Gathered.foldl_declare]
          exact ⟨rfl, (Bool.or_false _).symm⟩
      | _ => exact ⟨rfl, (Bool.or_false _).symm⟩

/-- A node declares what its children declare, and brings something in if one of them
does. -/
theorem gather_adds (tree : Tree) (id : NodeId) (excluded : Option Name) :
    (tree.gather id excluded).declared = DeclTable.declareAll .empty
        ((tree.children id).flatMap (tree.declarations excluded tree.size)) ∧
      (tree.gather id excluded).hasImports = (tree.children id).any (tree.bringsIn tree.size) :=
  foldl_gather (fun gathered id => (gatherChild_adds tree excluded tree.size gathered id).1)
    (fun gathered id => (gatherChild_adds tree excluded tree.size gathered id).2) .empty _

theorem tag?_eq (tree : Tree) (id : NodeId) : tree.tag? id = (tree.kind? id).map NodeKind.tag := by
  rw [tag?, kind?, Option.map_map]
  rfl

namespace Reorders

theorem symm (hreorders : tree.Reorders tree' holder) : tree'.Reorders tree holder where
  names := hreorders.names.symm
  roots := hreorders.roots.symm
  bodies := hreorders.bodies.symm
  size := hreorders.size.symm
  kind? id := (hreorders.kind? id).symm
  parent? id := (hreorders.parent? id).symm
  children id hid := (hreorders.children id hid).symm
  perm := hreorders.perm.symm

variable (hreorders : tree.Reorders tree' holder)
include hreorders

theorem tag? (id : NodeId) : tree.tag? id = tree'.tag? id := by
  rw [tag?_eq, tag?_eq, hreorders.kind?]

theorem standIn (id : NodeId) : tree.standIn id = tree'.standIn id := by
  rw [Tree.standIn, Tree.standIn, hreorders.tag?, body?, body?, hreorders.bodies]

theorem children_perm (id : NodeId) : (tree.children id).Perm (tree'.children id) := by
  by_cases heq : id = holder
  · exact heq ▸ hreorders.perm
  · rw [hreorders.children id heq]

theorem isInInternalModule (id : NodeId) :
    tree.isInInternalModule id = tree'.isInInternalModule id := by
  have hchain : ∀ fuel id, tree.chain fuel id = tree'.chain fuel id := by
    intro fuel
    induction fuel with
    | zero => exact fun _ => rfl
    | succ fuel ih =>
      intro id
      rw [chain, chain, hreorders.parent?]
      cases tree'.parent? id with
      | none => rfl
      | some parent => exact congrArg (List.cons id) (ih parent)
  have hinternal : tree.isInternalModule = tree'.isInternalModule := by
    funext id
    rw [isInternalModule, isInternalModule, hreorders.kind?]
  rw [Tree.isInInternalModule, Tree.isInInternalModule, lineage, lineage, hchain, hreorders.size,
    hinternal]

theorem typeQueries_perm (fuel : Nat) (id : NodeId) :
    (tree.typeQueries fuel id).Perm (tree'.typeQueries fuel id) := by
  induction fuel generalizing id with
  | zero => exact .nil
  | succ fuel ih =>
    have hbelow : ((tree.children id).flatMap (tree.typeQueries fuel)).Perm
        ((tree'.children id).flatMap (tree'.typeQueries fuel)) :=
      (hreorders.children_perm id).flatMap fun child _ => ih child
    rw [typeQueries, typeQueries, hreorders.kind?]
    split
    · exact hbelow.cons _
    · exact hbelow

theorem declarations_perm (excluded : Option Name) (fuel : Nat) (id : NodeId) :
    (tree.declarations excluded fuel id).Perm (tree'.declarations excluded fuel id) := by
  induction fuel generalizing id with
  | zero => exact .nil
  | succ fuel ih =>
    have hbelow : ((tree.children id).flatMap (tree.declarations excluded fuel)).Perm
        ((tree'.children id).flatMap (tree'.declarations excluded fuel)) :=
      (hreorders.children_perm id).flatMap fun child _ => ih child
    rw [declarations, declarations, hreorders.kind?]
    split
    · exact .nil
    · exact .nil
    · exact .nil
    · exact hbelow
    · exact hbelow
    · exact .refl _
    · exact .refl _
    · rw [hreorders.size]
      exact (hreorders.typeQueries_perm tree'.size _).cons _
    · exact .refl _

theorem bringsIn_eq (fuel : Nat) (id : NodeId) :
    tree.bringsIn fuel id = tree'.bringsIn fuel id := by
  induction fuel generalizing id with
  | zero => rfl
  | succ fuel ih =>
    have hbelow : (tree.children id).any (tree.bringsIn fuel) =
        (tree'.children id).any (tree'.bringsIn fuel) := by
      rw [(hreorders.children_perm id).any_eq]
      exact congrArg _ (funext ih)
    rw [bringsIn, bringsIn, hreorders.kind?]
    split
    · exact hbelow
    · exact hbelow
    · rfl
    · rfl
    · rfl

/-- A node declares the same, in whatever order, and brings something in in both or in
neither. -/
theorem gather_same (id : NodeId) (excluded : Option Name) :
    DeclTable.SameDecls (tree.gather id excluded).declared (tree'.gather id excluded).declared ∧
      (tree.gather id excluded).hasImports = (tree'.gather id excluded).hasImports := by
  obtain ⟨hdeclared, himports⟩ := tree.gather_adds id excluded
  obtain ⟨hdeclared', himports'⟩ := tree'.gather_adds id excluded
  constructor
  · intro name
    rw [hdeclared, hdeclared', DeclTable.decls_declareAll, DeclTable.decls_declareAll,
      ← hreorders.size]
    refine List.Perm.append_left _ (List.Perm.map _ (List.Perm.filter _ ?_))
    exact (hreorders.children_perm id).flatMap fun child _ =>
      hreorders.declarations_perm excluded tree.size child
  · rw [himports, himports', (hreorders.children_perm id).any_eq, ← hreorders.size]
    exact congrArg _ (funext (hreorders.bringsIn_eq tree.size))

end Reorders

end Tree

/-- The same program over another tree. -/
abbrev Program.over (program : Program) (tree : Tree) : Program := { program with tree }

namespace Tree.Reorders

variable {program : Program} {tree : Tree} {holder : NodeId}
variable (hreorders : program.tree.Reorders tree holder)
include hreorders

theorem opensScope (id : NodeId) : program.opensScope id = (program.over tree).opensScope id := by
  obtain ⟨hdeclared, himports⟩ := hreorders.gather_same id (some program.tupleRecord)
  have htrivial : (program.gather id).isTrivial = ((program.over tree).gather id).isTrivial := by
    rw [Gathered.isTrivial, Gathered.isTrivial]
    exact congrArg₂ (fun empty brings => empty && !brings) hdeclared.isEmpty_eq himports
  rw [Program.opensScope, Program.opensScope, htrivial, ← hreorders.tag?]

theorem owner {id : NodeId} {owner : Option NodeId} (howner : program.Owner id owner) :
    (program.over tree).Owner id owner := by
  induction howner with
  | @opens id hopens =>
    rw [hreorders.standIn] at hopens ⊢
    rw [hreorders.opensScope] at hopens
    exact .opens hopens
  | climbs hcloses hparent _ ih =>
    rw [hreorders.standIn, hreorders.opensScope] at hcloses
    rw [hreorders.standIn, hreorders.parent?] at hparent
    exact .climbs hcloses hparent ih
  | top hcloses hparent =>
    rw [hreorders.standIn, hreorders.opensScope] at hcloses
    rw [hreorders.standIn, hreorders.parent?] at hparent
    exact .top hcloses hparent

theorem around {id : NodeId} {owner : Option NodeId} (haround : program.Around id owner) :
    (program.over tree).Around id owner := by
  rw [Program.Around, hreorders.parent?] at haround
  rw [Program.Around]
  cases hparent : tree.parent? id with
  | none =>
    rw [hparent] at haround
    exact haround
  | some parent =>
    rw [hparent] at haround
    exact hreorders.owner haround

end Tree.Reorders

end Scoping
