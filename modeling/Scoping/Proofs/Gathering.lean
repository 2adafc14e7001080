import Scoping.Proofs.Context.Arena

/-!
What the flags of a scope say of its declarations. A scope that is not marked as one that
declares functions declares none, under any name, whichever of the nested declarations
and pattern variables its names come from.
-/

namespace Scoping

/-- What a table holds under a name after a declaration was declared just now, or before. -/
theorem DeclTable.cases_of_mem_declare {table : DeclTable} {added name : Name} {new decl : Decl}
    {overloads : Overloads} (hdeclared : (table.declare added new).get? name = some overloads)
    (hdecl : decl ∈ overloads.toList) :
    (name = added ∧ decl = new) ∨
      ∃ known, table.get? name = some known ∧ decl ∈ known.toList := by
  by_cases heq : name = added
  · subst heq
    have hlist := table.get?_declare_self name new
    rw [hdeclared] at hlist
    rw [Option.some.inj hlist, List.mem_append, List.mem_singleton] at hdecl
    rcases hdecl with hold | hnew
    · cases hknown : table.get? name with
      | none =>
        rw [hknown] at hold
        cases hold
      | some known =>
        rw [hknown] at hold
        exact .inr ⟨known, rfl, hold⟩
    · exact .inl ⟨rfl, hnew⟩
  · rw [get?_declare_of_ne table heq] at hdeclared
    exact .inr ⟨overloads, hdeclared, hdecl⟩

namespace Tree

/-- Whether one of the declarations of a set is a function. -/
def OffersFunction (tree : Tree) (overloads : Overloads) : Prop :=
  ∃ node, tree.tag? node = some .functionDecl ∧ .node node ∈ overloads.toList

/-- Whether functions are declared only where the table is marked. -/
def MarksFunctions (tree : Tree) (gathered : Gathered) : Prop :=
  ∀ name overloads, gathered.declared.get? name = some overloads →
    tree.OffersFunction overloads → gathered.hasFunctions = true

variable {tree : Tree} {gathered : Gathered}

theorem marksFunctions_declare (hmarks : tree.MarksFunctions gathered) (name : Name) {id : NodeId}
    (hid : tree.tag? id ≠ some .functionDecl) :
    tree.MarksFunctions (gathered.declare name id) := by
  rintro other overloads hdeclared ⟨node, hnode, hmem⟩
  rcases DeclTable.cases_of_mem_declare hdeclared hmem with ⟨-, hnew⟩ | ⟨known, hknown, hold⟩
  · cases hnew
    exact absurd hnode hid
  · exact hmarks other known hknown ⟨node, hnode, hold⟩

theorem tag?_of_kind? {id : NodeId} {kind : NodeKind} (hkind : tree.kind? id = some kind) :
    tree.tag? id = some kind.tag := by
  obtain ⟨node, hnode, rfl⟩ := Option.map_eq_some_iff.mp hkind
  exact Option.map_eq_some_iff.mpr ⟨node, hnode, rfl⟩

/-- The pattern variables of a type are no functions. -/
theorem tag?_of_mem_typeQueries {fuel : Nat} {id : NodeId} {query : Name × NodeId}
    (hquery : query ∈ tree.typeQueries fuel id) : tree.tag? query.2 = some .typeQuery := by
  induction fuel generalizing id with
  | zero => cases hquery
  | succ fuel ih =>
    have hbelow : query ∈ (tree.children id).flatMap (tree.typeQueries fuel) →
        tree.tag? query.2 = some .typeQuery := fun hmem => by
      obtain ⟨child, -, hchild⟩ := List.mem_flatMap.mp hmem
      exact ih hchild
    rw [typeQueries] at hquery
    split at hquery
    · next name hkind =>
      rcases List.mem_cons.mp hquery with rfl | hmem
      · exact tag?_of_kind? hkind
      · exact hbelow hmem
    · exact hbelow hquery

/-- A child marks the table when it is a function, and declares no other. -/
theorem marksFunctions_gatherChild (excluded : Option Name) {fuel : Nat}
    (hmarks : tree.MarksFunctions gathered) (id : NodeId) :
    tree.MarksFunctions (tree.gatherChild excluded fuel gathered id) := by
  induction fuel generalizing gathered id with
  | zero => exact hmarks
  | succ fuel ih =>
    have hall : tree.MarksFunctions
        ((tree.children id).foldl (tree.gatherChild excluded fuel) gathered) :=
      List.foldlRecOn _ _ hmarks fun _ hmarks child _ => ih hmarks child
    have hdeclare : ∀ {kind : NodeKind} (name : Name), tree.kind? id = some kind →
        kind.tag ≠ .functionDecl → tree.MarksFunctions (gathered.declare name id) :=
      fun name hkind htag => marksFunctions_declare hmarks name fun hfunction =>
        htag (Option.some.inj ((tag?_of_kind? hkind).symm.trans hfunction))
    rw [gatherChild]
    split
    · exact hmarks
    · exact hall
    · exact hall
    · exact hmarks
    · exact hmarks
    · next hkind => exact hdeclare _ hkind nofun
    · next hkind =>
      split
      · exact hmarks
      · exact hdeclare _ hkind nofun
    · exact fun _ _ _ _ => rfl
    · next hkind =>
      refine List.foldlRecOn _ _ (hdeclare _ hkind nofun) fun _ hmarks query hquery => ?_
      refine marksFunctions_declare hmarks query.1 fun hfunction => ?_
      cases (tag?_of_mem_typeQueries hquery).symm.trans hfunction
    · next kind _ _ _ _ _ _ hfunction _ hkind =>
      split
      · next name hname =>
        refine hdeclare name hkind fun htag => ?_
        cases kind with
        | functionDecl other => exact hfunction other rfl
        | _ => cases htag
      · exact hmarks

theorem marksFunctions_gather (tree : Tree) (id : NodeId) (excluded : Option Name) :
    tree.MarksFunctions (tree.gather id excluded) :=
  List.foldlRecOn _ _ nofun fun _ hmarks child _ => marksFunctions_gatherChild excluded hmarks child

/-- What is marked as bringing something in stays marked. -/
theorem hasImports_gatherChild (excluded : Option Name) {fuel : Nat}
    (himports : gathered.hasImports = true) (id : NodeId) :
    (tree.gatherChild excluded fuel gathered id).hasImports = true := by
  induction fuel generalizing gathered id with
  | zero => exact himports
  | succ fuel ih =>
    have hall : ((tree.children id).foldl (tree.gatherChild excluded fuel) gathered).hasImports =
        true :=
      List.foldlRecOn (motive := fun gathered : Gathered => gathered.hasImports = true) _ _ himports
        fun _ hmarked child _ => ih hmarked child
    rw [gatherChild]
    split
    · exact himports
    · exact hall
    · exact hall
    · rfl
    · rfl
    · exact himports
    · split <;> exact himports
    · exact himports
    · exact List.foldlRecOn (motive := fun gathered : Gathered => gathered.hasImports = true) _ _
        himports
        fun _ hmarked _ _ => hmarked
    · split <;> exact himports

/-- A node that holds a `use` or `import` is marked as bringing something in. -/
theorem hasImports_of_mem_children {id child : NodeId} (hchild : child ∈ tree.children id)
    (hstatement : tree.clausesOfStatement child ≠ []) (excluded : Option Name) :
    (tree.gather id excluded).hasImports = true := by
  obtain ⟨before, after, hsplit⟩ := List.append_of_mem hchild
  have hkind : ∃ access, tree.kind? child = some (.useStmt access) ∨
      tree.kind? child = some (.importStmt access) := by
    unfold clausesOfStatement at hstatement
    split at hstatement
    · next access hkind => exact ⟨access, .inl hkind⟩
    · next access hkind => exact ⟨access, .inr hkind⟩
    · exact absurd rfl hstatement
  have hsize : 0 < tree.size := by
    have hnode : ∃ kind, tree.kind? child = some kind := by
      obtain ⟨access, hkind | hkind⟩ := hkind <;> exact ⟨_, hkind⟩
    obtain ⟨kind, hkind⟩ := hnode
    obtain ⟨node, hnode, -⟩ := Option.map_eq_some_iff.mp hkind
    exact Nat.zero_lt_of_lt (Array.getElem?_eq_some_iff.mp hnode).1
  obtain ⟨fuel, hfuel⟩ := Nat.exists_eq_succ_of_ne_zero (Nat.ne_of_gt hsize)
  have hmarked : ∀ gathered, (tree.gatherChild excluded tree.size gathered child).hasImports =
      true := by
    intro gathered
    obtain ⟨access, hkind | hkind⟩ := hkind <;> simp [hfuel, gatherChild, hkind]
  rw [gather, hsplit, List.foldl_append, List.foldl_cons]
  exact List.foldlRecOn (motive := fun gathered : Gathered => gathered.hasImports = true) _ _
    (hmarked _)
    fun _ himports other _ => hasImports_gatherChild excluded himports other

end Tree

/-- Whether a table declares nothing but built-in types. -/
def DeclTable.AllBuiltin (table : DeclTable) : Prop :=
  ∀ name overloads, table.get? name = some overloads →
    ∀ decl ∈ overloads.toList, decl.isBuiltin = true

theorem DeclTable.allBuiltin_ofBuiltins (names : List Name) : AllBuiltin (ofBuiltins names) := by
  refine List.foldlRecOn (motive := AllBuiltin) names _ nofun fun table htable added _ => ?_
  intro name overloads hknown
  by_cases heq : name = added
  · subst heq
    rw [Assoc.get?_upsert_self] at hknown
    obtain rfl := Option.some.inj hknown
    cases hold : table.get? name with
    | none =>
      intro decl hdecl
      rw [List.mem_singleton.mp hdecl]
      rfl
    | some known => exact htable name known hold
  · rw [Assoc.get?_upsert_of_ne _ heq] at hknown
    exact htable name overloads hknown

namespace Context.Sound

variable {program : Program} {context : Context} (hsound : context.Sound program)
include hsound

/-- A scope that declares a function is marked as one. -/
theorem hasFunctions_of_declared {id : ScopeId} (hid : context.Has id) {name : Name}
    {overloads : Overloads} (hdeclared : (context.scope id).declared.get? name = some overloads)
    (hfunction : program.tree.OffersFunction overloads) :
    (context.scope id).hasFunctions = true := by
  have hshapes := hsound.shapes id hid
  generalize context.scope id = scope at hshapes hdeclared
  cases hshapes with
  | root =>
    obtain ⟨node, -, hmem⟩ := hfunction
    cases DeclTable.allBuiltin_ofBuiltins _ name overloads hdeclared _ hmem
  | inner => exact Tree.marksFunctions_gather _ _ _ name overloads hdeclared hfunction

end Context.Sound

end Scoping
