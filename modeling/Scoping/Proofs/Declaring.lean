import Scoping.Proofs.Context.Spare
import Scoping.Proofs.Reordering.Tree
import Scoping.Proofs.Syntax.Rooted

/-!
Which scope declares what. The root scope declares the built-in types, each on its own,
and any other scope declares nodes. What one node declares is below different children of
it or nested in each other, so no scope declares a node twice. A pattern variable is
declared beside each formal whose type it is part of; any other node is declared by the one
scope that holds it.
-/

namespace Scoping

open Context

namespace Tree

variable {tree : Tree}

/-- Of two nodes around a node, one is around the other. -/
theorem Encloses.total {first second inner : NodeId} (hfirst : tree.Encloses first inner)
    (hsecond : tree.Encloses second inner) :
    tree.Encloses first second ∨ tree.Encloses second first := by
  obtain ⟨few, hfew⟩ := hfirst
  obtain ⟨many, hmany⟩ := hsecond
  rcases Nat.le_total few many with hle | hle
  · obtain ⟨rest, rfl⟩ := Nat.exists_eq_add_of_le hle
    rw [ancestor?_add, hfew, Option.bind_some] at hmany
    exact .inr ⟨rest, hmany⟩
  · obtain ⟨rest, rfl⟩ := Nat.exists_eq_add_of_le hle
    rw [ancestor?_add, hmany, Option.bind_some] at hfew
    exact .inl ⟨rest, hfew⟩

/-- A node around another one is around its parent. -/
theorem Encloses.parent {outer inner parent : NodeId} (hencloses : tree.Encloses outer inner)
    (hne : outer ≠ inner) (hparent : tree.parent? inner = some parent) :
    tree.Encloses outer parent := by
  obtain ⟨steps, hsteps⟩ := hencloses
  cases steps with
  | zero => exact absurd (Option.some.inj hsteps).symm hne
  | succ steps =>
    rw [ancestor?, hparent, Option.bind_some] at hsteps
    exact ⟨steps, hsteps⟩

/-- No node is below two nodes with the same parent. -/
theorem Acyclic.eq_of_siblings (hacyclic : tree.Acyclic) {first second parent inner : NodeId}
    (hfirst : tree.parent? first = some parent) (hsecond : tree.parent? second = some parent)
    (hinner : tree.Encloses first inner) (hinner' : tree.Encloses second inner) :
    first = second := by
  by_contra hne
  rcases hinner.total hinner' with habove | habove
  · exact hacyclic.not_encloses_parent hfirst (habove.parent hne hsecond)
  · exact hacyclic.not_encloses_parent hsecond (habove.parent (Ne.symm hne) hfirst)

/-- Whether all that is listed for a node is below it, and is listed once. -/
structure ListsBelow (tree : Tree) (entries : NodeId → List (Name × NodeId)) : Prop where
  below : ∀ id, ∀ entry ∈ entries id, tree.Encloses id entry.2
  nodup : ∀ id, ((entries id).map Prod.snd).Nodup

namespace ListsBelow

variable {entries : NodeId → List (Name × NodeId)} (hlists : tree.ListsBelow entries)
include hlists

theorem not_mem_of_parent? (hacyclic : tree.Acyclic) {id child : NodeId}
    (hparent : tree.parent? child = some id) : id ∉ (entries child).map Prod.snd := by
  intro hmem
  obtain ⟨entry, hentry, rfl⟩ := List.mem_map.mp hmem
  exact hacyclic.not_encloses_parent hparent (hlists.below child entry hentry)

/-- What is listed for the children of a node is below it as well. -/
theorem children (hacyclic : tree.Acyclic) (hformed : tree.WellFormed) :
    tree.ListsBelow fun id => (tree.children id).flatMap entries where
  below id entry hentry := by
    obtain ⟨child, hchild, hmem⟩ := List.mem_flatMap.mp hentry
    exact (Encloses.of_parent? (hformed.adopted id child hchild)).trans
      (hlists.below child entry hmem)
  nodup id := by
    rw [List.map_flatMap, List.nodup_flatMap]
    refine ⟨fun child _ => hlists.nodup child, ?_⟩
    refine (hformed.distinct id).imp_of_mem fun {first second} hfirst hsecond hne => ?_
    rw [Function.onFun, List.disjoint_left]
    intro node hnode hnode'
    obtain ⟨entry, hentry, rfl⟩ := List.mem_map.mp hnode
    obtain ⟨other, hother, hsame⟩ := List.mem_map.mp hnode'
    have habove := hlists.below second other hother
    rw [hsame] at habove
    exact hne (hacyclic.eq_of_siblings (hformed.adopted id first hfirst)
      (hformed.adopted id second hsecond) (hlists.below first entry hentry) habove)

theorem not_mem_children (hacyclic : tree.Acyclic) (hformed : tree.WellFormed) (id : NodeId) :
    id ∉ ((tree.children id).flatMap entries).map Prod.snd := by
  intro hmem
  rw [List.map_flatMap] at hmem
  obtain ⟨child, hchild, hmem⟩ := List.mem_flatMap.mp hmem
  exact hlists.not_mem_of_parent? hacyclic (hformed.adopted id child hchild) hmem

end ListsBelow

theorem typeQueries_listsBelow (hacyclic : tree.Acyclic) (hformed : tree.WellFormed) (fuel : Nat) :
    tree.ListsBelow (tree.typeQueries fuel) := by
  induction fuel with
  | zero => exact ⟨nofun, fun _ => List.nodup_nil⟩
  | succ fuel ih =>
    obtain ⟨hbelow, hnodup⟩ := ih.children hacyclic hformed
    constructor
    · intro id entry hentry
      rw [typeQueries] at hentry
      split at hentry
      · rcases List.mem_cons.mp hentry with rfl | hmem
        · exact .refl tree id
        · exact hbelow id entry hmem
      · exact hbelow id entry hentry
    · intro id
      rw [typeQueries]
      split
      · exact List.nodup_cons.mpr ⟨ih.not_mem_children hacyclic hformed id, hnodup id⟩
      · exact hnodup id

/-- The induction is on the nesting of tuple and multiple declarations. -/
theorem declarations_listsBelow (hacyclic : tree.Acyclic) (hformed : tree.WellFormed)
    (excluded : Option Name) (fuel : Nat) :
    tree.ListsBelow (tree.declarations excluded fuel) := by
  have hqueries := typeQueries_listsBelow hacyclic hformed tree.size
  have hself : ∀ (id : NodeId) (name : Name), ∀ entry ∈ [(name, id)], tree.Encloses id entry.2 := by
    simp [Encloses.refl]
  have htype : ∀ {id typeExpr : NodeId} {name : Name},
      tree.kind? id = some (.formal name (some typeExpr)) → tree.parent? typeExpr = some id :=
    fun hkind => hformed.adopted _ _ (hformed.operands _ _ hkind List.mem_cons_self)
  induction fuel with
  | zero => exact ⟨fun _ => List.forall_mem_nil _, fun _ => List.nodup_nil⟩
  | succ fuel ih =>
    obtain ⟨hbelow, hnodup⟩ := ih.children hacyclic hformed
    constructor
    · intro id
      rw [declarations]
      split
      · exact List.forall_mem_nil _
      · exact List.forall_mem_nil _
      · exact List.forall_mem_nil _
      · exact hbelow id
      · exact hbelow id
      · exact hself id _
      · split
        · exact List.forall_mem_nil _
        · exact hself id _
      · next hkind =>
        refine List.forall_mem_cons.mpr ⟨.refl tree id, fun query hquery => ?_⟩
        exact (Encloses.of_parent? (htype hkind)).trans (hqueries.below _ query hquery)
      · split
        · exact hself id _
        · exact List.forall_mem_nil _
    · intro id
      rw [declarations]
      split
      · exact List.nodup_nil
      · exact List.nodup_nil
      · exact List.nodup_nil
      · exact hnodup id
      · exact hnodup id
      · exact List.nodup_singleton id
      · split
        · exact List.nodup_nil
        · exact List.nodup_singleton id
      · next hkind =>
        exact List.nodup_cons.mpr
          ⟨hqueries.not_mem_of_parent? hacyclic (htype hkind), hqueries.nodup _⟩
      · split
        · exact List.nodup_singleton id
        · exact List.nodup_nil

/-- At most one node that is no declaration of several names holds a node. -/
theorem HeldIn.unique {first second node : NodeId}
    (hfirst : tree.HeldIn first node) (hsecond : tree.HeldIn second node)
    (hsingle : ∀ owner ∈ [first, second],
      tree.tag? owner ≠ some .tupleDecl ∧ tree.tag? owner ≠ some .multiDecl) :
    first = second := by
  induction hfirst with
  | child hparent =>
    cases hsecond with
    | child hparent' => exact Option.some.inj (hparent.symm.trans hparent')
    | through hparent' htag =>
      obtain rfl := Option.some.inj (hparent.symm.trans hparent')
      obtain ⟨htuple, hmulti⟩ := hsingle _ List.mem_cons_self
      exact (htag.elim htuple hmulti).elim
  | through hparent htag _ ih =>
    cases hsecond with
    | child hparent' =>
      obtain rfl := Option.some.inj (hparent.symm.trans hparent')
      obtain ⟨htuple, hmulti⟩ := hsingle _ (List.mem_cons_of_mem _ List.mem_cons_self)
      exact (htag.elim htuple hmulti).elim
    | through hparent' _ hholder =>
      obtain rfl := Option.some.inj (hparent.symm.trans hparent')
      exact ih hholder

end Tree

/-- A table of built-in types holds each of them alone, however often it is listed. -/
theorem DeclTable.get?_ofBuiltins (names : List Name) (name : Name) :
    (ofBuiltins names).get? name =
      if name ∈ names then some (.single (.builtin name)) else none := by
  induction names using List.reverseRecOn with
  | nil => rfl
  | append_singleton names added ih =>
    rw [ofBuiltins, List.foldl_append, ← ofBuiltins, List.foldl_cons, List.foldl_nil]
    by_cases heq : name = added
    · subst heq
      rw [Assoc.get?_upsert_self, ih, if_pos (show name ∈ names ++ [name] by simp)]
      by_cases hold : name ∈ names
      · rw [if_pos hold]
      · rw [if_neg hold]
    · rw [Assoc.get?_upsert_of_ne _ heq, ih]
      simp [heq]

/-- Whether a scope declares something, under whatever name. -/
def Context.declares (context : Context) (decl : Decl) (id : ScopeId) : Bool :=
  (context.scope id).declared.keys.any fun name =>
    ((context.scope id).lookup name).any (·.contains decl)

theorem Context.declares_iff {context : Context} {decl : Decl} {id : ScopeId} :
    context.declares decl id = true ↔ ∃ name overloads,
      (context.scope id).declared.get? name = some overloads ∧ decl ∈ overloads.toList := by
  simp only [declares, List.any_eq_true, Scope.lookup, Option.mem_toList,
    Overloads.contains, List.contains_iff_mem]
  constructor
  · rintro ⟨name, -, overloads, hdeclared, hdecl⟩
    exact ⟨name, overloads, hdeclared, hdecl⟩
  · rintro ⟨name, overloads, hdeclared, hdecl⟩
    have hentry := Assoc.mem_entries_of_get? hdeclared
    exact ⟨name, List.mem_map.mpr ⟨_, hentry, rfl⟩, overloads, hdeclared, hdecl⟩

/-- A scope that declares something is one of the context. -/
theorem Context.has_of_declared {context : Context} {id : ScopeId} {name : Name}
    {overloads : Overloads}
    (hdeclared : (context.scope id).declared.get? name = some overloads) :
    context.Has id := by
  by_contra hnone
  have hdefault : context.scope id = default := by
    rw [Context.scope, scope?, Array.getElem?_eq_none (Nat.le_of_not_lt hnone)]
    rfl
  rw [hdefault] at hdeclared
  cases hdeclared

namespace Context.Sound

variable {program : Program} {context : Context} (hsound : context.Sound program)
variable {id : ScopeId} {name : Name} {overloads : Overloads}
include hsound

/-- What a scope with an owner declares is read off this node. -/
theorem declared_eq_gather {owner : NodeId} (howned : context.OwnedBy id (some owner)) :
    (context.scope id).declared = (program.gather owner).declared := by
  obtain ⟨-, _, _, -, -, -, hscope⟩ := hsound.scope_of_ownedBy_some howned
  rw [hscope]
  rfl

/-- The declarations of one name are nodes that the children of the owner declare, in
their order. -/
theorem toList_eq_of_ownedBy {owner : NodeId} (howned : context.OwnedBy id (some owner))
    (hdeclared : (context.scope id).declared.get? name = some overloads) :
    overloads.toList = (((program.tree.children owner).flatMap
      (program.tree.declarations (some program.tupleRecord) program.tree.size)).filter
        fun entry => entry.1 = name).map (.node ·.2) := by
  have hadds := (program.tree.gather_adds owner (some program.tupleRecord)).1
  rw [← DeclTable.decls_of_get? hdeclared, hsound.declared_eq_gather howned, Program.gather, hadds,
    DeclTable.decls_declareAll]
  rfl

/-- Only the root scope declares built-in types. -/
theorem isBuiltin_eq_false_of_inner (hid : context.Inner id)
    (hdeclared : (context.scope id).declared.get? name = some overloads) {decl : Decl}
    (hdecl : decl ∈ overloads.toList) : decl.isBuiltin = false := by
  obtain ⟨owner, howned⟩ := hid
  rw [hsound.toList_eq_of_ownedBy howned hdeclared] at hdecl
  obtain ⟨entry, -, rfl⟩ := List.mem_map.mp hdecl
  rfl

/-- What a scope declares is a built-in type on its own, or nodes of its owner. -/
theorem builtin_or_owned (hdeclared : (context.scope id).declared.get? name = some overloads) :
    (context.OwnedBy id none ∧ overloads = .single (.builtin name)) ∨
      ∃ owner, context.OwnedBy id (some owner) := by
  have hhas := has_of_declared hdeclared
  cases howner : (context.scope id).owner with
  | some owner => exact .inr ⟨owner, hhas, howner⟩
  | none =>
    rw [hsound.scope_of_ownedBy_none ⟨hhas, howner⟩, Scope.root, DeclTable.get?_ofBuiltins]
      at hdeclared
    split at hdeclared
    · exact .inl ⟨⟨hhas, howner⟩, (Option.some.inj hdeclared).symm⟩
    · cases hdeclared

/-- No scope declares the same twice under a name. -/
theorem nodup_of_declared (hacyclic : program.tree.Acyclic) (hformed : program.tree.WellFormed)
    (hdeclared : (context.scope id).declared.get? name = some overloads) :
    overloads.toList.Nodup := by
  rcases hsound.builtin_or_owned hdeclared with ⟨-, rfl⟩ | ⟨owner, howned⟩
  · exact List.nodup_singleton _
  · have hlists := (Tree.declarations_listsBelow hacyclic hformed (some program.tupleRecord)
      program.tree.size).children hacyclic hformed
    rw [hsound.toList_eq_of_ownedBy howned hdeclared]
    have hnodes := (hlists.nodup owner).sublist
      ((List.filter_sublist (p := fun entry => decide (entry.1 = name))).map Prod.snd)
    have hinjective : Function.Injective Decl.node := fun _ _ heq => Decl.node.inj heq
    simpa [List.map_map, Function.comp_def] using hnodes.map hinjective

/-- Two scopes that declare the same are one, unless that is a pattern variable. -/
theorem eq_of_declares (hplaced : program.tree.Placed) {decl : Decl} {first second : ScopeId}
    (hfirst : context.declares decl first = true) (hsecond : context.declares decl second = true)
    (hdecl : ∀ node, decl = .node node → program.tree.tag? node ≠ some .typeQuery) :
    first = second := by
  obtain ⟨name, overloads, hdeclared, hmem⟩ := declares_iff.mp hfirst
  obtain ⟨name', overloads', hdeclared', hmem'⟩ := declares_iff.mp hsecond
  rcases hsound.builtin_or_owned hdeclared with ⟨howned, rfl⟩ | ⟨owner, howned⟩
  · obtain rfl := List.mem_singleton.mp hmem
    rcases hsound.builtin_or_owned hdeclared' with ⟨howned', -⟩ | hinner
    · exact hsound.eq_of_ownedBy howned howned'
    · cases hsound.isBuiltin_eq_false_of_inner hinner hdeclared' hmem'
  · have hnode := hsound.isBuiltin_eq_false_of_inner ⟨owner, howned⟩ hdeclared hmem
    rcases hsound.builtin_or_owned hdeclared' with ⟨-, rfl⟩ | ⟨owner', howned'⟩
    · obtain rfl := List.mem_singleton.mp hmem'
      cases hnode
    cases decl with
    | builtin => cases hnode
    | node node =>
      rw [hsound.declared_eq_gather howned] at hdeclared
      rw [hsound.declared_eq_gather howned'] at hdeclared'
      have hheld := Tree.heldIn_of_gather hplaced owner _ name overloads hdeclared node hmem
        (hdecl node rfl)
      have hheld' := Tree.heldIn_of_gather hplaced owner' _ name' overloads' hdeclared' node hmem'
        (hdecl node rfl)
      have hsingle : ∀ owner, program.opensScope owner = true →
          program.tree.tag? owner ≠ some .tupleDecl ∧
          program.tree.tag? owner ≠ some .multiDecl := by
        intro owner hopens
        obtain ⟨tag, htag, hmay⟩ := Program.tag?_of_opensScope hopens
        rw [htag]
        constructor <;> rintro ⟨⟩ <;> cases hmay
      obtain rfl := hheld.unique hheld' (by
        simp [hsingle _ (hsound.opensScope_of_owner howned),
          hsingle _ (hsound.opensScope_of_owner howned')])
      exact hsound.eq_of_ownedBy howned howned'

end Context.Sound

end Scoping
