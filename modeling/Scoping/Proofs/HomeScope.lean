import Scoping.Proofs.Declaring
import Scoping.Proofs.Listing
import Scoping.Proofs.Request

/-!
Where a declaration stands and where it is declared. A node that a scope declares has its
parent in that scope, since nothing that gathering looks through opens one. The pattern
variables of a formal are the exception: they are sought all over the type expression, and
some of the nodes in it may open scopes.
-/

namespace Scoping

open Context

namespace Tree

variable {tree : Tree} {ids flat : List NodeId} {listed : List (Name × NodeId)}

theorem Flattens.heldIn (hflat : tree.Flattens ids flat) (hformed : tree.WellFormed)
    {owner : NodeId} (hids : ∀ id ∈ ids, tree.HeldIn owner id) :
    ∀ id ∈ flat, tree.HeldIn owner id := by
  induction hflat with
  | nil => exact List.forall_mem_nil _
  | keep _ _ ih =>
    obtain ⟨hid, hrest⟩ := List.forall_mem_cons.mp hids
    exact List.forall_mem_cons.mpr ⟨hid, ih hrest⟩
  | @spread id _ _ _ hspread _ _ ihinside ihrest =>
    obtain ⟨hid, hrest⟩ := List.forall_mem_cons.mp hids
    have htag : tree.tag? id = some .tupleDecl ∨ tree.tag? id = some .multiDecl := by
      rw [isSpread] at hspread
      split at hspread
      · next hkind => exact .inl (tag?_of_kind? hkind)
      · next hkind => exact .inr (tag?_of_kind? hkind)
      · cases hspread
    refine List.forall_mem_append.mpr ⟨ihinside fun child hchild => ?_, ihrest hrest⟩
    exact .through (hformed.adopted id child hchild) htag hid

/-- What is listed is one of the flattened children, or a pattern variable in the type of
a formal that is listed itself. -/
theorem Lists.mem {excluded : Option Name} (hlisted : tree.Lists excluded flat listed)
    {node : NodeId} (hnode : node ∈ listed.map Prod.snd) :
    node ∈ flat ∨ tree.tag? node = some .typeQuery ∧ ∃ formal ∈ flat,
      formal ∈ listed.map Prod.snd ∧ ∃ typeExpr, tree.formalType? formal = some typeExpr ∧
      tree.Descends typeExpr node := by
  induction hlisted with
  | nil => cases hnode
  | skip _ _ ih =>
    refine (ih hnode).imp (List.mem_cons_of_mem _) (And.imp_right ?_)
    rintro ⟨formal, hformal, hmore⟩
    exact ⟨formal, List.mem_cons_of_mem _ hformal, hmore⟩
  | @add id name rest inside listed _ htype _ ih =>
    rw [List.map_cons, List.map_append, List.mem_cons, List.mem_append] at hnode
    rcases hnode with rfl | hquery | hrest
    · exact .inl List.mem_cons_self
    · obtain ⟨query, hmem, rfl⟩ := List.mem_map.mp hquery
      obtain ⟨other, hother, hfound⟩ := List.mem_filterMap.mp hmem
      rw [query?] at hfound
      split at hfound
      · next hkind =>
        obtain rfl := Option.some.inj hfound
        obtain ⟨typeExpr, htypeExpr, hdescends⟩ := htype.mem_iff.mp hother
        exact .inr ⟨tag?_of_kind? hkind, id, List.mem_cons_self, by simp, typeExpr,
          Option.mem_toList.mp htypeExpr, hdescends⟩
      · cases hfound
    · refine (ih hrest).imp (List.mem_cons_of_mem _) (And.imp_right ?_)
      rintro ⟨formal, hformal, hlisted, hmore⟩
      exact ⟨formal, List.mem_cons_of_mem _ hformal, by simp [hlisted], hmore⟩

theorem tag?_of_formalType? {formal typeExpr : NodeId}
    (htype : tree.formalType? formal = some typeExpr) : tree.tag? formal = some .formal := by
  rw [formalType?] at htype
  split at htype
  · next hkind => exact tag?_of_kind? hkind
  · cases htype

theorem WellFormed.parent?_of_formalType? (hformed : tree.WellFormed) {formal typeExpr : NodeId}
    (htype : tree.formalType? formal = some typeExpr) : tree.parent? typeExpr = some formal :=
  hformed.adopted formal typeExpr
    ((hformed.formalType?_sublist formal).mem (Option.mem_toList.mpr htype))

/-- What is at or below the type of a formal has a parent. -/
theorem WellFormed.exists_parent_of_inType (hformed : tree.WellFormed)
    {formal typeExpr node : NodeId} (htype : tree.formalType? formal = some typeExpr)
    (hinside : tree.Encloses typeExpr node) : ∃ parent, tree.parent? node = some parent := by
  obtain ⟨steps, hsteps⟩ := hinside
  cases steps with
  | zero =>
    obtain rfl := Option.some.inj hsteps
    exact ⟨formal, hformed.parent?_of_formalType? htype⟩
  | succ steps =>
    obtain ⟨parent, hparent, -⟩ := Option.bind_eq_some_iff.mp hsteps
    exact ⟨parent, hparent⟩

theorem HeldIn.exists_parent {owner node : NodeId} (hheld : tree.HeldIn owner node) :
    ∃ parent, tree.parent? node = some parent := by
  cases hheld with
  | child hparent => exact ⟨owner, hparent⟩
  | through hparent => exact ⟨_, hparent⟩

theorem Descends.encloses (hformed : tree.WellFormed) {id node : NodeId}
    (hdescends : tree.Descends id node) : tree.Encloses id node := by
  induction hdescends with
  | refl => exact .refl tree id
  | tail _ hchild ih => exact ih.trans (.of_parent? (hformed.adopted _ _ hchild))

theorem HeldIn.encloses {owner node : NodeId} (hheld : tree.HeldIn owner node) :
    tree.Encloses owner node := by
  induction hheld with
  | child hparent => exact .of_parent? hparent
  | through hparent _ _ ih => exact ih.trans (.of_parent? hparent)

end Tree

namespace Program

variable {program : Program}

/-- A node is in the scope that another node around it is in, if none between them opens a
scope. -/
theorem Around.of_encloses (hforest : program.tree.IsForest) {top node : NodeId}
    {owner : Option NodeId} (haround : program.Around top owner)
    (hinside : program.tree.Encloses top node)
    (hcloses : ∀ inner, program.tree.Encloses top inner → program.tree.Encloses inner node →
      program.opensScope inner = false) : program.Around node owner := by
  obtain ⟨steps, hsteps⟩ := hinside
  induction steps generalizing node with
  | zero =>
    obtain rfl := Option.some.inj hsteps
    exact haround
  | succ steps ih =>
    obtain ⟨parent, hparent, hmore⟩ := Option.bind_eq_some_iff.mp hsteps
    have habove : program.tree.Encloses parent node := .of_parent? hparent
    have hstands := Tree.standIn_of_tag (hforest.holds node parent hparent)
    rw [Around, hparent]
    refine Around.owner ?_ ?_
    · rw [hstands]
      exact hcloses parent ⟨steps, hmore⟩ habove
    · rw [hstands]
      exact ih (fun inner houter hinner => hcloses inner houter (hinner.trans habove)) hmore

/-- Climbing does not pass a node that opens a scope. -/
theorem Owner.encloses_of_opensScope (hforest : program.tree.IsForest) {inner node owner : NodeId}
    (howner : program.Owner node (some owner)) (hnode : program.tree.tag? node ≠ some .includeDecl)
    (hinside : program.tree.Encloses inner node) (hopens : program.opensScope inner = true) :
    program.tree.Encloses inner owner := by
  generalize howned : some owner = found at howner
  induction howner with
  | opens =>
    obtain rfl := Option.some.inj howned
    rwa [Tree.standIn_of_tag hnode]
  | @climbs node parent _ hcloses hparent _ ih =>
    rw [Tree.standIn_of_tag hnode] at hcloses hparent
    have hne : inner ≠ node := by
      rintro rfl
      rw [hopens] at hcloses
      cases hcloses
    exact ih (hforest.holds node parent hparent) (hinside.parent hne hparent) howned
  | top => cases howned

end Program

namespace Context

/-- Whether a node is a pattern variable of a formal that a scope declares, with a node
around it in the type expression that opens a scope. -/
def Screened (program : Program) (context : Context) (id : ScopeId) (node : NodeId) : Prop :=
  program.tree.tag? node = some .typeQuery ∧ ∃ formal typeExpr inner,
    context.declares (.node formal) id = true ∧
    program.tree.formalType? formal = some typeExpr ∧
    program.tree.Encloses typeExpr inner ∧ program.tree.Encloses inner node ∧
    program.opensScope inner = true

variable {program : Program} {context : Context} {id : ScopeId} {owner node : NodeId}

/-- The nodes that a scope declares are those listed for its owner. -/
theorem Sound.declares_iff_mem (hsound : context.Sound program)
    (howned : context.OwnedBy id (some owner)) {listed : List (Name × NodeId)}
    (hgather : (program.gather owner).declared = DeclTable.declareAll .empty listed) :
    context.declares (.node node) id = true ↔ node ∈ listed.map Prod.snd := by
  have hdecls : ∀ name, DeclTable.decls (context.scope id).declared name =
      (listed.filter fun entry => entry.1 = name).map (.node ·.2) := by
    intro name
    rw [hsound.declared_eq_gather howned, hgather, DeclTable.decls_declareAll]
    rfl
  rw [declares_iff]
  constructor
  · rintro ⟨name, overloads, hdeclared, hmem⟩
    rw [← DeclTable.decls_of_get? hdeclared, hdecls] at hmem
    obtain ⟨entry, hentry, hnode⟩ := List.mem_map.mp hmem
    exact List.mem_map.mpr ⟨entry, List.mem_of_mem_filter hentry, Decl.node.inj hnode⟩
  · intro hmem
    obtain ⟨⟨name, node⟩, hentry, rfl⟩ := List.mem_map.mp hmem
    have hdecl : .node node ∈ DeclTable.decls (context.scope id).declared name := by
      rw [hdecls]
      exact List.mem_map.mpr ⟨_, List.mem_filter.mpr ⟨hentry, by simp⟩, rfl⟩
    cases hknown : (context.scope id).declared.get? name with
    | none =>
      rw [DeclTable.get?_eq_none_iff.mp hknown] at hdecl
      cases hdecl
    | some overloads =>
      exact ⟨name, overloads, hknown, DeclTable.decls_of_get? hknown ▸ hdecl⟩

/-- Only scopes of nodes declare nodes. -/
theorem Sound.exists_owner_of_declares (hsound : context.Sound program)
    (hdeclares : context.declares (.node node) id = true) :
    ∃ owner, context.OwnedBy id (some owner) := by
  obtain ⟨name, overloads, hdeclared, hmem⟩ := declares_iff.mp hdeclares
  rcases hsound.builtin_or_owned hdeclared with ⟨-, rfl⟩ | howned
  · cases List.mem_singleton.mp hmem
  · exact howned

/-- Where a node is that a scope declares: with nothing between it and the owner that opens
a scope, or in the type of such a formal that the scope declares too. -/
theorem Sound.heldIn_or_inType (hsound : context.Sound program) (hformed : program.tree.WellFormed)
    (howned : context.OwnedBy id (some owner)) (hdeclares : context.declares (.node node) id = true) :
    program.tree.HeldIn owner node ∨ program.tree.tag? node = some .typeQuery ∧
      ∃ formal typeExpr, program.tree.HeldIn owner formal ∧
        context.declares (.node formal) id = true ∧
        program.tree.formalType? formal = some typeExpr ∧ program.tree.Encloses typeExpr node := by
  obtain ⟨flat, listed, hflat, hlisted, -, hgather⟩ :=
    hformed.exists_listing owner (some program.tupleRecord)
  have hdeclared : (program.gather owner).declared = DeclTable.declareAll .empty listed :=
    congrArg Gathered.declared hgather
  have hheld := hflat.heldIn hformed fun child hchild => .child (hformed.adopted owner child hchild)
  rcases hlisted.mem ((hsound.declares_iff_mem howned hdeclared).mp hdeclares) with
    hmem | ⟨htag, formal, hformal, hmem, typeExpr, htypeExpr, hdescends⟩
  · exact .inl (hheld node hmem)
  · exact .inr ⟨htag, formal, typeExpr, hheld formal hformal,
      (hsound.declares_iff_mem howned hdeclared).mpr hmem, htypeExpr, hdescends.encloses hformed⟩

/-- The scope around what a scope declares is itself, unless the node is screened: climbing
from a screened node ends within the type expression, short of the formal. -/
theorem Sound.around_iff (hsound : context.Sound program) (hformed : program.tree.WellFormed)
    (hforest : program.tree.IsForest) (hacyclic : program.tree.Acyclic)
    (howned : context.OwnedBy id (some owner)) (hdeclares : context.declares (.node node) id = true) :
    program.Around node (some owner) ↔ ¬ context.Screened program id node := by
  have hopens := hsound.opensScope_of_owner howned
  constructor
  · rintro haround ⟨htag, formal, typeExpr, inner, hdeclared, htype, houter, hinner, hscope⟩
    have hheld : program.tree.HeldIn owner formal := by
      rcases hsound.heldIn_or_inType hformed howned hdeclared with hheld | ⟨hquery, -⟩
      · exact hheld
      · cases (Tree.tag?_of_formalType? htype).symm.trans hquery
    obtain ⟨parent, hparent⟩ := hformed.exists_parent_of_inType htype (houter.trans hinner)
    have hne : inner ≠ node := by
      rintro rfl
      rw [Program.opensScope_of_tag_eq_false htag rfl] at hscope
      cases hscope
    rw [Program.Around, hparent] at haround
    have hbelow := Program.Owner.encloses_of_opensScope hforest haround
      (hforest.holds node parent hparent) (hinner.parent hne hparent) hscope
    exact hacyclic.not_encloses_parent (hformed.parent?_of_formalType? htype)
      (houter.trans (hbelow.trans hheld.encloses))
  · intro hopen
    rcases hsound.heldIn_or_inType hformed howned hdeclares with
      hheld | ⟨htag, formal, typeExpr, hheld, hdeclared, htype, hinside⟩
    · exact Program.around_of_heldIn hopens hheld
    · have hformal : program.Around typeExpr (some owner) := by
        have htag := Tree.tag?_of_formalType? htype
        have hstands : program.tree.standIn formal = formal := Tree.standIn_of_tag (by simp [htag])
        rw [Program.Around, hformed.parent?_of_formalType? htype]
        refine Program.Around.owner ?_ ?_
        · rw [hstands]
          exact Program.opensScope_of_tag_eq_false htag rfl
        · rw [hstands]
          exact Program.around_of_heldIn hopens hheld
      refine hformal.of_encloses hforest hinside fun inner houter hinner => ?_
      by_contra hscope
      exact hopen ⟨htag, formal, typeExpr, inner, hdeclared, htype, houter, hinner,
        Bool.eq_true_of_not_eq_false hscope⟩

end Context

namespace Program

variable {program : Program} {context : Context}

/-- The scope that declares a node is that of its parent, unless the node is a pattern
variable with a scope between it and its formal. -/
theorem scopeOf_parent_of_declares {tree : Tree} (hfinished : tree.Finished)
    (hgrounded : tree.Grounded) (htree : program.tree = tree) (hreachable : program.Reachable context)
    {id : ScopeId} {node : NodeId} (hdeclares : context.declares (.node node) id = true) :
    (∃ parent found later, tree.parent? node = some parent ∧
      program.scopeOf parent context = some (found, later) ∧
      (found = id ↔ ¬ context.Screened program id node)) ∧
    ∀ other, context.declares (.node node) other = true → other ≠ id →
      context.Screened program id node ∨ context.Screened program other node := by
  subst htree
  have hforest := hfinished.isForest hgrounded
  have hformed := hfinished.wellFormed
  have hacyclic := Tree.grounded_iff_acyclic.mp hgrounded
  have hsound := (hreachable.settled hforest).sound
  -- whoever declares the node, it is asked for the scope of one and the same parent
  have hhome : ∀ id, context.declares (.node node) id = true →
      ∃ parent found later, program.tree.parent? node = some parent ∧
        program.scopeOf parent context = some (found, later) ∧
        (found = id ↔ ¬ context.Screened program id node) := by
    intro id hdeclares
    obtain ⟨owner, howned⟩ := hsound.exists_owner_of_declares hdeclares
    obtain ⟨parent, hparent⟩ : ∃ parent, program.tree.parent? node = some parent := by
      rcases hsound.heldIn_or_inType hformed howned hdeclares with
        hheld | ⟨-, formal, typeExpr, -, -, htype, hinside⟩
      · exact hheld.exists_parent
      · exact hformed.exists_parent_of_inType htype hinside
    obtain ⟨found, later, hrun, hbuilding, nearest, hnearest, hfound⟩ :=
      scopeOf_ends hforest hsound parent
    have hkept := hbuilding.1.toGrows.ownedBy howned
    refine ⟨parent, found, later, hparent, hrun, ?_⟩
    rw [← hsound.around_iff hformed hforest hacyclic howned hdeclares, Around, hparent]
    constructor
    · rintro rfl
      rwa [← hfound.2.symm.trans hkept.2]
    · intro howner
      rw [hnearest.unique howner] at hfound
      exact hbuilding.2.eq_of_ownedBy hfound hkept
  refine ⟨hhome id hdeclares, fun other hother hne => ?_⟩
  obtain ⟨parent, found, later, hparent, hrun, hfound⟩ := hhome id hdeclares
  obtain ⟨parent', found', later', hparent', hrun', hfound'⟩ := hhome other hother
  obtain rfl := Option.some.inj (hparent.symm.trans hparent')
  obtain ⟨rfl, -⟩ := Prod.mk.inj (Option.some.inj (hrun.symm.trans hrun'))
  by_contra hscreened
  rw [not_or] at hscreened
  exact hne ((hfound'.mpr hscreened.2).symm.trans (hfound.mpr hscreened.1))

/-- A function whose formal has another function as its type, and there a formal with a
pattern variable. -/
def nestedQueryTree : Tree := .ofSteps
  [.typeQuery "t", .formal "y" (some ⟨0⟩), .functionDecl "g" [⟨1⟩] [], .formal "x" (some ⟨2⟩),
    .functionDecl "f" [⟨3⟩] [], .moduleDecl false "M" [⟨4⟩]]

/-- The program over this tree. -/
def nestedQuery : Program := (Session.fresh nestedQueryTree {}).program

/-- What is known once the scopes of the outer and the inner function are built. -/
def nestedQueryAsked : Context :=
  (nestedQuery.askAll [.scopeOf ⟨4⟩, .scopeOf ⟨2⟩] .empty).getD .empty

theorem nestedQuery_finished : nestedQueryTree.Finished ∧ nestedQueryTree.Grounded :=
  ⟨Tree.finished_ofSteps (by decide +kernel), by decide +kernel⟩

theorem nestedQuery_reachable : nestedQuery.Reachable nestedQueryAsked := by
  have hasked : nestedQuery.askAll [.scopeOf ⟨4⟩, .scopeOf ⟨2⟩] .empty = some nestedQueryAsked := by
    decide +kernel
  exact .askAll .refl hasked

/-- The pattern variable is in the scope of the inner function, which declares it, and the
outer function declares it too. -/
theorem nestedQuery_declares_both :
    nestedQueryTree.Finished ∧ nestedQueryTree.Grounded ∧ nestedQuery.Reachable nestedQueryAsked ∧
    nestedQueryTree.parent? ⟨0⟩ = some ⟨1⟩ ∧
    (nestedQuery.scopeOf ⟨1⟩ nestedQueryAsked).map Prod.fst = some ⟨3⟩ ∧
    nestedQueryAsked.declares (.node ⟨0⟩) ⟨3⟩ = true ∧
    nestedQueryAsked.declares (.node ⟨0⟩) ⟨2⟩ = true :=
  ⟨nestedQuery_finished.1, nestedQuery_finished.2, nestedQuery_reachable, by decide +kernel,
    by decide +kernel, by decide +kernel, by decide +kernel⟩

/-- It is screened from the formal of the outer function. -/
theorem nestedQuery_screened :
    nestedQueryAsked.declares (.node ⟨0⟩) ⟨3⟩ = true ∧
    nestedQueryAsked.declares (.node ⟨0⟩) ⟨2⟩ = true ∧
    ¬ nestedQueryAsked.Screened nestedQuery ⟨3⟩ ⟨0⟩ ∧
    nestedQueryAsked.Screened nestedQuery ⟨2⟩ ⟨0⟩ := by
  obtain ⟨hfinished, hgrounded⟩ := nestedQuery_finished
  have hinner : nestedQueryAsked.declares (.node ⟨0⟩) ⟨3⟩ = true := by decide +kernel
  have houter : nestedQueryAsked.declares (.node ⟨0⟩) ⟨2⟩ = true := by decide +kernel
  obtain ⟨⟨parent, found, later, hparent, hrun, hfound⟩, hothers⟩ :=
    scopeOf_parent_of_declares hfinished hgrounded rfl nestedQuery_reachable hinner
  obtain rfl : (⟨1⟩ : NodeId) = parent := Option.some.inj
    ((show nestedQueryTree.parent? ⟨0⟩ = some ⟨1⟩ by decide +kernel).symm.trans hparent)
  have hscope : (nestedQuery.scopeOf ⟨1⟩ nestedQueryAsked).map Prod.fst = some ⟨3⟩ := by
    decide +kernel
  rw [hrun] at hscope
  have hopen := hfound.mp (Option.some.inj hscope)
  exact ⟨hinner, houter, hopen, (hothers ⟨2⟩ houter (by decide)).resolve_left hopen⟩

end Program

end Scoping
