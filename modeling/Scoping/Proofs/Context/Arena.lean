import Scoping.Context.ScopeOf
import Scoping.Proofs.Visibility.Written

/-!
What is true of every context. A scope is told from the others by the node that
owns it, its content is read off that node, and the scopes around it were built
before it; the tables hold handles of the context only.
-/

namespace Scoping

/-- The node whose contents are asked for: an include stands for its linked body. -/
def Tree.standIn (tree : Tree) (id : NodeId) : NodeId :=
  match tree.tag? id with
  | some .includeDecl => (tree.body? id).getD id
  | _ => id

/-- What holds others is no include, so it stands for itself. -/
theorem Tree.standIn_of_tag {tree : Tree} {id : NodeId} (htag : tree.tag? id ≠ some .includeDecl) :
    tree.standIn id = id := by
  unfold standIn
  split
  · next hinclude => exact absurd hinclude htag
  · rfl

namespace Program

variable {program : Program}

/-- The owner of the scope in which the contents of a node resolve: the nearest
node that opens a scope, or none for the root scope. -/
inductive Owner (program : Program) : NodeId → Option NodeId → Prop
  | opens {id : NodeId} (hopens : program.opensScope (program.tree.standIn id) = true) :
    Owner program id (some (program.tree.standIn id))
  | climbs {id parent : NodeId} {owner : Option NodeId}
    (hcloses : program.opensScope (program.tree.standIn id) = false)
    (hparent : program.tree.parent? (program.tree.standIn id) = some parent)
    (howner : Owner program parent owner) : Owner program id owner
  | top {id : NodeId} (hcloses : program.opensScope (program.tree.standIn id) = false)
    (hparent : program.tree.parent? (program.tree.standIn id) = none) : Owner program id none

theorem Owner.unique {id : NodeId} {first second : Option NodeId}
    (hfirst : program.Owner id first) (hsecond : program.Owner id second) : first = second := by
  induction hfirst with
  | opens hopens =>
    cases hsecond with
    | opens => rfl
    | climbs hcloses | top hcloses => simp [hopens] at hcloses
  | climbs hcloses hparent _ ih =>
    cases hsecond with
    | opens hopens => simp [hcloses] at hopens
    | climbs _ hparent' howner' =>
      obtain rfl := Option.some.inj (hparent.symm.trans hparent')
      exact ih howner'
    | top _ hparent' => simp [hparent] at hparent'
  | top hcloses hparent =>
    cases hsecond with
    | opens hopens => simp [hcloses] at hopens
    | climbs _ hparent' => simp [hparent] at hparent'
    | top => rfl

/-- The owner of the scope around a node that opens one. -/
def Around (program : Program) (id : NodeId) (owner : Option NodeId) : Prop :=
  match program.tree.parent? id with
  | some parent => program.Owner parent owner
  | none => owner = none

end Program

namespace Context

/-- Whether a handle is that of the scope with the given owner. -/
def OwnedBy (context : Context) (id : ScopeId) (owner : Option NodeId) : Prop :=
  context.Has id ∧ (context.scope id).owner = owner

instance decidableOwnedBy (context : Context) (id : ScopeId) (owner : Option NodeId) :
    Decidable (context.OwnedBy id owner) :=
  inferInstanceAs (Decidable (_ ∧ _))

theorem OwnedBy.of_prefix {context later : Context} {id : ScopeId} {owner : Option NodeId}
    (howned : context.OwnedBy id owner)
    (hscopes : context.scopes.toList <+: later.scopes.toList) : later.OwnedBy id owner := by
  have hscope := scope?_of_prefix hscopes howned.1.scope?
  exact ⟨has_iff.mpr ⟨_, hscope⟩, by rw [scope_eq_of_scope? hscope, howned.2]⟩

theorem Grows.ownedBy {context later : Context} (hgrows : context.Grows later) {id : ScopeId}
    {owner : Option NodeId} (howned : context.OwnedBy id owner) : later.OwnedBy id owner :=
  howned.of_prefix hgrows.scopes

theorem Grows.ownedBy_of_has {context later : Context} (hgrows : context.Grows later)
    {id : ScopeId} {owner : Option NodeId} (hid : context.Has id)
    (howned : later.OwnedBy id owner) : context.OwnedBy id owner :=
  ⟨hid, by rw [← hgrows.scope hid, howned.2]⟩

theorem OwnedBy.congr {context later : Context} {id : ScopeId} {owner : Option NodeId}
    (howned : context.OwnedBy id owner) (hscopes : later.scopes = context.scopes) :
    later.OwnedBy id owner := by
  rw [OwnedBy, Has, Context.scope, scope?, hscopes]
  exact howned

/-- What a scope may look like at its place in the arena. -/
inductive Shapes (program : Program) (context : Context) (id : ScopeId) : Scope → Prop
  | root (hfirst : id.index = 0) : Shapes program context id (.root program.builtins)
  | inner {owner : NodeId} {parent : ScopeId} {around : Option NodeId}
    (hopens : program.opensScope owner = true) (hparent : parent.index < id.index)
    (haround : program.Around owner around) (howned : context.OwnedBy parent around) :
    Shapes program context id (program.scopeFor owner (context.outward parent))

theorem Grows.shapes {program : Program} {context later : Context}
    (hgrows : context.Grows later) {id : ScopeId} {scope : Scope}
    (hshapes : context.Shapes program id scope) : later.Shapes program id scope := by
  cases hshapes with
  | root hfirst => exact .root hfirst
  | inner hopens hparent haround howned =>
    rw [← hgrows.outward howned.1]
    exact .inner hopens hparent haround (hgrows.ownedBy howned)

theorem Shapes.congr {program : Program} {context later : Context} {id : ScopeId} {scope : Scope}
    (hshapes : context.Shapes program id scope) (hscopes : later.scopes = context.scopes) :
    later.Shapes program id scope := by
  have hscope : ∀ other, later.scope other = context.scope other := by
    intro other
    rw [Context.scope, Context.scope, scope?, scope?, hscopes]
  cases hshapes with
  | root hfirst => exact .root hfirst
  | @inner owner parent around hopens hparent haround howned =>
    have hsame : later.outward parent = context.outward parent := by
      rw [outward, outward, hscope]
    rw [← hsame]
    exact .inner hopens hparent haround (howned.congr hscopes)

/-- What the scope of the automatic module is, once it has been asked for. -/
def IsAuto (program : Program) (context : Context) : Option ScopeId → Prop
  | some id => ∃ node owner, program.tree.toplevel? program.autoModule = some node ∧
      program.Owner node owner ∧ context.OwnedBy id owner
  | none => program.tree.toplevel? program.autoModule = none

/-- Whether a handle is that of the scope of a node, and not of the root. -/
def Inner (context : Context) (id : ScopeId) : Prop :=
  ∃ node, context.OwnedBy id (some node)

theorem Inner.has {context : Context} {id : ScopeId} (hid : context.Inner id) : context.Has id :=
  hid.elim fun _ howned => howned.1

theorem Grows.inner {context later : Context} (hgrows : context.Grows later) {id : ScopeId}
    (hid : context.Inner id) : later.Inner id :=
  hid.imp fun _ => hgrows.ownedBy

/-- A clause that can have been resolved in this context: its target is the scope of a
node, and if it makes everything visible then it lists no names. -/
structure Fits (context : Context) (clause : Clause) : Prop where
  inner : context.Inner clause.target
  whole : clause.kind = .allContents → clause.names = []

theorem Fits.target {context : Context} {clause : Clause} (hfits : context.Fits clause) :
    context.Has clause.target := hfits.inner.has

theorem Grows.fits {context later : Context} (hgrows : context.Grows later) {clause : Clause}
    (hfits : context.Fits clause) : later.Fits clause :=
  ⟨hgrows.inner hfits.inner, hfits.whole⟩

/-- What is true of a context at any time. -/
structure Sound (program : Program) (context : Context) : Prop where
  shapes : ∀ id, context.Has id → context.Shapes program id (context.scope id)
  built : ∀ owner id, context.built.get? owner = some id ↔ context.OwnedBy id owner
  scopeOf : ∀ node id, context.scopeOf.get? node = some id →
    ∃ owner, program.Owner node owner ∧ context.OwnedBy id owner
  autoScope : ∀ found, context.autoScope = some found → context.IsAuto program found
  asked : ∀ id, (context.visibility.progress? id).isSome = true →
    context.Has id ∧ (context.scope id).hasImports = true
  fits : ∀ id clauses, context.visibility.get? id = some clauses →
    ∀ clause ∈ clauses, context.Fits clause
  made : ∀ id clauses, context.visibility.get? id = some clauses →
    ∀ owner, (context.scope id).owner = some owner →
      program.MadeOf (program.tree.writtenClauses owner) clauses

theorem sound_empty (program : Program) : empty.Sound program where
  shapes id hid := absurd hid (Nat.not_lt_zero _)
  built owner id := by
    simp [empty, OwnedBy, Has]
  scopeOf node id hscope := by cases hscope
  autoScope found hfound := by cases hfound
  asked id hprogress := by cases hprogress
  fits id clauses hclauses := by cases hclauses
  made id clauses hclauses := by cases hclauses

theorem Grows.isAuto {program : Program} {context later : Context}
    (hgrows : context.Grows later) {found : Option ScopeId}
    (hauto : context.IsAuto program found) : later.IsAuto program found := by
  cases found with
  | none => exact hauto
  | some id =>
    obtain ⟨node, owner, htoplevel, howner, howned⟩ := hauto
    exact ⟨node, owner, htoplevel, howner, hgrows.ownedBy howned⟩

theorem isModule_of_firstModule? {context : Context} {ids : List ScopeId} {outer : ScopeId}
    (houter : context.firstModule? ids = some outer) : (context.scope outer).isModule = true :=
  List.find?_some (p := fun id => (context.scope id).isModule) houter

namespace Sound

variable {program : Program} {context : Context} (hsound : context.Sound program)
include hsound

/-- Only the arena of scopes and the tables that hold its handles matter. -/
theorem congr {later : Context} (hscopes : later.scopes = context.scopes)
    (hscopeOf : later.scopeOf = context.scopeOf) (hbuilt : later.built = context.built)
    (hauto : later.autoScope = context.autoScope)
    (hvisibility : later.visibility = context.visibility) : later.Sound program := by
  obtain ⟨scopes, pois, scopeOf, built, autoScope, visibility, builtPois, poiOf, innermost,
    diagnostics⟩ := later
  subst hscopes hscopeOf hbuilt hauto hvisibility
  refine ⟨fun id hid => (hsound.shapes id hid).congr rfl, hsound.built, hsound.scopeOf, ?_,
    hsound.asked, fun id clauses hclauses clause hclause => ?_, hsound.made⟩
  · intro found hfound
    have hauto := hsound.autoScope found hfound
    cases found <;> exact hauto
  · have hfits := hsound.fits id clauses hclauses clause hclause
    exact ⟨hfits.inner, hfits.whole⟩

theorem asked_of_mem_clausesAt {id : ScopeId} {clause : Clause}
    (hclause : clause ∈ context.clausesAt id) :
    context.Has id ∧ (context.scope id).hasImports = true := by
  have hknown := Memo.get?_eq_some_iff.mp (get?_of_mem_clausesAt hclause)
  exact hsound.asked id (by rw [hknown]; rfl)

theorem has_of_mem_clausesAt {id : ScopeId} {clause : Clause}
    (hclause : clause ∈ context.clausesAt id) : context.Has id :=
  (hsound.asked_of_mem_clausesAt hclause).1

theorem clausesAt_of_hasImports {id : ScopeId} (himports : (context.scope id).hasImports = false) :
    context.clausesAt id = [] := by
  refine List.eq_nil_iff_forall_not_mem.mpr fun clause hclause => ?_
  rw [(hsound.asked_of_mem_clausesAt hclause).2] at himports
  cases himports

theorem fits_of_mem_clausesAt {id : ScopeId} {clause : Clause}
    (hclause : clause ∈ context.clausesAt id) : context.Fits clause :=
  hsound.fits id _ (get?_of_mem_clausesAt hclause) clause hclause

/-- A scope has one owner and an owner one scope. -/
theorem eq_of_ownedBy {first second : ScopeId} {owner : Option NodeId}
    (hfirst : context.OwnedBy first owner) (hsecond : context.OwnedBy second owner) :
    first = second :=
  Option.some.inj (((hsound.built owner first).mpr hfirst).symm.trans
    ((hsound.built owner second).mpr hsecond))

theorem eq_of_owner {first second : ScopeId} (hfirst : context.Has first)
    (hsecond : context.Has second)
    (howner : (context.scope first).owner = (context.scope second).owner) : first = second :=
  hsound.eq_of_ownedBy ⟨hfirst, howner⟩ ⟨hsecond, rfl⟩

theorem eq_of_isAuto {first second : Option ScopeId} (hfirst : context.IsAuto program first)
    (hsecond : context.IsAuto program second) : first = second := by
  cases first with
  | none =>
    cases second with
    | none => rfl
    | some second =>
      obtain ⟨node, owner, htop, -⟩ := hsecond
      rw [show program.tree.toplevel? _ = none from hfirst] at htop
      cases htop
  | some first =>
    obtain ⟨node, owner, htop, howner, howned⟩ := hfirst
    cases second with
    | none =>
      rw [show program.tree.toplevel? _ = none from hsecond] at htop
      cases htop
    | some second =>
      obtain ⟨node', owner', htop', howner', howned'⟩ := hsecond
      obtain rfl := Option.some.inj (htop.symm.trans htop')
      rw [howner'.unique howner] at howned'
      exact congrArg some (hsound.eq_of_ownedBy howned howned')

/-- The scopes around a scope were built before it. -/
theorem index_lt_of_enclosing {id outer : ScopeId} (hid : context.Has id)
    (houter : outer ∈ (context.scope id).enclosing) : outer.index < id.index := by
  obtain ⟨index⟩ := id
  induction index using Nat.strong_induction_on generalizing outer with
  | _ index ih =>
    have hshapes := hsound.shapes ⟨index⟩ hid
    generalize context.scope ⟨index⟩ = scope at hshapes houter
    cases hshapes with
    | root => cases houter
    | @inner owner parent around hopens hparent haround howned =>
      rcases List.mem_cons.mp houter with rfl | hmore
      · exact hparent
      · exact (ih parent.index hparent howned.1 hmore).trans hparent

theorem has_of_enclosing {id outer : ScopeId} (hid : context.Has id)
    (houter : outer ∈ (context.scope id).enclosing) : context.Has outer :=
  (hsound.index_lt_of_enclosing hid houter).trans hid

theorem has_of_outward {id outer : ScopeId} (hid : context.Has id)
    (houter : outer ∈ context.outward id) : context.Has outer := by
  rcases List.mem_cons.mp houter with rfl | hmore
  · exact hid
  · exact hsound.has_of_enclosing hid hmore

theorem inner_of_ne_root {id : ScopeId} (hid : context.Has id)
    (hne : context.scope id ≠ .root program.builtins) : context.Inner id := by
  have hshapes := hsound.shapes id hid
  generalize hscope : context.scope id = scope at hshapes hne
  cases hshapes with
  | root => exact absurd rfl hne
  | @inner owner => exact ⟨owner, hid, by rw [hscope]; rfl⟩

/-- The root is no module. -/
theorem inner_of_isModule {id : ScopeId} (hid : context.Has id)
    (hmodule : (context.scope id).isModule = true) : context.Inner id := by
  refine hsound.inner_of_ne_root hid fun hroot => ?_
  rw [hroot] at hmodule
  cases hmodule

/-- The root has no statements. -/
theorem inner_of_hasImports {id : ScopeId} (hid : context.Has id)
    (himports : (context.scope id).hasImports = true) : context.Inner id := by
  refine hsound.inner_of_ne_root hid fun hroot => ?_
  rw [hroot] at himports
  cases himports

/-- A scope without owner is the root scope. -/
theorem scope_of_ownedBy_none {id : ScopeId} (howned : context.OwnedBy id none) :
    context.scope id = .root program.builtins := by
  have hshapes := hsound.shapes id howned.1
  have howner := howned.2
  generalize context.scope id = scope at hshapes howner
  cases hshapes with
  | root => rfl
  | inner => cases howner

/-- The scope of a node is made from that node, inside the scope of what is around it,
which was built before. -/
theorem scope_of_ownedBy_some {id : ScopeId} {node : NodeId}
    (howned : context.OwnedBy id (some node)) :
    program.opensScope node = true ∧ ∃ parent around, parent.index < id.index ∧
      program.Around node around ∧ context.OwnedBy parent around ∧
      context.scope id = program.scopeFor node (context.outward parent) := by
  have hshapes := hsound.shapes id howned.1
  have howner := howned.2
  generalize context.scope id = scope at hshapes howner
  cases hshapes with
  | root => cases howner
  | @inner owner parent around hopens hparent haround hparentOwned =>
    obtain rfl : owner = node := Option.some.inj howner
    exact ⟨hopens, parent, around, hparent, haround, hparentOwned, rfl⟩

theorem isModule_eq {id : ScopeId} {node : NodeId} (howned : context.OwnedBy id (some node)) :
    (context.scope id).isModule = (program.tree.tag? node == some .moduleDecl) := by
  obtain ⟨-, _, _, -, -, -, hscope⟩ := hsound.scope_of_ownedBy_some howned
  rw [hscope]
  rfl

theorem inner_of_firstModule? {ids : List ScopeId} (hids : ∀ id ∈ ids, context.Has id)
    {outer : ScopeId} (houter : context.firstModule? ids = some outer) : context.Inner outer :=
  hsound.inner_of_isModule (hids outer (List.mem_of_find?_eq_some houter))
    (isModule_of_firstModule? houter)

theorem inner_of_moduleOf? {id outer : ScopeId} (hid : context.Has id)
    (houter : context.moduleOf? id = some outer) : context.Inner outer :=
  hsound.inner_of_firstModule? (fun _ hmem => hsound.has_of_outward hid hmem) houter

theorem inner_of_superOf? {id outer : ScopeId} (hid : context.Has id)
    (houter : context.superOf? id = some outer) : context.Inner outer :=
  hsound.inner_of_firstModule? (fun _ hmem => hsound.has_of_enclosing hid hmem) houter

/-- The first scope of the arena is the root scope. -/
theorem root_of_has {id : ScopeId} (hid : context.Has id) : context.OwnedBy ⟨0⟩ none := by
  have hfirst : context.Has ⟨0⟩ := Nat.lt_of_le_of_lt (Nat.zero_le _) hid
  have hshapes := hsound.shapes ⟨0⟩ hfirst
  refine ⟨hfirst, ?_⟩
  generalize context.scope ⟨0⟩ = scope at hshapes
  cases hshapes with
  | root => rfl
  | inner hopens hparent => exact absurd hparent (Nat.not_lt_zero _)

/-- Going outward from any scope ends at the root scope. -/
theorem getLast?_outward {id : ScopeId} (hid : context.Has id) :
    (context.outward id).getLast? = some ⟨0⟩ := by
  obtain ⟨index⟩ := id
  induction index using Nat.strong_induction_on with
  | _ index ih =>
    have hshapes := hsound.shapes ⟨index⟩ hid
    rw [outward]
    generalize context.scope ⟨index⟩ = scope at hshapes
    cases hshapes with
    | root hfirst => exact congrArg (some ∘ ScopeId.mk) hfirst
    | @inner owner parent around hopens hparent haround howned =>
      rw [show (program.scopeFor owner (context.outward parent)).enclosing =
        context.outward parent from rfl, outward, List.getLast?_cons_cons, ← outward]
      exact ih parent.index hparent howned.1

/-- The way out from a scope goes on as the way out from any scope on it. -/
theorem outward_of_append {id outer : ScopeId} {before after : List ScopeId} (hid : context.Has id)
    (houtward : context.outward id = before ++ outer :: after) :
    context.outward outer = outer :: after := by
  induction before generalizing id with
  | nil =>
    obtain ⟨rfl, -⟩ := List.cons.inj houtward
    exact houtward
  | cons inner before ih =>
    obtain ⟨rfl, henclosing⟩ := List.cons.inj houtward
    have hshapes := hsound.shapes id hid
    generalize context.scope id = scope at hshapes henclosing
    cases hshapes with
    | root => cases before <;> cases henclosing
    | inner _ _ _ howned => exact ih howned.1 henclosing

theorem size_eq_zero (hnone : context.built.get? none = none) : context.scopes.size = 0 := by
  by_contra hne
  have hfirst : context.Has ⟨0⟩ := Nat.pos_of_ne_zero hne
  have hroot := hsound.root_of_has hfirst
  rw [(hsound.built none ⟨0⟩).mpr hroot] at hnone
  cases hnone

/-- An owner that is a node opens a scope, so it is a node of the tree. -/
theorem opensScope_of_owner {id : ScopeId} {owner : NodeId}
    (howned : context.OwnedBy id (some owner)) : program.opensScope owner = true :=
  (hsound.scope_of_ownedBy_some howned).1

end Sound

end Context

theorem Program.contains_of_opensScope {program : Program} {id : NodeId}
    (hopens : program.opensScope id = true) : id.index < program.tree.size := by
  unfold Program.opensScope at hopens
  cases htag : program.tree.tag? id with
  | none =>
    rw [htag] at hopens
    cases hopens
  | some tag =>
    obtain ⟨node, hnode, -⟩ := Option.map_eq_some_iff.mp htag
    exact (Array.getElem?_eq_some_iff.mp hnode).1

namespace Context.Sound

/-- There are no more scopes than nodes, the root scope apart. -/
theorem scopes_size_le {program : Program} {context : Context} (hsound : context.Sound program) :
    context.scopes.size ≤ program.tree.size + 1 := by
  let owners := (List.range context.scopes.size).map fun index => (context.scope ⟨index⟩).owner
  let places := none :: (List.range program.tree.size).map fun index => some (NodeId.mk index)
  have hnodup : owners.Nodup := by
    refine List.Nodup.map_on ?_ List.nodup_range
    intro first hfirst second hsecond howner
    exact congrArg ScopeId.index (hsound.eq_of_owner (List.mem_range.mp hfirst)
      (List.mem_range.mp hsecond) howner)
  have hsubset : owners ⊆ places := by
    intro owner howner
    obtain ⟨index, hindex, rfl⟩ := List.mem_map.mp howner
    cases hnode : (context.scope ⟨index⟩).owner with
    | none => exact List.mem_cons_self
    | some node =>
      have hopens := hsound.opensScope_of_owner ⟨List.mem_range.mp hindex, hnode⟩
      exact List.mem_cons_of_mem _ (List.mem_map.mpr
        ⟨node.index, List.mem_range.mpr (Program.contains_of_opensScope hopens), rfl⟩)
  simpa [owners, places] using (List.subperm_of_subset hnodup hsubset).length_le

end Context.Sound

end Scoping
