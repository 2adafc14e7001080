import Scoping.Proofs.Context.Arena
import Scoping.Proofs.Syntax.Forest

/-!
Scopes are built soundly and in finitely many steps: on a tree that can be
climbed, every node gets the scope of its owner, and building scopes touches no
other table.
-/

namespace Scoping

open Context Resolve

/-- What building scopes may change. -/
def Program.Building (program : Program) (context later : Context) : Prop :=
  context.Builds later ∧ later.Sound program

instance Program.building_isTrans (program : Program) : IsTrans Context program.Building :=
  ⟨fun _ _ _ hfirst hsecond => ⟨hfirst.1.trans hsecond.1, hsecond.2⟩⟩

namespace Context

variable {context : Context} {scope : Scope}

/-- One more scope, recorded as the scope of its owner. -/
def withScope (context : Context) (scope : Scope) : Context :=
  { context with
    scopes := context.scopes.push scope
    built := context.built.finish scope.owner ⟨context.scopes.size⟩ }

theorem withScope_builds (hnone : context.built.get? scope.owner = none) :
    context.Builds (context.withScope scope) := by
  refine .of_tables ?_ (.refl _) (Memo.extends_finish ?_) (fun _ hfound => hfound)
    List.prefix_rfl rfl rfl rfl rfl rfl
  · simp [withScope]
  · simp [hnone]

theorem scope?_withScope (context : Context) (scope : Scope) :
    (context.withScope scope).scope? ⟨context.scopes.size⟩ = some scope := by
  simp [withScope, Context.scope?]

theorem scope_withScope (context : Context) (scope : Scope) :
    (context.withScope scope).scope ⟨context.scopes.size⟩ = scope :=
  scope_eq_of_scope? (scope?_withScope context scope)

theorem has_withScope {id : ScopeId} (hid : (context.withScope scope).Has id) :
    context.Has id ∨ id = ⟨context.scopes.size⟩ := by
  rcases Nat.lt_succ_iff_lt_or_eq.mp (by simpa [withScope, Has] using hid) with hold | heq
  · exact .inl hold
  · exact .inr (congrArg ScopeId.mk heq)

theorem ownedBy_withScope (context : Context) (scope : Scope) :
    (context.withScope scope).OwnedBy ⟨context.scopes.size⟩ scope.owner :=
  ⟨has_iff.mpr ⟨scope, scope?_withScope context scope⟩, by rw [scope_withScope]⟩

theorem get?_built_withScope_self (context : Context) (scope : Scope) :
    (context.withScope scope).built.get? scope.owner = some ⟨context.scopes.size⟩ :=
  Memo.get?_finish_self ..

theorem get?_built_withScope_of_ne (context : Context) (scope : Scope) {owner : Option NodeId}
    (hne : owner ≠ scope.owner) :
    (context.withScope scope).built.get? owner = context.built.get? owner :=
  Memo.get?_finish_of_ne _ hne _

end Context

namespace Context.Sound

variable {program : Program} {context : Context} (hsound : context.Sound program)
include hsound

theorem building_refl : program.Building context context := ⟨.refl context, hsound⟩

/-- What a step has to show that leaves the clauses alone. -/
theorem building {later : Context} (hbuilds : context.Builds later)
    (hshapes : ∀ id, later.Has id → ¬ context.Has id → later.Shapes program id (later.scope id))
    (hbuilt : ∀ owner id, later.built.get? owner = some id ↔ later.OwnedBy id owner)
    (hscopeOf : ∀ node id, later.scopeOf.get? node = some id →
      ∃ owner, program.Owner node owner ∧ later.OwnedBy id owner)
    (hauto : ∀ found, later.autoScope = some found → later.IsAuto program found) :
    program.Building context later := by
  refine ⟨hbuilds, ?_, hbuilt, hscopeOf, hauto, ?_, ?_, ?_⟩
  · intro id hid
    by_cases hold : context.Has id
    · rw [hbuilds.scope hold]
      exact hbuilds.shapes (hsound.shapes id hold)
    · exact hshapes id hid hold
  · intro id hasked
    rw [hbuilds.sameVisibility] at hasked
    obtain ⟨hid, himports⟩ := hsound.asked id hasked
    exact ⟨hbuilds.has hid, by rw [hbuilds.scope hid, himports]⟩
  · intro id clauses hclauses clause hclause
    rw [hbuilds.sameVisibility] at hclauses
    exact hbuilds.fits (hsound.fits id clauses hclauses clause hclause)
  · intro id clauses hclauses
    rw [hbuilds.sameVisibility] at hclauses
    have hid := (hsound.asked id (by rw [Memo.get?_eq_some_iff.mp hclauses]; rfl)).1
    rw [hbuilds.scope hid]
    exact hsound.made id clauses hclauses

/-- A step that builds no scope has the tables of handles to show. -/
theorem building_of_scopes {later : Context} (hbuilds : context.Builds later)
    (hscopes : later.scopes = context.scopes) (hbuilt : later.built = context.built)
    (hscopeOf : ∀ node id, later.scopeOf.get? node = some id →
      context.scopeOf.get? node = some id ∨
        ∃ owner, program.Owner node owner ∧ context.OwnedBy id owner)
    (hauto : ∀ found, later.autoScope = some found →
      context.autoScope = some found ∨ context.IsAuto program found) :
    program.Building context later := by
  have hhas : ∀ id, later.Has id → context.Has id := by
    intro id hid
    rwa [Has, hscopes] at hid
  refine hsound.building hbuilds (fun id hid hfresh => absurd (hhas id hid) hfresh) ?_ ?_ ?_
  · intro owner id
    rw [hbuilt, hsound.built]
    constructor
    · exact hbuilds.ownedBy
    · intro hid
      exact hbuilds.ownedBy_of_has (hhas id hid.1) hid
  · intro node id hid
    rcases hscopeOf node id hid with hold | ⟨owner, howner, howned⟩
    · obtain ⟨owner, howner, howned⟩ := hsound.scopeOf node id hold
      exact ⟨owner, howner, hbuilds.ownedBy howned⟩
    · exact ⟨owner, howner, hbuilds.ownedBy howned⟩
  · intro found hfound
    rcases hauto found hfound with hold | hauto
    · exact hbuilds.isAuto (hsound.autoScope found hold)
    · exact hbuilds.isAuto hauto

theorem building_report (diagnostic : Diagnostic) :
    program.Building context
      { context with diagnostics := context.diagnostics.add diagnostic } :=
  hsound.building_of_scopes
    (.of_tables List.prefix_rfl (.refl _) (.refl _) (fun _ hfound => hfound)
      (List.prefix_append _ _) rfl rfl rfl rfl rfl)
    rfl rfl (fun _ _ hold => .inl hold) (fun _ hold => .inl hold)

theorem building_scopeOf {node : NodeId} {id : ScopeId} {owner : Option NodeId}
    (howner : program.Owner node owner) (howned : context.OwnedBy id owner) :
    program.Building context { context with scopeOf := context.scopeOf.finish node id } := by
  have hknown : ∀ found, context.scopeOf.get? node = some found → found = id := by
    intro found hfound
    obtain ⟨owner', howner', howned'⟩ := hsound.scopeOf node found hfound
    rw [howner'.unique howner] at howned'
    exact hsound.eq_of_ownedBy howned' howned
  refine hsound.building_of_scopes
    (.of_tables List.prefix_rfl (Memo.extends_finish hknown) (.refl _)
      (fun _ hfound => hfound) List.prefix_rfl rfl rfl rfl rfl rfl)
    rfl rfl ?_ (fun _ hold => .inl hold)
  intro other found hfound
  rcases Memo.eq_or_get?_of_finish hfound with ⟨rfl, rfl⟩ | hold
  · exact .inr ⟨owner, howner, howned⟩
  · exact .inl hold

theorem building_autoScope {found : Option ScopeId} (hauto : context.IsAuto program found) :
    program.Building context { context with autoScope := some found } := by
  refine hsound.building_of_scopes
    (.of_tables List.prefix_rfl (.refl _) (.refl _) ?_ List.prefix_rfl
      rfl rfl rfl rfl rfl)
    rfl rfl (fun _ _ hold => .inl hold) ?_
  · intro known hknown
    exact congrArg some (hsound.eq_of_isAuto hauto (hsound.autoScope known hknown))
  · intro known hknown
    obtain rfl := Option.some.inj hknown
    exact .inr hauto

/-- Adding the scope of an owner that has none yet. -/
theorem building_scope {scope : Scope} (hnone : context.built.get? scope.owner = none)
    (hshapes : context.Shapes program ⟨context.scopes.size⟩ scope) :
    program.Building context (context.withScope scope) := by
  have hbuilds := withScope_builds hnone
  refine hsound.building hbuilds ?_ ?_ ?_ ?_
  · intro id hid hfresh
    obtain rfl := (has_withScope hid).resolve_left hfresh
    rw [scope_withScope]
    exact hbuilds.shapes hshapes
  · intro owner id
    by_cases heq : owner = scope.owner
    · subst heq
      have hfresh : ∀ other, ¬ context.OwnedBy other scope.owner := by
        intro other howned
        cases ((hsound.built _ _).mpr howned).symm.trans hnone
      rw [get?_built_withScope_self]
      constructor
      · intro hid
        obtain rfl := Option.some.inj hid
        exact ownedBy_withScope context scope
      · intro hid
        rcases has_withScope hid.1 with hold | rfl
        · exact absurd (hbuilds.ownedBy_of_has hold hid) (hfresh id)
        · rfl
    · rw [get?_built_withScope_of_ne context scope heq, hsound.built]
      constructor
      · exact hbuilds.ownedBy
      · intro hid
        rcases has_withScope hid.1 with hold | rfl
        · exact hbuilds.ownedBy_of_has hold hid
        · exact absurd (hid.2.symm.trans (ownedBy_withScope context scope).2) heq
  · intro node id hid
    obtain ⟨owner, howner, hold⟩ := hsound.scopeOf node id hid
    exact ⟨owner, howner, hbuilds.ownedBy hold⟩
  · intro found hfound
    exact hbuilds.isAuto (hsound.autoScope found hfound)

end Context.Sound

namespace Program

variable {program : Program} {context : Context}

theorem Around.owner {id : NodeId} {owner : Option NodeId}
    (hcloses : program.opensScope (program.tree.standIn id) = false)
    (haround : program.Around (program.tree.standIn id) owner) : program.Owner id owner := by
  unfold Around at haround
  cases hparent : program.tree.parent? (program.tree.standIn id) with
  | none =>
    rw [hparent] at haround
    rw [show owner = none from haround]
    exact .top hcloses hparent
  | some parent =>
    rw [hparent] at haround
    exact .climbs hcloses hparent haround

theorem opensScope_of_named {node : NodeId} {tag : Tag}
    (htag : program.tree.tag? node = some tag) (hnamed : tag.opensNamedScope = true) :
    program.opensScope node = true := by
  rw [opensScope, htag]
  simp [hnamed, Tag.mayOpenScope]

theorem opensScope_of_isModule {id : NodeId} (htag : program.tree.tag? id = some .moduleDecl) :
    program.opensScope id = true :=
  opensScope_of_named htag rfl

/-- Every node of a finished tree lies in the scope of some node, since what is at the
top is a module. -/
theorem Owner.exists_of_contains (hforest : program.tree.IsForest) {id : NodeId}
    {owner : Option NodeId} (howner : program.Owner id owner)
    (hid : program.tree.contains id = true) : ∃ node, owner = some node := by
  have hstands : ∀ id, program.tree.contains id = true →
      program.tree.contains (program.tree.standIn id) = true := by
    intro id hid
    unfold Tree.standIn
    split
    · cases hbody : program.tree.body? id with
      | none => exact hid
      | some body =>
        obtain ⟨node, hnode, -⟩ := Option.map_eq_some_iff.mp (hforest.bodies id body hbody)
        exact Tree.contains_iff.mpr ⟨node, hnode⟩
    · exact hid
  induction howner with
  | opens => exact ⟨_, rfl⟩
  | climbs _ hparent _ ih => exact ih (hforest.parents _ _ hparent)
  | top hcloses hparent =>
    rw [opensScope_of_isModule (hforest.tops _ (hstands _ hid) hparent)] at hcloses
    cases hcloses

theorem report_ends (hsound : context.Sound program) (diagnostic : Diagnostic) :
    Ends program.Building (Resolve.report diagnostic) context fun _ _ => True :=
  .modify (hsound.building_report diagnostic) trivial

theorem rootScope_ends (hsound : context.Sound program) :
    Ends program.Building program.rootScope context fun id later => later.OwnedBy id none := by
  unfold rootScope
  apply Ends.get_bind
  cases hroot : context.built.get? none with
  | some id => exact .pure hsound.building_refl ((hsound.built none id).mp hroot)
  | none =>
    have hfirst : context.scopes.size = 0 := hsound.size_eq_zero hroot
    have hshapes : context.Shapes program ⟨context.scopes.size⟩ (.root program.builtins) :=
      .root hfirst
    exact ⟨_, _, rfl, hsound.building_scope hroot hshapes, ownedBy_withScope context _⟩

theorem standsFor_ends (hsound : context.Sound program) (id : NodeId) :
    Ends program.Building (program.standsFor id) context fun node later =>
      node = program.tree.standIn id ∧ later.built = context.built := by
  unfold standsFor Tree.standIn
  cases htag : program.tree.tag? id with
  | none => exact .pure hsound.building_refl ⟨rfl, rfl⟩
  | some tag =>
    cases tag with
    | includeDecl =>
      cases hbody : program.tree.body? id with
      | some body => exact .pure hsound.building_refl ⟨rfl, rfl⟩
      | none => exact ⟨_, _, rfl, hsound.building_report _, rfl, rfl⟩
    | _ => exact .pure hsound.building_refl ⟨rfl, rfl⟩

/-- Building scopes of nodes that climb to the top within so many steps. -/
def BuildingWithin (program : Program) (steps : Nat) (context later : Context) : Prop :=
  program.Building context later ∧ ∀ node, later.built.get? (some node) ≠ none →
    context.built.get? (some node) ≠ none ∨ program.tree.EndsWithin steps node

instance buildingWithin_isTrans (program : Program) (steps : Nat) :
    IsTrans Context (program.BuildingWithin steps) := by
  refine ⟨fun _ _ _ hfirst hsecond => ⟨IsTrans.trans _ _ _ hfirst.1 hsecond.1, ?_⟩⟩
  intro node hbuilt
  rcases hsecond.2 node hbuilt with hbefore | hends
  · exact hfirst.2 node hbefore
  · exact .inr hends

theorem BuildingWithin.of_built {steps : Nat} {later : Context}
    (hbuilding : program.Building context later) (hbuilt : later.built = context.built) :
    program.BuildingWithin steps context later :=
  ⟨hbuilding, fun _ hsome => .inl (hbuilt ▸ hsome)⟩

theorem BuildingWithin.succ {steps : Nat} {later : Context}
    (hbuilding : program.BuildingWithin steps context later) :
    program.BuildingWithin (steps + 1) context later :=
  ⟨hbuilding.1, fun node hsome => (hbuilding.2 node hsome).imp_right Tree.EndsWithin.succ⟩

theorem rootScope_endsWithin (hsound : context.Sound program) (steps : Nat) :
    Ends (program.BuildingWithin steps) program.rootScope context fun id later =>
      later.OwnedBy id none ∧
        ∀ node, later.built.get? (some node) = context.built.get? (some node) := by
  obtain ⟨id, later, hrun, hbuilding, howned⟩ := rootScope_ends hsound
  have hsame : ∀ node, later.built.get? (some node) = context.built.get? (some node) := by
    intro node
    have hroot : program.rootScope context = some (id, later) := hrun
    unfold rootScope at hroot
    obtain ⟨_, _, hget, hrest⟩ := bind_eq_some_iff.mp hroot
    cases hget
    cases hbuilt : context.built.get? none with
    | some root =>
      rw [hbuilt] at hrest
      cases hrest
      rfl
    | none =>
      rw [hbuilt] at hrest
      cases hrest
      exact Memo.get?_finish_of_ne _ (by simp) _
  exact ⟨id, later, hrun, ⟨hbuilding, fun node hsome => .inl (hsame node ▸ hsome)⟩, howned, hsame⟩

theorem buildScope_ends (hsound : context.Sound program) {id : NodeId} {steps : Nat}
    {around : Resolve ScopeId} (hopens : program.opensScope id = true)
    (hwithin : program.tree.EndsWithin steps id)
    (haround : context.built.get? (some id) = none →
      Ends (program.BuildingWithin steps) around context fun parent later =>
        later.built.get? (some id) = none ∧
          ∃ owner, program.Around id owner ∧ later.OwnedBy parent owner) :
    Ends (program.BuildingWithin steps) (program.buildScope id around) context
      fun scope later => later.OwnedBy scope (some id) := by
  unfold buildScope
  apply Ends.get_bind
  cases hbuilt : context.built.get? (some id) with
  | some scope =>
    exact .pure (.of_built hsound.building_refl rfl) ((hsound.built _ _).mp hbuilt)
  | none =>
    apply (haround hbuilt).bind
    rintro parent later hbuilding ⟨hnone, owner, howner, howned⟩
    have hshapes : later.Shapes program ⟨later.scopes.size⟩
        (program.scopeFor id (later.outward parent)) := .inner hopens howned.1 howner howned
    refine ⟨_, _, rfl, ⟨hbuilding.1.2.building_scope hnone hshapes, ?_⟩,
      ownedBy_withScope later _⟩
    intro node hsome
    by_cases heq : node = id
    · exact .inr (heq ▸ hwithin)
    · apply Or.inl
      have hne : some node ≠ some id := fun hsame => heq (Option.some.inj hsame)
      rwa [← get?_built_withScope_of_ne later (program.scopeFor id (later.outward parent)) hne]

/-- One level of climbing, given how the scope around the node is found. -/
theorem climbScopeOf_succ_ends (hsound : context.Sound program) {steps fuel : Nat} {id : NodeId}
    (hwithin : program.tree.EndsWithin steps (program.tree.standIn id))
    (haround : ∀ middle, middle.Sound program →
      Ends (program.BuildingWithin steps)
        (match program.tree.parent? (program.tree.standIn id) with
          | some parent => program.climbScopeOf fuel parent
          | none => program.rootScope)
        middle fun parent later =>
          (middle.built.get? (some (program.tree.standIn id)) = none →
            later.built.get? (some (program.tree.standIn id)) = none) ∧
          ∃ owner, program.Around (program.tree.standIn id) owner ∧ later.OwnedBy parent owner) :
    Ends (program.BuildingWithin steps) (program.climbScopeOf (fuel + 1) id) context
      fun scope later => ∃ owner, program.Owner id owner ∧ later.OwnedBy scope owner := by
  rw [climbScopeOf]
  apply Ends.get_bind
  cases hknown : context.scopeOf.get? id with
  | some scope => exact .pure (.of_built hsound.building_refl rfl) (hsound.scopeOf id scope hknown)
  | none =>
    have hstands : Ends (program.BuildingWithin steps) (program.standsFor id) context
        fun node later => node = program.tree.standIn id ∧ later.Sound program := by
      obtain ⟨node, later, hrun, hbuilding, hnode, hbuilt⟩ := standsFor_ends hsound id
      exact ⟨node, later, hrun, .of_built hbuilding hbuilt, hnode, hbuilding.2⟩
    apply hstands.bind
    rintro node middle - ⟨rfl, hmiddle⟩
    have hfinish : ∀ scope later, (∃ owner, program.Owner id owner ∧ later.OwnedBy scope owner) →
        later.Sound program →
        Ends (program.BuildingWithin steps)
          (do modify fun context => { context with scopeOf := context.scopeOf.finish id scope }
              return scope)
          later fun scope last => ∃ owner, program.Owner id owner ∧ last.OwnedBy scope owner := by
      rintro scope later ⟨owner, howner, howned⟩ hlater
      have hdone := hlater.building_scopeOf howner howned
      exact ⟨_, _, rfl, .of_built hdone rfl, owner, howner, hdone.1.ownedBy howned⟩
    dsimp only
    by_cases hopens : program.opensScope (program.tree.standIn id) = true
    · rw [if_pos hopens]
      refine (buildScope_ends hmiddle hopens hwithin ?_).bind ?_
      · intro hnone
        exact (haround middle hmiddle).mono fun _ _ _ hpost => ⟨hpost.1 hnone, hpost.2⟩
      · intro scope later hbuilding howned
        exact hfinish scope later ⟨_, .opens hopens, howned⟩ hbuilding.1.2
    · rw [if_neg hopens]
      apply (haround middle hmiddle).bind
      rintro scope later hbuilding ⟨-, owner, howner, howned⟩
      exact hfinish scope later
        ⟨owner, howner.owner (Bool.eq_false_of_not_eq_true hopens), howned⟩ hbuilding.1.2

/-- Climbing with more fuel than there are nodes above finds the scope of the
node's owner, and builds no scope but those of the node and its ancestors. -/
theorem climbScopeOf_ends (hforest : program.tree.IsForest) {steps fuel : Nat} {id : NodeId}
    (hends : program.tree.EndsWithin steps (program.tree.standIn id)) (hfuel : steps < fuel)
    (hsound : context.Sound program) :
    Ends (program.BuildingWithin steps) (program.climbScopeOf fuel id) context
      fun scope later => ∃ owner, program.Owner id owner ∧ later.OwnedBy scope owner := by
  induction steps generalizing fuel id context with
  | zero =>
    obtain ⟨fuel, rfl⟩ := Nat.exists_eq_succ_of_ne_zero (Nat.ne_of_gt hfuel)
    apply climbScopeOf_succ_ends hsound hends
    intro middle hmiddle
    rw [show program.tree.parent? (program.tree.standIn id) = none from hends]
    apply (rootScope_endsWithin hmiddle 0).mono
    rintro root later - ⟨howned, hsame⟩
    have haround : program.Around (program.tree.standIn id) none := by
      rw [Around, show program.tree.parent? _ = none from hends]
    exact ⟨fun hnone => by rw [hsame, hnone], none, haround, howned⟩
  | succ steps ih =>
    by_cases hless : program.tree.EndsWithin steps (program.tree.standIn id)
    · exact (ih hless (Nat.lt_of_succ_lt hfuel) hsound).widen fun _ => BuildingWithin.succ
    obtain ⟨fuel, rfl⟩ := Nat.exists_eq_succ_of_ne_zero (Nat.ne_of_gt (Nat.zero_lt_of_lt hfuel))
    apply climbScopeOf_succ_ends hsound hends
    intro middle hmiddle
    cases hparent : program.tree.parent? (program.tree.standIn id) with
    | none => exact absurd (Tree.EndsWithin.of_parent?_eq_none hparent) hless
    | some parent =>
      have hup : program.tree.EndsWithin steps (program.tree.standIn parent) := by
        rw [Tree.standIn_of_tag (hforest.holds _ _ hparent)]
        exact hends parent hparent
      obtain ⟨scope, later, hrun, hbuilding, howned⟩ :=
        ih hup (Nat.lt_of_succ_lt_succ hfuel) hmiddle
      refine ⟨scope, later, hrun, hbuilding.succ, ?_, ?_⟩
      · intro hnone
        by_contra hsome
        exact (hbuilding.2 _ hsome).elim (absurd hnone) hless
      · simpa only [Around, hparent] using howned

/-- Every node has a scope, that of its owner. -/
theorem scopeOf_ends (hforest : program.tree.IsForest) (hsound : context.Sound program)
    (id : NodeId) :
    Ends program.Building (program.scopeOf id) context fun scope later =>
      ∃ owner, program.Owner id owner ∧ later.OwnedBy scope owner :=
  (climbScopeOf_ends hforest (hforest.climbs _) (by simp [depth]) hsound).widen fun _ => And.left

/-- The scope of the automatic module is found once, if there is such a module. -/
theorem autoScope_ends (hforest : program.tree.IsForest) (hsound : context.Sound program) :
    Ends program.Building program.autoScope context fun found later =>
      later.autoScope = some found := by
  unfold autoScope
  apply Ends.get_bind
  cases hauto : context.autoScope with
  | some found => exact .pure hsound.building_refl hauto
  | none =>
    have hfinish : ∀ found later, later.IsAuto program found → later.Sound program →
        Ends program.Building
          (do modify fun context => { context with autoScope := some found }
              return found)
          later fun found last => last.autoScope = some found :=
      fun found later hfound hlater => ⟨_, _, rfl, hlater.building_autoScope hfound, rfl⟩
    dsimp only
    cases htop : program.tree.toplevel? program.autoModule with
    | none => exact hfinish none context htop hsound
    | some id =>
      simp only [bind_map_left]
      apply (scopeOf_ends hforest hsound id).bind
      rintro scope later hbuilding ⟨owner, howner, howned⟩
      exact hfinish (some scope) later ⟨id, owner, htop, howner, howned⟩ hbuilding.2

end Program

end Scoping
