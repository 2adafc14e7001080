import Scoping.Proofs.Context.ScopeOf
import Scoping.Proofs.Context.Yields
import Scoping.Proofs.Syntax.Rooted

/-!
Building scopes on any finished tree, whether or not its chains of parents end. A
scope is built after the scopes around it, so a climb that has a result has been to
the top: every scope that is known belongs to a node whose chain of parents ends. In
particular no climb comes back to the node that it started from, and each node is
given one scope at most.
-/

namespace Scoping

open Context Resolve

theorem Tree.Finished.parent?_standIn {tree : Tree} (hfinished : tree.Finished) (id : NodeId) :
    tree.parent? (tree.standIn id) = tree.parent? id := by
  unfold Tree.standIn
  split
  · cases hbody : tree.body? id with
    | none => rfl
    | some body =>
      obtain ⟨parent, hsite, hparent⟩ := hfinished.parent?_of_body? hbody
      exact hparent.trans hsite.symm
  · rfl

theorem Tree.EndsWithin.congr {tree : Tree} {steps : Nat} {id other : NodeId}
    (hsame : tree.parent? other = tree.parent? id) (hends : tree.EndsWithin steps id) :
    tree.EndsWithin steps other := by
  cases steps with
  | zero => exact hsame.trans hends
  | succ steps => exact fun parent hparent => hends parent (hsame ▸ hparent)

namespace Context

/-- The errors reported so far. -/
def errors (context : Context) : List Diagnostic :=
  context.diagnostics.reported.filter Diagnostic.isError

/-- What is true of the scopes known in any context. -/
structure Grounded (program : Program) (context : Context) : Prop where
  found : ∀ id scope, context.scopeOf.get? id = some scope →
    ∃ steps, program.tree.EndsWithin steps id
  built : ∀ owner scope, context.built.get? (some owner) = some scope →
    ∃ steps, program.tree.EndsWithin steps owner
  /-- A node owns the scope that is recorded as built for it, and no other. -/
  owned : ∀ id owner, context.OwnedBy id (some owner) → context.built.get? (some owner) = some id
  ownerless : ∀ id, (context.scope id).owner = none → (context.scope id).hasImports = false

theorem grounded_empty (program : Program) : Context.empty.Grounded program :=
  ⟨nofun, nofun, fun _ _ howned => absurd howned.1 (Nat.not_lt_zero _), fun _ _ => rfl⟩

variable {program : Program} {context later : Context}

theorem Grounded.congr (hgrounded : context.Grounded program)
    (hscopes : later.scopes = context.scopes) (hscopeOf : later.scopeOf = context.scopeOf)
    (hbuilt : later.built = context.built) : later.Grounded program := by
  obtain ⟨hfound, hends, howned, hownerless⟩ := hgrounded
  refine ⟨hscopeOf ▸ hfound, hbuilt ▸ hends, fun id owner hid => ?_, fun id hid => ?_⟩
  · exact hbuilt ▸ howned id owner (hid.congr hscopes.symm)
  · have hscope : later.scope id = context.scope id := by
      rw [Context.scope, Context.scope, scope?, scope?, hscopes]
    rw [hscope] at hid ⊢
    exact hownerless id hid

/-- Two scopes of one node are one scope. -/
theorem Grounded.eq_of_ownedBy (hgrounded : context.Grounded program) {id other : ScopeId}
    {owner : NodeId} (hid : context.OwnedBy id (some owner))
    (hother : context.OwnedBy other (some owner)) : id = other :=
  Option.some.inj ((hgrounded.owned id owner hid).symm.trans (hgrounded.owned other owner hother))

/-- A scope with statements has an owner. -/
theorem Grounded.exists_owner (hgrounded : context.Grounded program) {id : ScopeId}
    (himports : (context.scope id).hasImports = true) :
    ∃ owner, context.OwnedBy id (some owner) := by
  cases howner : (context.scope id).owner with
  | none => simp [hgrounded.ownerless id howner] at himports
  | some owner =>
    refine ⟨owner, ?_, howner⟩
    by_contra hforeign
    rw [Context.scope, scope?, Array.getElem?_eq_none (Nat.le_of_not_lt hforeign)] at howner
    cases howner

theorem Grounded.finish_scopeOf (hgrounded : context.Grounded program) {id : NodeId} {steps : Nat}
    (hends : program.tree.EndsWithin steps id) (scope : ScopeId) :
    Grounded program { context with scopeOf := context.scopeOf.finish id scope } := by
  refine ⟨fun other found hfound => ?_, hgrounded.built, hgrounded.owned, hgrounded.ownerless⟩
  rcases Memo.eq_or_get?_of_finish hfound with ⟨rfl, rfl⟩ | hknown
  · exact ⟨steps, hends⟩
  · exact hgrounded.found other found hknown

/-- Adding the scope of an owner that has none yet. -/
theorem Grounded.withScope (hgrounded : context.Grounded program) {scope : Scope}
    (hnone : context.built.get? scope.owner = none)
    (hends : ∀ owner, scope.owner = some owner → ∃ steps, program.tree.EndsWithin steps owner)
    (hownerless : scope.owner = none → scope.hasImports = false) :
    (context.withScope scope).Grounded program := by
  have hbuilds := withScope_builds hnone
  refine ⟨hgrounded.found, fun owner id hid => ?_, fun id owner howned => ?_, fun id howner => ?_⟩
  · by_cases heq : some owner = scope.owner
    · exact hends owner heq.symm
    · rw [get?_built_withScope_of_ne context scope heq] at hid
      exact hgrounded.built owner id hid
  · rcases has_withScope howned.1 with hold | rfl
    · have hbefore := hgrounded.owned id owner (hbuilds.ownedBy_of_has hold howned)
      exact hbuilds.built (some owner) id hbefore
    · have hself := (ownedBy_withScope context scope).2
      rw [howned.2] at hself
      rw [hself, get?_built_withScope_self]
  · by_cases hid : (context.withScope scope).Has id
    · rcases has_withScope hid with hold | rfl
      · rw [hbuilds.scope hold] at howner ⊢
        exact hgrounded.ownerless id howner
      · rw [scope_withScope] at howner ⊢
        exact hownerless howner
    · rw [Context.scope, scope?, Array.getElem?_eq_none (Nat.le_of_not_lt hid)]
      rfl

end Context

namespace Program

/-- What building scopes may change when all of them are for nodes that climb to the top
within so many steps. -/
structure Grounding (program : Program) (steps : Nat) (context later : Context) : Prop where
  grounded : later.Grounded program
  scopes : context.scopes.toList <+: later.scopes.toList
  visibility : later.visibility = context.visibility
  errors : later.errors = context.errors
  within : ∀ owner, (later.built.get? (some owner)).isSome = true →
    (context.built.get? (some owner)).isSome = true ∨ program.tree.EndsWithin steps owner

namespace Grounding

variable {program : Program} {steps : Nat} {context middle later : Context}

theorem refl (hgrounded : context.Grounded program) : program.Grounding steps context context :=
  ⟨hgrounded, List.prefix_rfl, rfl, rfl, fun _ hsome => .inl hsome⟩

theorem trans (hfirst : program.Grounding steps context middle)
    (hsecond : program.Grounding steps middle later) : program.Grounding steps context later where
  grounded := hsecond.grounded
  scopes := hfirst.scopes.trans hsecond.scopes
  visibility := hsecond.visibility.trans hfirst.visibility
  errors := hsecond.errors.trans hfirst.errors
  within owner hsome := by
    rcases hsecond.within owner hsome with hbefore | hends
    · exact hfirst.within owner hbefore
    · exact .inr hends

theorem succ (hgrounding : program.Grounding steps context later) :
    program.Grounding (steps + 1) context later :=
  { hgrounding with within := fun owner hsome =>
      (hgrounding.within owner hsome).imp_right Tree.EndsWithin.succ }

end Grounding

/-- What finding the scope of a node may change: its chain of parents ends, and on the way
scopes were built for nodes that climb no further. -/
structure Grounds (program : Program) (id : NodeId) (context later : Context) : Prop where
  ends : ∃ steps, program.tree.EndsWithin steps id
  grounding : ∀ steps, program.tree.EndsWithin steps id → program.Grounding steps context later

namespace Grounds

variable {program : Program} {id parent : NodeId} {context middle later : Context}

/-- A step before that is not about the node. -/
theorem after (hgrounds : program.Grounds id middle later)
    (hfirst : ∀ steps, program.Grounding steps context middle) :
    program.Grounds id context later :=
  ⟨hgrounds.ends, fun steps hsteps => (hfirst steps).trans (hgrounds.grounding steps hsteps)⟩

theorem andThen {last : Context} (hgrounds : program.Grounds id context later)
    (hlast : later.Grounded program →
      ∀ steps, program.tree.EndsWithin steps id → program.Grounding steps later last) :
    program.Grounds id context last :=
  ⟨hgrounds.ends, fun steps hsteps =>
    have hgrounding := hgrounds.grounding steps hsteps
    hgrounding.trans (hlast hgrounding.grounded steps hsteps)⟩

/-- A node climbs one step more than its parent. -/
theorem of_parent? (hparent : program.tree.parent? id = some parent)
    (hgrounds : program.Grounds parent context later) : program.Grounds id context later := by
  obtain ⟨⟨steps, hends⟩, hgrounding⟩ := hgrounds
  refine ⟨⟨steps + 1, fun above habove => ?_⟩, fun more hmore => ?_⟩
  · exact Option.some.inj (hparent.symm.trans habove) ▸ hends
  · cases more with
    | zero => exact absurd (hparent.symm.trans hmore) (by simp)
    | succ more => exact (hgrounding more (hmore parent hparent)).succ

/-- So it is not among those that got a scope on the way from its parent. -/
theorem not_built (hparent : program.tree.parent? id = some parent)
    (hgrounds : program.Grounds parent context later)
    (hnone : context.built.get? (some id) = none) : later.built.get? (some id) = none := by
  by_contra hsome
  have hlower : ∀ steps, ¬ program.tree.EndsWithin steps parent := by
    intro steps
    induction steps with
    | zero =>
      intro hends
      rcases (hgrounds.grounding 0 hends).within id (Option.isSome_iff_ne_none.mpr hsome)
        with hold | htop
      · simp [hnone] at hold
      · exact absurd (hparent.symm.trans htop) (by simp)
    | succ steps ih =>
      intro hends
      rcases (hgrounds.grounding _ hends).within id (Option.isSome_iff_ne_none.mpr hsome)
        with hold | hup
      · simp [hnone] at hold
      · exact ih (hup parent hparent)
  obtain ⟨steps, hends⟩ := hgrounds.ends
  exact hlower steps hends

/-- Nodes with the same parent climb alike. -/
theorem congr {other : NodeId} (hgrounds : program.Grounds id context later)
    (hsame : program.tree.parent? other = program.tree.parent? id) :
    program.Grounds other context later :=
  ⟨hgrounds.ends.imp fun _ hends => hends.congr hsame,
    fun steps hsteps => hgrounds.grounding steps (hsteps.congr hsame.symm)⟩

end Grounds

variable {program : Program} {context : Context}

theorem rootScope_yields (hgrounded : context.Grounded program) (steps : Nat) :
    program.rootScope.Yields context fun _ later => program.Grounding steps context later ∧
      ∀ owner, later.built.get? (some owner) = context.built.get? (some owner) := by
  unfold rootScope
  refine .get_bind ?_
  cases hroot : context.built.get? none with
  | some root => exact .pure ⟨.refl hgrounded, fun _ => rfl⟩
  | none =>
    rintro root later hrun
    obtain rfl : later = context.withScope (.root program.builtins) := by cases hrun; rfl
    have hsame : ∀ owner, (context.withScope (.root program.builtins)).built.get? (some owner) =
        context.built.get? (some owner) :=
      fun owner => get?_built_withScope_of_ne context _ nofun
    refine ⟨⟨hgrounded.withScope hroot nofun fun _ => rfl, (withScope_builds hroot).scopes, rfl, rfl,
      fun owner hsome => .inl (hsame owner ▸ hsome)⟩, hsame⟩

theorem standsFor_yields (hgrounded : context.Grounded program) (id : NodeId) :
    (program.standsFor id).Yields context fun node later =>
      node = program.tree.standIn id ∧ ∀ steps, program.Grounding steps context later := by
  unfold standsFor Tree.standIn
  cases program.tree.tag? id with
  | none => exact .pure ⟨rfl, fun _ => .refl hgrounded⟩
  | some tag =>
    cases tag with
    | includeDecl =>
      cases program.tree.body? id with
      | some body => exact .pure ⟨rfl, fun _ => .refl hgrounded⟩
      | none =>
        rintro _ _ hrun
        cases hrun
        refine ⟨rfl, fun steps => ⟨hgrounded.congr rfl rfl rfl, List.prefix_rfl, rfl, ?_,
          fun _ hsome => .inl hsome⟩⟩
        simp [errors, Diagnostics.add, Diagnostic.isError, Diagnostic.missingBody,
          Diagnostic.warning]
    | _ => exact .pure ⟨rfl, fun _ => .refl hgrounded⟩

theorem buildScope_yields (hgrounded : context.Grounded program) {id : NodeId}
    {around : Resolve ScopeId}
    (haround : around.Yields context fun _ later => program.Grounds id context later ∧
      (context.built.get? (some id) = none → later.built.get? (some id) = none)) :
    (program.buildScope id around).Yields context fun _ later =>
      program.Grounds id context later := by
  unfold buildScope
  refine .get_bind ?_
  cases hbuilt : context.built.get? (some id) with
  | some scope => exact .pure ⟨hgrounded.built id scope hbuilt, fun _ _ => .refl hgrounded⟩
  | none =>
    refine haround.bind ?_
    rintro parent middle ⟨hgrounds, hfresh⟩ scope later hrun
    obtain rfl : later = middle.withScope (program.scopeFor id (middle.outward parent)) := by
      cases hrun
      rfl
    have hnone : middle.built.get? (program.scopeFor id (middle.outward parent)).owner = none :=
      hfresh hbuilt
    refine hgrounds.andThen fun hmiddle steps hsteps => ⟨hmiddle.withScope hnone ?_ nofun,
      (withScope_builds hnone).scopes, rfl, rfl, fun owner hsome => ?_⟩
    · intro owner howner
      exact ⟨steps, Option.some.inj howner ▸ hsteps⟩
    · by_cases heq : owner = id
      · exact .inr (heq ▸ hsteps)
      · rw [get?_built_withScope_of_ne _ _ fun hsame => heq (Option.some.inj hsame)] at hsome
        exact .inl hsome

/-- Finding the scope around a node, given how scopes of parents are found. -/
theorem around_yields (hgrounded : context.Grounded program) (id : NodeId)
    {climb : NodeId → Resolve ScopeId}
    (hclimb : ∀ parent, (climb parent).Yields context fun _ later =>
      program.Grounds parent context later) :
    (match program.tree.parent? id with
      | some parent => climb parent
      | none => program.rootScope).Yields context fun _ later =>
      program.Grounds id context later ∧
      (context.built.get? (some id) = none → later.built.get? (some id) = none) := by
  cases hparent : program.tree.parent? id with
  | none =>
    refine fun root later hrun => ⟨⟨⟨0, hparent⟩, fun steps _ => ?_⟩, fun hnone => ?_⟩
    · exact (rootScope_yields hgrounded steps root later hrun).1
    · rw [(rootScope_yields hgrounded 0 root later hrun).2, hnone]
  | some parent =>
    exact (hclimb parent).mono fun scope later hgrounds =>
      ⟨hgrounds.of_parent? hparent, hgrounds.not_built hparent⟩

/-- Recording the scope that was found for a node. -/
theorem record_yields {id : NodeId} {later : Context} (hgrounds : program.Grounds id context later)
    (scope : ScopeId) :
    Yields (do
      modify fun context => { context with scopeOf := context.scopeOf.finish id scope }
      return scope) later fun _ last => program.Grounds id context last := by
  rintro _ _ hrun
  cases hrun
  exact hgrounds.andThen fun hlater steps hsteps => ⟨hlater.finish_scopeOf hsteps scope,
    List.prefix_rfl, rfl, rfl, fun _ hsome => .inl hsome⟩

/-- A climb with a result has been to the top, and built scopes for the nodes on its way
only. -/
theorem climbScopeOf_yields (hfinished : program.tree.Finished) (fuel : Nat) (id : NodeId)
    (hgrounded : context.Grounded program) :
    (program.climbScopeOf fuel id).Yields context fun _ later =>
      program.Grounds id context later := by
  induction fuel generalizing id context with
  | zero => exact nofun
  | succ fuel ih =>
    rw [climbScopeOf]
    refine .get_bind ?_
    cases hknown : context.scopeOf.get? id with
    | some scope => exact .pure ⟨hgrounded.found id scope hknown, fun _ _ => .refl hgrounded⟩
    | none =>
      refine (standsFor_yields hgrounded id).bind ?_
      rintro _ middle ⟨rfl, hfirst⟩
      have hmiddle := (hfirst 0).grounded
      have haround := around_yields hmiddle (program.tree.standIn id) fun parent => ih parent hmiddle
      have hrecord : ∀ scope later, program.Grounds (program.tree.standIn id) middle later →
          Yields (do
            modify fun context => { context with scopeOf := context.scopeOf.finish id scope }
            return scope) later fun _ last => program.Grounds id context last :=
        fun scope later hgrounds => record_yields
          ((hgrounds.after hfirst).congr (hfinished.parent?_standIn id).symm) scope
      dsimp only
      by_cases hopens : program.opensScope (program.tree.standIn id) = true
      · rw [if_pos hopens]
        exact (buildScope_yields hmiddle haround).bind hrecord
      · rw [if_neg hopens]
        exact haround.bind fun scope later hpost => hrecord scope later hpost.1

/-- Where a node has a scope at all, its chain of parents ends. -/
theorem exists_endsWithin_of_scopeOf (hfinished : program.tree.Finished) {id : NodeId}
    (hsome : (program.scopeOf id .empty).isSome = true) :
    ∃ steps, program.tree.EndsWithin steps id := by
  obtain ⟨⟨scope, later⟩, hrun⟩ := Option.isSome_iff_exists.mp hsome
  exact (climbScopeOf_yields hfinished _ id (grounded_empty program) scope later hrun).1

end Program

end Scoping
