import Scoping.Proofs.Visibility.Keeping
import Scoping.Proofs.Visibility.Settling

/-!
Each problem is reported once. An error is about a clause, and the clauses of a scope are
worked out once, so what is reported about a clause is reported then, at no node twice. A
warning is about an include without body, and comes when the scope of the include is
looked for; that scope is recorded, and on a tree without cycles nothing that is looked
for on the way asks for it again.
-/

namespace Scoping

open Context Resolve

namespace Context

/-- The warnings reported so far. -/
def warnings (context : Context) : List Diagnostic :=
  context.diagnostics.reported.filter fun diagnostic => !diagnostic.isError

/-- Whether the scope of a node is recorded. -/
def Knows (context : Context) (id : NodeId) : Prop := (context.scopeOf.get? id).isSome = true

/-- What a step may change that warns only about nodes whose scopes it comes to record, and
about each once. -/
structure Warns (context later : Context) : Prop where
  kept : ∀ id, context.Knows id → later.Knows id
  added : ∃ new, later.warnings = context.warnings ++ new ∧ (new.map Diagnostic.node).Nodup ∧
    ∀ warning ∈ new, ¬ context.Knows warning.node ∧ later.Knows warning.node

namespace Warns

variable {context middle later : Context}

/-- A step that warns about nothing. -/
theorem of_same (hscopeOf : later.scopeOf = context.scopeOf)
    (hwarnings : later.warnings = context.warnings) : context.Warns later :=
  ⟨fun id hknown => by rwa [Knows, hscopeOf],
    [], by rw [hwarnings, List.append_nil], List.nodup_nil, nofun⟩

theorem refl (context : Context) : context.Warns context := of_same rfl rfl

/-- What is warned about later was not known before. -/
theorem trans (hfirst : context.Warns middle) (hsecond : middle.Warns later) :
    context.Warns later := by
  obtain ⟨hkept, new, hnew, hnodup, hnodes⟩ := hfirst
  obtain ⟨hkept', more, hmore, hnodup', hnodes'⟩ := hsecond
  refine ⟨fun id hknown => hkept' id (hkept id hknown), new ++ more,
    by rw [hmore, hnew, List.append_assoc], ?_, fun warning hmem => ?_⟩
  · rw [List.map_append]
    refine List.nodup_append.mpr ⟨hnodup, hnodup', ?_⟩
    rintro id hid _ hid' rfl
    obtain ⟨warning, hwarning, rfl⟩ := List.mem_map.mp hid
    obtain ⟨other, hother, hsame⟩ := List.mem_map.mp hid'
    exact (hnodes' other hother).1 (hsame ▸ (hnodes warning hwarning).2)
  · rcases List.mem_append.mp hmem with hold | hlate
    · exact ⟨(hnodes warning hold).1, hkept' _ (hnodes warning hold).2⟩
    · exact ⟨fun hknown => (hnodes' warning hlate).1 (hkept _ hknown), (hnodes' warning hlate).2⟩

end Warns

instance warns_isPreorder : IsPreorder Context Warns where
  refl := Warns.refl
  trans _ _ _ := Warns.trans

/-- What looking for the scope of a node may change: on the way the scopes of nodes around
it are recorded. -/
structure WarnsAbove (tree : Tree) (id : NodeId) (context later : Context) : Prop
    extends context.Warns later where
  above : ∀ other, later.Knows other → context.Knows other ∨ tree.Encloses other id

/-- A step after that builds scopes. -/
theorem WarnsAbove.congr {tree : Tree} {id : NodeId} {context later last : Context}
    (hwarns : context.WarnsAbove tree id later) (hscopeOf : last.scopeOf = later.scopeOf)
    (hdiagnostics : last.diagnostics = later.diagnostics) : context.WarnsAbove tree id last where
  toWarns := hwarns.toWarns.trans (.of_same hscopeOf (by rw [warnings, warnings, hdiagnostics]))
  above other hknown := hwarns.above other (by rwa [Knows, hscopeOf] at hknown)

/-- Recording the scope of a node that nothing was known of, where warnings before were
about that node only. -/
theorem WarnsAbove.record {tree : Tree} {id : NodeId} {context middle later : Context}
    (hunknown : ¬ context.Knows id) (hscopeOf : middle.scopeOf = context.scopeOf)
    {first : List Diagnostic} (hfirst : middle.warnings = context.warnings ++ first)
    (hnodup : (first.map Diagnostic.node).Nodup) (habout : ∀ warning ∈ first, warning.node = id)
    (hwarns : middle.WarnsAbove tree id later) (hstill : ¬ later.Knows id) (scope : ScopeId) :
    context.WarnsAbove tree id { later with scopeOf := later.scopeOf.finish id scope } := by
  have hsame : ∀ other, middle.Knows other ↔ context.Knows other := fun other => by
    rw [Knows, Knows, hscopeOf]
  have hrecorded : ∀ other, Knows { later with scopeOf := later.scopeOf.finish id scope } other ↔
      other = id ∨ later.Knows other := by
    intro other
    by_cases heq : other = id
    · simp [Knows, heq]
    · simp [Knows, heq, Memo.get?_finish_of_ne _ heq]
  obtain ⟨⟨hkept, more, hmore, hnodup', hnodes⟩, habove⟩ := hwarns
  refine ⟨⟨fun other hknown => ?_, first ++ more, ?_, ?_, fun warning hmem => ?_⟩,
    fun other hknown => ?_⟩
  · exact (hrecorded other).mpr (.inr (hkept other ((hsame other).mpr hknown)))
  · rw [← List.append_assoc, ← hfirst]
    exact hmore
  · rw [List.map_append]
    refine List.nodup_append.mpr ⟨hnodup, hnodup', ?_⟩
    rintro node hnode _ hnode' rfl
    obtain ⟨warning, hwarning, rfl⟩ := List.mem_map.mp hnode
    obtain ⟨other, hother, hsame⟩ := List.mem_map.mp hnode'
    exact hstill (habout warning hwarning ▸ hsame ▸ (hnodes other hother).2)
  · rcases List.mem_append.mp hmem with hold | hlate
    · rw [habout warning hold]
      exact ⟨hunknown, (hrecorded id).mpr (.inl rfl)⟩
    · exact ⟨fun hknown => (hnodes warning hlate).1 ((hsame _).mpr hknown),
        (hrecorded _).mpr (.inr (hnodes warning hlate).2)⟩
  · rcases (hrecorded other).mp hknown with rfl | hlater
    · exact .inr (.refl tree other)
    · exact (habove other hlater).imp_left (hsame other).mp

end Context

namespace Program

variable {program : Program} {context : Context}

theorem rootScope_warns : program.rootScope.Yields context fun _ later =>
    later.scopeOf = context.scopeOf ∧ later.diagnostics = context.diagnostics := by
  unfold rootScope
  refine .get_bind ?_
  split
  · exact .pure ⟨rfl, rfl⟩
  · rintro root later hrun
    cases hrun
    exact ⟨rfl, rfl⟩

/-- An include without body is warned about before anything is recorded. -/
theorem standsFor_warns (id : NodeId) : (program.standsFor id).Yields context fun node later =>
    node = program.tree.standIn id ∧ later.scopeOf = context.scopeOf ∧
      ∃ first, later.warnings = context.warnings ++ first ∧ (first.map Diagnostic.node).Nodup ∧
        ∀ warning ∈ first, warning.node = id := by
  have hsame : ∃ first, context.warnings = context.warnings ++ first ∧
      (first.map Diagnostic.node).Nodup ∧ ∀ warning ∈ first, warning.node = id :=
    ⟨[], (List.append_nil _).symm, List.nodup_nil, nofun⟩
  unfold standsFor Tree.standIn
  cases program.tree.tag? id with
  | none => exact .pure ⟨rfl, rfl, hsame⟩
  | some tag =>
    cases tag with
    | includeDecl =>
      cases program.tree.body? id with
      | some body => exact .pure ⟨rfl, rfl, hsame⟩
      | none =>
        rintro _ _ hrun
        cases hrun
        refine ⟨rfl, rfl, [.missingBody id], ?_, List.nodup_singleton _, by
          simp [Diagnostic.missingBody, Diagnostic.warning]⟩
        simp [warnings, Diagnostics.add, Diagnostic.isError, Diagnostic.missingBody,
          Diagnostic.warning]
    | _ => exact .pure ⟨rfl, rfl, hsame⟩

/-- What the scope around a node comes to record does not take in the node itself. -/
theorem around_warns (hacyclic : program.tree.Acyclic) {id : NodeId}
    {climb : NodeId → Resolve ScopeId}
    (hclimb : ∀ parent, (climb parent).Yields context fun _ later =>
      context.WarnsAbove program.tree parent later) (hunknown : ¬ context.Knows id) :
    (match program.tree.parent? id with
      | some parent => climb parent
      | none => program.rootScope).Yields context fun _ later =>
      context.WarnsAbove program.tree id later ∧ ¬ later.Knows id := by
  cases hparent : program.tree.parent? id with
  | none =>
    refine rootScope_warns.mono fun root later ⟨hscopeOf, hdiagnostics⟩ => ?_
    have hsame : context.WarnsAbove program.tree id context := ⟨.refl context, fun _ => .inl⟩
    exact ⟨hsame.congr hscopeOf hdiagnostics, by rwa [Knows, hscopeOf]⟩
  | some parent =>
    refine (hclimb parent).mono fun scope later hwarns => ⟨⟨hwarns.toWarns, fun other hknown => ?_⟩,
      fun hknown => ?_⟩
    · exact (hwarns.above other hknown).imp_right fun habove => habove.trans (.of_parent? hparent)
    · exact (hwarns.above id hknown).elim hunknown (hacyclic.not_encloses_parent hparent)

theorem buildScope_warns {id : NodeId} {around : Resolve ScopeId}
    {post : Context → Prop} (hself : post context) (haround : around.Yields context fun _ => post)
    (hpost : ∀ later last : Context, later.scopeOf = last.scopeOf →
      later.diagnostics = last.diagnostics → post later → post last) :
    (program.buildScope id around).Yields context fun _ => post := by
  unfold buildScope
  refine .get_bind ?_
  split
  · exact .pure hself
  · refine haround.bind fun parent middle hmiddle => ?_
    rintro scope later hrun
    cases hrun
    exact hpost middle _ rfl rfl hmiddle

/-- Looking for the scope of a node warns about no node twice, and about none whose scope is
recorded. -/
theorem climbScopeOf_warns (hfinished : program.tree.Finished) (hacyclic : program.tree.Acyclic)
    (fuel : Nat) (id : NodeId) : (program.climbScopeOf fuel id).Yields context fun _ later =>
      context.WarnsAbove program.tree id later := by
  induction fuel generalizing id context with
  | zero => exact nofun
  | succ fuel ih =>
    rw [climbScopeOf]
    refine .get_bind ?_
    cases hknown : context.scopeOf.get? id with
    | some scope => exact .pure ⟨.refl context, fun _ => .inl⟩
    | none =>
      have hunknown : ¬ context.Knows id := by simp [Knows, hknown]
      refine (standsFor_warns id).bind ?_
      rintro _ middle ⟨rfl, hscopeOf, first, hfirst, hnodup, habout⟩
      have hstill : ¬ middle.Knows id := by rwa [Knows, hscopeOf]
      have hclimb : ∀ parent, (program.climbScopeOf fuel parent).Yields middle
          fun _ later => middle.WarnsAbove program.tree parent later := fun parent => ih parent
      have haround := around_warns hacyclic hclimb hstill
      have hrecord : ∀ scope later, middle.WarnsAbove program.tree id later ∧ ¬ later.Knows id →
          Yields (do
            modify fun context => { context with scopeOf := context.scopeOf.finish id scope }
            return scope) later fun _ last => context.WarnsAbove program.tree id last := by
        rintro scope later ⟨hwarns, hlater⟩ _ _ hrun
        cases hrun
        exact .record hunknown hscopeOf hfirst hnodup habout hwarns hlater scope
      dsimp only
      rw [hfinished.parent?_standIn]
      split
      · refine (buildScope_warns ⟨⟨.refl middle, fun _ => .inl⟩, hstill⟩ haround ?_).bind hrecord
        rintro later last hscopes hdiagnostics ⟨hwarns, hlater⟩
        exact ⟨hwarns.congr hscopes.symm hdiagnostics.symm, by rwa [Knows, ← hscopes]⟩
      · exact haround.bind hrecord

section

variable (hfinished : program.tree.Finished) (hacyclic : program.tree.Acyclic)
include hfinished hacyclic

theorem scopeOf_warns (id : NodeId) : Keeps Warns (program.scopeOf id) := fun _ =>
  (climbScopeOf_warns hfinished hacyclic program.depth id).mono fun _ _ => WarnsAbove.toWarns

theorem autoScope_warns : Keeps Warns program.autoScope := by
  have hrecord : ∀ found : Option ScopeId, Keeps Warns (do
      modify fun context => { context with autoScope := some found }
      return found) := fun found =>
    Keeps.bind (.modify fun context => .of_same rfl rfl) fun _ => .pure _
  unfold autoScope
  refine .get_bind fun context => ?_
  split
  · exact .pure _
  dsimp only
  split
  · exact (scopeOf_warns hfinished hacyclic _).map.bind hrecord
  · exact (Keeps.pure none).bind hrecord

theorem permits_warns : program.Permits Warns where
  scopeOf := scopeOf_warns hfinished hacyclic
  autoScope := autoScope_warns hfinished hacyclic
  report error herror := Keeps.modify fun context =>
    .of_same rfl (by simp [warnings, Diagnostics.add, herror])
  visibility _ _ := .of_same rfl rfl

/-- What questions do to the log: no include is warned about twice. -/
theorem admits_warns : program.Admits Warns where
  rootScope context _ later hrun := by
    obtain ⟨hscopeOf, hdiagnostics⟩ := rootScope_warns _ later hrun
    exact .of_same hscopeOf (by rw [warnings, warnings, hdiagnostics])
  scopeOf := scopeOf_warns hfinished hacyclic
  autoScope := autoScope_warns hfinished hacyclic
  visibility := (permits_warns hfinished hacyclic).resolveVisibility program.depth
  others _ _ _ hscopeOf _ _ hdiagnostics :=
    .of_same hscopeOf (by rw [warnings, warnings, hdiagnostics])

theorem Reachable.nodup_warnings (hreachable : program.Reachable context) :
    context.warnings.Nodup := by
  obtain ⟨-, new, hnew, hnodup, -⟩ := (admits_warns hfinished hacyclic).reaches hreachable
  rw [hnew]
  exact hnodup.of_map

end

/-- Between questions the clauses of a scope that were asked for are worked out, so no two
errors about one clause are alike. -/
theorem nodup_errorsWithin (hledger : context.Ledger program)
    (hidle : ∀ id, ¬ context.Running id) {site : NodeId}
    (hasked : context.Asked program.tree site) :
    (context.errorsWithin program.tree site).Nodup := by
  obtain ⟨id, owner, hsome, howned, hsite⟩ := hasked
  obtain ⟨progress, hprogress⟩ := Option.isSome_iff_exists.mp hsome
  cases progress with
  | running => exact absurd hprogress (hidle id)
  | done clauses =>
    obtain ⟨owner', parts, howned', hparts, -⟩ :=
      hledger.settled id clauses (Memo.get?_eq_some_iff.mpr hprogress)
    obtain rfl : owner' = owner := Option.some.inj (howned'.2.symm.trans howned.2)
    obtain ⟨written, hmem, rfl⟩ := List.mem_map.mp hsite
    obtain ⟨index, hindex, rfl⟩ := List.getElem_of_mem hmem
    obtain ⟨⟨-, hexplained⟩, -⟩ := hparts.get hindex (hparts.length_eq ▸ hindex)
    exact hexplained.apart.of_map

theorem Reachable.nodup_errors (hfinished : program.tree.Finished)
    (hforest : program.tree.IsForest) (hreachable : program.Reachable context) :
    context.errors.Nodup := by
  have hledger := hreachable.ledger hfinished
  refine List.nodup_iff_count_le_one.mpr fun error => ?_
  by_cases herror : error ∈ context.errors
  · obtain ⟨site, hasked, hwithin⟩ := hledger.traced error herror
    have hnodup := nodup_errorsWithin hledger (hreachable.settled hforest).idle hasked
    have hcount := List.nodup_iff_count_le_one.mp hnodup error
    rwa [errorsWithin, List.count_filter (by simpa using hwithin)] at hcount
  · rw [List.count_eq_zero.mpr herror]
    exact Nat.zero_le 1

/-- Whatever is asked, and in whichever order, no problem is reported twice, and questions
add to the log and change nothing that is in it. -/
theorem reported_once {tree : Tree} (hfinished : tree.Finished) (hgrounded : tree.Grounded)
    (htree : program.tree = tree) (hreachable : program.Reachable context) :
    context.diagnostics.reported.Nodup ∧ ∀ request, request.Valid program context →
      ∃ response later, program.respond request context = some (response, later) ∧
        context.diagnostics.reported <+: later.diagnostics.reported := by
  subst htree
  have hforest := hfinished.isForest hgrounded
  refine ⟨List.nodup_iff_count_le_one.mpr fun diagnostic => ?_, fun request hvalid => ?_⟩
  · by_cases herror : diagnostic.isError = true
    · have hcount := List.nodup_iff_count_le_one.mp (hreachable.nodup_errors hfinished hforest)
        diagnostic
      rwa [errors, List.count_filter herror] at hcount
    · have hcount := List.nodup_iff_count_le_one.mp (hreachable.nodup_warnings hfinished
        (Tree.grounded_iff_acyclic.mp hgrounded)) diagnostic
      rwa [warnings, List.count_filter (by simpa using herror)] at hcount
  · obtain ⟨response, later, hrun, hchanges, -⟩ := respond_ends hforest (serves_sound hforest)
      (hreachable.settled hforest).sound hvalid
    exact ⟨response, later, hrun, hchanges.1.diagnostics⟩

/-- A module with an include without body and a `use` of a name that does not exist. -/
def brokenUseTree : Tree :=
  .ofSteps [.includeDecl "Sub", .identifier "Gone", .clause ⟨1⟩ .unlimited [],
    .useStmt .unstated [⟨2⟩], .moduleDecl false "M" [⟨0⟩, ⟨3⟩]]

def brokenUse : Program := (Session.fresh brokenUseTree {}).program

/-- What is known once the scopes of the include and the module and the clauses of the
module were asked for. -/
def brokenUseAsked : Context :=
  (brokenUse.askAll [.scopeOf ⟨0⟩, .scopeOf ⟨4⟩, .visibility ⟨1⟩, .scopeOf ⟨0⟩] .empty).getD .empty

/-- The include is warned about once and the clause is refused once, and the log stays as it
is when the clauses are asked for again. -/
theorem brokenUse_reported_once :
    brokenUse.tree.Finished ∧ brokenUse.tree.Grounded ∧ brokenUse.Reachable brokenUseAsked ∧
      brokenUseAsked.diagnostics.reported.map Diagnostic.node = [⟨0⟩, ⟨1⟩] ∧
      brokenUseAsked.diagnostics.reported.Nodup ∧
      ∃ response later, brokenUse.respond (.visibility ⟨1⟩) brokenUseAsked = some (response, later) ∧
        brokenUseAsked.diagnostics.reported <+: later.diagnostics.reported := by
  have hfinished : brokenUseTree.Finished := Tree.finished_ofSteps (by decide +kernel)
  have hgrounded : brokenUse.tree.Grounded := by decide +kernel
  have hreachable : brokenUse.Reachable brokenUseAsked := Reaches.askAll .refl
    (show brokenUse.askAll [.scopeOf ⟨0⟩, .scopeOf ⟨4⟩, .visibility ⟨1⟩, .scopeOf ⟨0⟩] .empty =
      some brokenUseAsked by decide +kernel)
  obtain ⟨hnodup, happends⟩ := reported_once hfinished hgrounded rfl hreachable
  exact ⟨hfinished, hgrounded, hreachable, by decide +kernel, hnodup,
    happends (.visibility ⟨1⟩) (show brokenUseAsked.Has ⟨1⟩ by decide +kernel)⟩

end Program

end Scoping
