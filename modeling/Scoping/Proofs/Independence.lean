import Scoping.Proofs.Visibility.Afresh

/-!
Answers do not depend on what was asked before. Where the clauses of a scope, or
those that a lookup comes through, can be worked out afresh, every context gives the
same ones, whatever led to it; only the handles may differ. Where they cannot, the
resolution of a scope comes back to one that waits for it, and which of them was
asked for first may be told from what is recorded.
-/

namespace Scoping

open Context Resolve

namespace Program

variable {program : Program} {left right : Context}

/-- What is true between questions: nothing is being resolved, and what is recorded
is what is worked out afresh. -/
structure Trusts (program : Program) (context : Context) : Prop where
  faithful : context.Faithful program
  idle : ∀ id, ¬ context.Running id

theorem serves_trusts (hforest : program.tree.IsForest) : program.Serves program.Trusts where
  sound _ htrusts := htrusts.faithful.sound
  growing context later htrusts hgrows hlater hsame :=
    ⟨program.upholds_faithful.growing context later htrusts.faithful hgrows hlater hsame,
      fun id hrunning => htrusts.idle id (hgrows.running id hrunning)⟩
  visibility {context id} htrusts hid := by
    refine (recordsAfresh hforest program.depth context id htrusts.faithful hid
      (context.idle_lt program) fun other hrunning => absurd hrunning (htrusts.idle other)).widen
      fun later hchanges => ?_
    exact ⟨hchanges.1, hchanges.2, fun other hrunning =>
      htrusts.idle other (hchanges.1.running other hrunning)⟩

theorem Reachable.trusts {context : Context} (hforest : program.tree.IsForest)
    (hreachable : program.Reachable context) : program.Trusts context :=
  (Reaches.answering hforest (serves_trusts hforest)
    ⟨⟨sound_empty program, nofun⟩, nofun⟩ hreachable).2

/-- What a name means in a scope, with clauses worked out afresh. -/
def lookupAfresh (program : Program) (fuel : Nat) (config : LookupConfig) (id : ScopeId)
    (name : Name) : Resolve (List Overloads) :=
  (program.search (program.clausesAfresh fuel) config id name).run' []

/-- Whether the clauses of the scope of a node can be worked out afresh. -/
def ClausesEndAfresh (program : Program) (node : NodeId) : Prop :=
  ∃ fuel, ((program.scopeOf node >>= program.clausesAfresh fuel) .empty).isSome = true

/-- Whether a name can be looked up from the scope of a node with clauses that are
worked out afresh. -/
def LookupEndsAfresh (program : Program) (config : LookupConfig) (node : NodeId) (name : Name) :
    Prop :=
  ∃ fuel, ((program.scopeOf node >>= fun id => program.lookupAfresh fuel config id name)
    .empty).isSome = true

section

variable (hforest : program.tree.IsForest)
include hforest

theorem visibility_mirrors (fuel : Nat) {id id' : ScopeId} (hsame : left.SameScope right id id') :
    program.Mirrors (fun _ => program.Trusts) left right (program.clausesAfresh fuel id)
      (program.visibility id')
      fun clauses last found last' => last.SameClauses last' clauses (found.getD []) := by
  apply request_mirrors hforest hsame
  rintro right' _ hgrows htrusts ⟨hid, rfl⟩ -
  apply ((serves_trusts hforest).visibility htrusts hid).mono
  intro found later hchanges hanswers
  have hlater := hchanges.1.toGrows
  have hagrees := hanswers.agreesAfresh hchanges.2.faithful (hlater.has hid)
    fun other hrunning => absurd hrunning (hchanges.2.idle other)
  rwa [hlater.scope hid] at hagrees

theorem lookup_mirrors (fuel : Nat) (config : LookupConfig) {id id' : ScopeId}
    (hsame : left.SameScope right id id') (name : Name) :
    program.Mirrors (fun _ => program.Trusts) left right (program.lookupAfresh fuel config id name)
      (program.lookup config none id' name) fun found _ found' _ => found = found' := by
  have hcouples := (serves_trusts hforest).toUpholds.couples
  have hview : program.MirrorsView program.sharesEmpty (fun _ => program.Trusts) left right
      (program.clausesAfresh fuel) program.clausesOf := by
    refine ⟨fun left' right' other other' _ _ hother => ?_,
      fun _ _ _ hsound hspare => absurd hspare hsound.not_spare⟩
    rw [← bind_pure (program.clausesAfresh fuel other)]
    refine (visibility_mirrors hforest fuel hother).bind fun clauses _ found _ _ _ hfound => ?_
    exact .pure fun _ _ hlast hlast' => hfound.mono hlast hlast'
  refine .map (((search_mirrors hforest hcouples hview config hsame name)
    left right [] [] (.refl _) (.refl _) .nil).imp ?_)
  exact fun _ _ _ _ _ _ hresult => hresult.1.1

/-- A scope has a list of clauses, be it empty, exactly when it has statements. -/
theorem isSome_of_visibility {context later : Context} {id : ScopeId}
    {found : Option (List Clause)} (htrusts : program.Trusts context) (hid : context.Has id)
    (hrun : program.visibility id context = some (found, later)) :
    found.isSome = (context.scope id).hasImports := by
  obtain ⟨hchanges, hanswers⟩ := ((serves_trusts hforest).visibility htrusts hid).of_run hrun
  rw [← hchanges.1.toGrows.scope hid]
  exact hanswers.isSome_eq hchanges.2.faithful.sound (hchanges.2.idle id)

/-- Every context between questions gives the clauses that are worked out afresh. -/
theorem visibility_of_afresh {fuel : Nat} {node : NodeId} {id : ScopeId} {clauses : List Clause}
    {start middle last : Context} (hstart : start.Sound program)
    (hscope : program.scopeOf node start = some (id, middle))
    (hafresh : program.clausesAfresh fuel id middle = some (clauses, last)) {context : Context}
    (htrusts : program.Trusts context) :
    ∃ found later, (program.scopeOf node >>= program.visibility) context = some (found, later) ∧
      last.SameClauses later clauses (found.getD []) ∧
      found.isSome = (middle.scope id).hasImports := by
  obtain ⟨hbuilding, id', middle', hscope', hchanges, hsame⟩ :=
    scopeOf_mirrors (serves_trusts hforest).toUpholds hforest node start context (.refl _) hstart
      (.refl _) htrusts id middle hscope
  obtain ⟨-, found, later, hrun, -, hclauses⟩ :=
    visibility_mirrors hforest fuel hsame middle middle' (.refl _) hbuilding.2 (.refl _) hchanges.2
      clauses last hafresh
  refine ⟨found, later, bind_eq_some_iff.mpr ⟨id', middle', hscope', hrun⟩, hclauses, ?_⟩
  rw [isSome_of_visibility hforest hchanges.2 hsame.has.2 hrun,
    hsame.hasImports_eq hbuilding.2 hchanges.2.faithful.sound]

end

/-- What was asked before matters neither to the clauses of the scope of a node nor
to what a name means there, wherever these can be worked out afresh. -/
theorem answers_independent {tree : Tree} (hfinished : tree.Finished) (hgrounded : tree.Grounded)
    (htree : program.tree = tree) {first second : Context} (hfirst : program.Reachable first)
    (hsecond : program.Reachable second) (node : NodeId) :
    (program.ClausesEndAfresh node →
      ∃ clauses last clauses' last',
        (program.scopeOf node >>= program.visibility) first = some (clauses, last) ∧
        (program.scopeOf node >>= program.visibility) second = some (clauses', last') ∧
        Option.Rel (last.SameClauses last') clauses clauses') ∧
    ∀ config name, program.LookupEndsAfresh config node name →
      ∃ found last last',
        (program.scopeOf node >>= fun id => program.lookup config none id name) first =
          some (found, last) ∧
        (program.scopeOf node >>= fun id => program.lookup config none id name) second =
          some (found, last') := by
  have hforest : program.tree.IsForest := htree ▸ hfinished.isForest hgrounded
  have hupholds := (serves_trusts hforest).toUpholds
  have hempty := sound_empty program
  constructor
  · rintro ⟨fuel, hends⟩
    obtain ⟨⟨clauses, last⟩, hrun⟩ := Option.isSome_iff_exists.mp hends
    obtain ⟨id, middle, hscope, hafresh⟩ := bind_eq_some_iff.mp hrun
    obtain ⟨found, later, hfound, hsame, hsome⟩ :=
      visibility_of_afresh hforest hempty hscope hafresh (hfirst.trusts hforest)
    obtain ⟨found', later', hfound', hsame', hsome'⟩ :=
      visibility_of_afresh hforest hempty hscope hafresh (hsecond.trusts hforest)
    refine ⟨found, later, found', later', hfound, hfound', ?_⟩
    have hsays := hsame.symm.trans hsame'
    rw [← hsome'] at hsome
    cases found with
    | none =>
      cases found' with
      | none => exact .none
      | some => cases hsome
    | some =>
      cases found' with
      | none => cases hsome
      | some => exact .some hsays
  · rintro config name ⟨fuel, hends⟩
    obtain ⟨⟨found, last⟩, hrun⟩ := Option.isSome_iff_exists.mp hends
    have hmirrors : ∀ context, program.Trusts context →
        ∃ later, (program.scopeOf node >>= fun id => program.lookup config none id name) context =
          some (found, later) := by
      intro context htrusts
      obtain ⟨-, _, later, hlater, -, rfl⟩ := ((scopeOf_mirrors hupholds hforest node).bind
        fun _ _ _ _ _ _ hsame => lookup_mirrors hforest fuel config hsame name)
        .empty context (.refl _) hempty (.refl _) htrusts found last hrun
      exact ⟨later, hlater⟩
    obtain ⟨last, hlast⟩ := hmirrors first (hfirst.trusts hforest)
    obtain ⟨last', hlast'⟩ := hmirrors second (hsecond.trusts hforest)
    exact ⟨found, last, last', hlast, hlast'⟩

/-- What is known of the two modules once the clauses of the second are asked for. -/
def mutualUseReversed : Context :=
  (mutualUse.askAll [.scopeOf ⟨9⟩, .visibility ⟨1⟩] .empty).getD .empty

/-- Two modules that use each other may be asked about in either order. -/
theorem mutualUse_answers_independent :
    (∃ clauses last clauses' last',
      (mutualUse.scopeOf ⟨4⟩ >>= mutualUse.visibility) mutualUseAsked = some (clauses, last) ∧
      (mutualUse.scopeOf ⟨4⟩ >>= mutualUse.visibility) mutualUseReversed = some (clauses', last') ∧
      Option.Rel (last.SameClauses last') clauses clauses') ∧
    ∃ found last last',
      (mutualUse.scopeOf ⟨4⟩ >>= fun id => mutualUse.lookup .allVisible none id mutualUseName)
        mutualUseAsked = some (found, last) ∧
      (mutualUse.scopeOf ⟨4⟩ >>= fun id => mutualUse.lookup .allVisible none id mutualUseName)
        mutualUseReversed = some (found, last') := by
  have hreversed : mutualUse.askAll [.scopeOf ⟨9⟩, .visibility ⟨1⟩] .empty =
      some mutualUseReversed := by decide +kernel
  have hboth := answers_independent mutualUse_finished mutualUse_grounded rfl mutualUse_reachable
    (Reaches.askAll .refl hreversed) ⟨4⟩
  have hclauses : mutualUse.ClausesEndAfresh ⟨4⟩ := ⟨2, by decide +kernel⟩
  have hlookup : mutualUse.LookupEndsAfresh .allVisible ⟨4⟩ mutualUseName := ⟨2, by decide +kernel⟩
  exact ⟨hboth.1 hclauses, hboth.2 .allVisible mutualUseName hlookup⟩

/-- Two modules `A` and `B` that use each other, and each another module: `A` uses `C`,
and `B` uses the module `Y` that `C` declares, which it only finds through `A`. -/
def waitingUse : Program :=
  (Session.fresh (.ofSteps
    [.variableDecl "z" none, .moduleDecl false "Y" [⟨0⟩], .moduleDecl false "C" [⟨1⟩],
      .identifier "B", .clause ⟨3⟩ .unlimited [], .identifier "C", .clause ⟨5⟩ .unlimited [],
      .useStmt .unstated [⟨4⟩, ⟨6⟩], .moduleDecl false "A" [⟨7⟩],
      .identifier "A", .clause ⟨9⟩ .unlimited [], .identifier "Y", .clause ⟨11⟩ .unlimited [],
      .useStmt .unstated [⟨10⟩, ⟨12⟩], .moduleDecl false "B" [⟨13⟩]]) {}).program

/-- What is known once the clauses of one of the modules are asked for. -/
def waitingUseAsked (node : NodeId) : Context :=
  (waitingUse.askAll [.scopeOf node, .visibility ⟨1⟩] .empty).getD .empty

/-- Asked for `A` first, `B` is resolved while `A` waits, and never finds `Y`. -/
theorem waitingUse_answers_differ :
    waitingUse.tree.Finished ∧ waitingUse.tree.Grounded ∧
    waitingUse.Reachable (waitingUseAsked ⟨8⟩) ∧ waitingUse.Reachable (waitingUseAsked ⟨14⟩) ∧
    ((waitingUse.scopeOf ⟨14⟩ >>= waitingUse.visibility) (waitingUseAsked ⟨8⟩)).map
      (fun result => (result.1.getD []).length) = some 2 ∧
    ((waitingUse.scopeOf ⟨14⟩ >>= waitingUse.visibility) (waitingUseAsked ⟨14⟩)).map
      (fun result => (result.1.getD []).length) = some 4 ∧
    ((waitingUse.scopeOf ⟨14⟩ >>= fun id => waitingUse.lookup .allVisible none id
      ((waitingUse.tree.declName? ⟨0⟩).getD .this)) (waitingUseAsked ⟨8⟩)).map Prod.fst =
        some [] ∧
    ((waitingUse.scopeOf ⟨14⟩ >>= fun id => waitingUse.lookup .allVisible none id
      ((waitingUse.tree.declName? ⟨0⟩).getD .this)) (waitingUseAsked ⟨14⟩)).map Prod.fst =
        some [.single (.node ⟨0⟩)] := by
  have hasked : ∀ node ∈ [⟨8⟩, ⟨14⟩],
      waitingUse.askAll [.scopeOf node, .visibility ⟨1⟩] .empty = some (waitingUseAsked node) := by
    decide +kernel
  refine ⟨Tree.finished_ofSteps (by decide +kernel), by decide +kernel,
    .askAll .refl (hasked ⟨8⟩ (by decide)), .askAll .refl (hasked ⟨14⟩ (by decide)),
    by decide +kernel, by decide +kernel, by decide +kernel, by decide +kernel⟩

end Program

end Scoping
