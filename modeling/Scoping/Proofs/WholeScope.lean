import Scoping.Proofs.Lookup.Whole

/-!
Whole visibility is reachability. One scope is wholly visible from another exactly when
one gets there by going to parents and into the targets of unrestricted clauses. No
climb starts twice from one scope, and still none is missed: where the answer is no,
the scopes that were climbed through are a region that no step leaves.
-/

namespace Scoping

open Context Resolve

namespace Context

/-- One step to what is wholly visible: to the parent of a scope, or to the target of
one of its unrestricted clauses, as these are given when they are asked for. -/
inductive Reveals (program : Program) (context : Context) : ScopeId → ScopeId → Prop
  | parent {id outer : ScopeId} (hparent : (context.scope id).parent? = some outer) :
    Reveals program context id outer
  | used {id : ScopeId} {clauses : List Clause} {later : Context} {clause : Clause}
    (hclauses : program.visibility id context = some (some clauses, later))
    (hclause : clause ∈ clauses) (hkind : clause.kind = .allContents) :
    Reveals program context id clause.target

variable {program : Program} {context : Context} {id outer target start goal : ScopeId}

namespace Sound

variable (hsound : context.Sound program)
include hsound

/-- One gets from a scope to any scope around it, parent by parent. -/
theorem reveals_of_enclosing (hid : context.Has id) (houter : outer ∈ (context.scope id).enclosing) :
    Relation.ReflTransGen (context.Reveals program) id outer := by
  obtain ⟨before, after, henclosing⟩ := List.append_of_mem houter
  clear houter
  induction before generalizing id with
  | nil => exact .single (.parent (by rw [Scope.parent?, henclosing]; rfl))
  | cons inner before ih =>
    have hinner : context.Has inner :=
      hsound.has_of_enclosing hid (by rw [henclosing]; exact List.mem_cons_self)
    have houtward : context.outward id = [id] ++ inner :: (before ++ outer :: after) := by
      rw [outward, henclosing]
      rfl
    have hrest := hsound.outward_of_append hid houtward
    refine .head (.parent (by rw [Scope.parent?, henclosing]; rfl)) (ih hinner ?_)
    exact (List.cons.inj hrest).2

theorem has_of_sees (hstart : context.Has start) (hsees : context.Sees start goal) :
    context.Has goal := by
  induction hsees with
  | refl => exact hstart
  | tail _ hclimbs ih =>
    cases hclimbs with
    | around houter => exact hsound.has_of_enclosing ih houter
    | uses huses =>
      obtain ⟨hclause, -⟩ := huses
      exact (hsound.fits_of_mem_clausesAt hclause).target

/-- A climb goes where these steps lead. -/
theorem reveals_of_sees (hstart : context.Has start) (hsees : context.Sees start goal) :
    Relation.ReflTransGen (context.Reveals program) start goal := by
  induction hsees with
  | refl => exact .refl
  | tail hpath hclimbs ih =>
    cases hclimbs with
    | around houter =>
      exact ih.trans (hsound.reveals_of_enclosing (hsound.has_of_sees hstart hpath) houter)
    | uses huses =>
      obtain ⟨hclause, hkind⟩ := huses
      exact ih.tail (.used (program.visibility_of_mem_clausesAt hsound hclause) hclause hkind)

/-- A step that can be made is one of a climb, at the latest when the clauses of the scope
have been worked out. -/
theorem climbs_of_reveals (hforest : program.tree.IsForest)
    (hreveals : context.Reveals program id target) :
    ∃ later, context.Grows later ∧ later.Sound program ∧ later.Climbs id target := by
  cases hreveals with
  | parent hparent =>
    exact ⟨context, .refl context, hsound, .around (List.mem_of_mem_head? hparent)⟩
  | @used clauses later clause hclauses hclause hkind =>
    have hid : context.Has id := by
      by_contra hnot
      have himports : (context.scope id).hasImports = false := by
        rw [Context.scope, scope?, Array.getElem?_eq_none (Nat.le_of_not_lt hnot)]
        rfl
      rw [Program.visibility_of_hasImports_eq_false himports] at hclauses
      cases hclauses
    obtain ⟨hchanges, hanswers⟩ :=
      (Program.visibility_ends hforest hsound hid).of_run hclauses
    have hsame : later.clausesAt id = clauses := by
      rw [clausesAt, ← hanswers.1, Option.getD_some]
    exact ⟨later, hchanges.1.toGrows, hchanges.2, .uses (.whole (hsame ▸ hclause) hkind)⟩

end Sound

end Context

namespace Program

variable {program : Program} {context : Context} {start goal : ScopeId}

/-- What climbs lead to is found to be visible. -/
theorem seesWhole_of_sees (hserves : program.Serves (Context.Sound program))
    (hsound : context.Sound program) (hstart : context.Has start) (hsees : context.Sees start goal) :
    ∃ after, program.seesWhole goal start context = some (true, after) := by
  obtain ⟨visible, after, hrun, hchanges, -, hmissed⟩ :=
    seesWhole_decides hserves hsound hstart goal
  cases visible with
  | true => exact ⟨after, hrun⟩
  | false =>
    exact absurd (hchanges.1.toGrows.sees hsees) ((hmissed rfl).not_sees hchanges.2)

/-- What no climb can come to is not found to be visible. -/
theorem seesWhole_of_bars (hserves : program.Serves (Context.Sound program))
    (hsound : context.Sound program) (hstart : context.Has start)
    (hbars : context.Bars (Context.Sound program) start goal) :
    ∃ after, program.seesWhole goal start context = some (false, after) := by
  obtain ⟨visible, after, hrun, hchanges, hmet⟩ := seesWhole_ends hserves hsound hstart
  cases visible with
  | true => exact absurd (hmet rfl) ((hbars.of_grows hchanges.1.toGrows).not_sees hchanges.2)
  | false => exact ⟨after, hrun⟩

/-- A scope is wholly visible from another exactly when one gets there by parents and
unrestricted clauses, whenever these are asked for afterwards. So every scope is wholly
visible from itself, and what is found to be visible from a scope that was found to be
visible is visible. -/
theorem seesWhole_iff_reveals {tree : Tree} (hfinished : tree.Finished) (hgrounded : tree.Grounded)
    (htree : program.tree = tree) (hreachable : program.Reachable context)
    (hstart : context.Has start) :
    (∀ goal, ∃ visible after, program.seesWhole goal start context = some (visible, after) ∧
      ∀ final, program.Reaches after final →
        (visible = true ↔ Relation.ReflTransGen (final.Reveals program) start goal)) ∧
    (∃ after, program.seesWhole start start context = some (true, after)) ∧
    ∀ middle first next, program.seesWhole middle start context = some (true, first) →
      program.Reaches first next → ∀ goal second last,
        program.seesWhole goal middle next = some (true, second) → program.Reaches second last →
          ∃ after, program.seesWhole goal start last = some (true, after) := by
  have hforest : program.tree.IsForest := htree ▸ hfinished.isForest hgrounded
  have hserves := serves_sound hforest
  have hsound := (hreachable.settled hforest).sound
  refine ⟨fun goal => ?_, seesWhole_of_sees hserves hsound hstart .refl, ?_⟩
  · obtain ⟨visible, after, hrun, hchanges, hmet, hmissed⟩ :=
      seesWhole_decides hserves hsound hstart goal
    refine ⟨visible, after, hrun, fun final hreaches => ?_⟩
    obtain ⟨hgrows, hfinal⟩ := hreaches.answering hforest hserves hchanges.2
    constructor
    · intro hvisible
      have hhas := (hchanges.1.toGrows.trans hgrows).has hstart
      exact hfinal.reveals_of_sees hhas (hgrows.sees (hmet hvisible))
    · intro hpath
      cases visible with
      | true => rfl
      | false =>
        obtain ⟨region, hfirst, hgoal, hclosed⟩ := hmissed rfl
        have hstays : ∀ {target}, Relation.ReflTransGen (final.Reveals program) start target →
            region target := by
          intro target hpath
          induction hpath with
          | refl => exact hfirst
          | tail _ hreveals ih =>
            -- the clauses the step takes may only be worked out after `final`
            obtain ⟨last, hmore, hlast, hclimbs⟩ := hfinal.climbs_of_reveals hforest hreveals
            exact hclosed last (hgrows.trans hmore) hlast _ _ ih hclimbs
        exact absurd (hstays hpath) hgoal
  · intro middle first next hmiddle hnext goal second last hgoal hlast
    obtain ⟨hchanges, hsees⟩ := (seesWhole_ends hserves hsound hstart).of_run hmiddle
    obtain ⟨hgrows, hsettled⟩ := hnext.answering hforest hserves hchanges.2
    have hthere := hgrows.sees (hsees rfl)
    have hhas := (hchanges.1.toGrows.trans hgrows).has hstart
    obtain ⟨hchanges', hsees'⟩ :=
      (seesWhole_ends hserves hsettled (hsettled.has_of_sees hhas hthere)).of_run hgoal
    obtain ⟨hgrows', hfinal⟩ := hlast.answering hforest hserves hchanges'.2
    have hmore := hchanges'.1.toGrows.trans hgrows'
    exact seesWhole_of_sees hserves hfinal (hmore.has hhas)
      ((hmore.sees hthere).trans (hgrows'.sees (hsees' rfl)))

/-- Two modules that use one another are visible from one another, and one gets there. -/
theorem mutualUse_reveals : ∃ after, mutualUse.seesWhole ⟨2⟩ ⟨1⟩ mutualUseBoth = some (true, after) ∧
    Relation.ReflTransGen (after.Reveals mutualUse) ⟨1⟩ ⟨2⟩ := by
  have hasked : mutualUse.askAll [.scopeOf ⟨4⟩, .scopeOf ⟨9⟩] .empty = some mutualUseBoth := by
    decide +kernel
  obtain ⟨hanswers, -, -⟩ := seesWhole_iff_reveals mutualUse_finished mutualUse_grounded rfl
    (.askAll .refl hasked) (show mutualUseBoth.Has ⟨1⟩ by decide +kernel)
  obtain ⟨visible, after, hrun, hiff⟩ := hanswers ⟨2⟩
  have htrue : (mutualUse.seesWhole ⟨2⟩ ⟨1⟩ mutualUseBoth).map Prod.fst = some true := by
    decide +kernel
  rw [hrun] at htrue
  obtain rfl := Option.some.inj htrue
  exact ⟨after, hrun, (hiff after .refl).mp rfl⟩

end Program

end Scoping
