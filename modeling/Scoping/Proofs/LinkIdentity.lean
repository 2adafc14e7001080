import Scoping.Proofs.Candidates
import Scoping.Proofs.WholeScope

/-!
What an instantiation point is. A link is known by its site and the next link, so equal
contents are one handle, and a chain goes down along the handles. The link for a call is
told without its history: its site is the nearest scope around the call that offers
candidates, and the next one is the first of the outer chain that is not wholly visible
from the call, however much was asked before or is asked afterwards.
-/

namespace Scoping

open Context Resolve

namespace Context

variable {keeps : Context → Prop} {context : Context}

/-- Links with the same contents are the same. -/
theorem Linked.eq_of_contents (hlinked : context.Linked keeps) {link other : PoiId}
    (hlink : context.HasLink link) (hother : context.HasLink other)
    (hsite : (context.poi link).site = (context.poi other).site)
    (houter : (context.poi link).outer? = (context.poi other).outer?) : link = other := by
  have hkept := hlinked.consed link hlink
  rw [hsite, houter, hlinked.consed other hother] at hkept
  exact (Option.some.inj hkept).symm

/-- The next link was built earlier. -/
theorem Linked.outer?_lt (hlinked : context.Linked keeps) {link next : PoiId}
    (hlink : context.HasLink link) (hnext : next ∈ (context.poi link).outer?) :
    next.index < link.index :=
  (hlinked.behind link hlink).lt_of_mem_head? hnext

/-- What is behind a link is the chain of the next one. -/
theorem Linked.behind_eq_chainFrom (hlinked : context.Linked keeps) {link : PoiId}
    (hlink : context.HasLink link) :
    (context.poi link).behind = context.chainFrom (context.poi link).outer? :=
  (hlinked.behind link hlink).eq_chainFrom

end Context

namespace Program

variable {program : Program} {context : Context}

/-- Whether a link has a site, and the answer to whether it is wholly visible from a scope
is the given one. -/
def Discloses (program : Program) (context : Context) (scope : ScopeId) (link : PoiId)
    (visible : Bool) : Prop :=
  ∃ site after, (context.poi link).site = some site ∧
    program.seesWhole site scope context = some (visible, after)

/-- A link that was left out of the chain for a call has a site that is wholly visible from
there, and the first that was kept has none or one that is not. -/
theorem discloses_of_poiOf (hserves : program.Serves (Context.Sound program))
    (hsound : context.Sound program) (hlinked : context.Linked (Context.Sound program))
    {scope : ScopeId} {outer : Option PoiId} {link : PoiId}
    (hknown : context.poiOf.get? (scope, outer) = some link) :
    ∃ dropped, context.chainFrom outer = dropped ++ context.chainFrom (context.poi link).outer? ∧
      (∀ other ∈ dropped, program.Discloses context scope other true) ∧
      ∀ next ∈ (context.poi link).outer?,
        (context.poi next).site = none ∨ program.Discloses context scope next false := by
  have hcollapses := hlinked.collapsed scope outer link hknown
  obtain ⟨dropped, hchain, hdropped⟩ := hcollapses.dropped
  refine ⟨dropped, ?_, fun other hother => ?_, fun next hnext => ?_⟩
  · rw [hchain, hlinked.behind_eq_chainFrom hcollapses.hasLink]
  · obtain ⟨site, hsite, hsees⟩ := hdropped other hother
    obtain ⟨after, hrun⟩ := seesWhole_of_sees hserves hsound hcollapses.has hsees
    exact ⟨site, after, hsite, hrun⟩
  · cases hsite : (context.poi next).site with
    | none => exact .inl rfl
    | some site =>
      obtain ⟨after, hrun⟩ := seesWhole_of_bars hserves hsound hcollapses.has
        (hlinked.stopped scope outer link hknown next hnext site hsite)
      exact .inr ⟨site, after, hsite, hrun⟩

/-- In every context between questions, a link is known by its site and the next link; what
is behind it is the chain of the next link, which has a smaller handle, so that every
chain ends. The link for a call is
found, and in every later context its site is the nearest scope at or around the call
that has statements or functions, if there is one, and what comes next is what is left of
the outer chain without the links in front whose sites are wholly visible from the call:
if anything is left, the first has no site or one that is not wholly visible. -/
theorem instantiationPoint_canonical {tree : Tree} (hfinished : tree.Finished)
    (hgrounded : tree.Grounded) (htree : program.tree = tree)
    (hreachable : program.Reachable context) :
    (∀ link other, context.HasLink link → context.HasLink other → (link = other ↔
      (context.poi link).site = (context.poi other).site ∧
        (context.poi link).outer? = (context.poi other).outer?)) ∧
    (∀ link, context.HasLink link →
      (context.poi link).behind = context.chainFrom (context.poi link).outer? ∧
        ∀ next ∈ (context.poi link).outer?, next.index < link.index) ∧
    ∀ scope outer, context.Has scope → (∀ other ∈ outer, context.HasLink other) →
      ∃ link later, program.instantiationPoint scope outer context = some (link, later) ∧
        ∀ final, program.Reaches later final → final.HasLink link ∧
          (final.poi link).site = (final.outward scope).find? (fun id =>
            (final.scope id).hasImports || (final.scope id).hasFunctions) ∧
          ∃ dropped, final.chainFrom outer = dropped ++ final.chainFrom (final.poi link).outer? ∧
            (∀ other ∈ dropped, program.Discloses final scope other true) ∧
            ∀ next ∈ (final.poi link).outer?,
              (final.poi next).site = none ∨ program.Discloses final scope next false := by
  have hforest : program.tree.IsForest := htree ▸ hfinished.isForest hgrounded
  have hserves := serves_sound hforest
  have hlinked := hreachable.linked hforest
  refine ⟨fun link other hlink hother => ⟨?_, fun hsame => ?_⟩,
    fun link hlink => ⟨hlinked.behind_eq_chainFrom hlink, fun next hnext =>
      hlinked.outer?_lt hlink hnext⟩, fun scope outer hscope houter => ?_⟩
  · rintro rfl
    exact ⟨rfl, rfl⟩
  · exact hlinked.eq_of_contents hlink hother hsame.1 hsame.2
  · have hvalid : (Request.instantiation scope outer).Valid program context := ⟨hscope, houter⟩
    obtain ⟨link, later, hrun, -, hknown, -⟩ :=
      instantiationPoint_ends hserves (hreachable.settled hforest).sound hscope houter
    have hlater : program.Reachable later :=
      Reaches.asked hreachable hvalid (map_eq_some_iff.mpr ⟨link, hrun, rfl⟩)
    refine ⟨link, later, hrun, fun final hreaches => ?_⟩
    obtain ⟨hgrows, hsound⟩ :=
      hreaches.answering hforest hserves (hlater.settled hforest).sound
    have hkept := hgrows.poiOf (scope, outer) link hknown
    have hreachable' : program.Reachable final := hlater.trans hreaches
    have hfinal := hreachable'.linked hforest
    have hcollapses := hfinal.collapsed scope outer link hkept
    exact ⟨hcollapses.hasLink, hcollapses.site, discloses_of_poiOf hserves hsound hfinal hkept⟩

/-- Code of the library called from the user: its link goes before that of the user, whose
module the library does not see. -/
theorem libraryUse_instantiationPoint_canonical :
    ∃ link later, libraryUse.instantiationPoint ⟨1⟩ (some ⟨1⟩) libraryUsePointed =
        some (link, later) ∧
      (later.poi link).site = some ⟨1⟩ ∧ (later.poi link).outer? = some ⟨1⟩ ∧
      libraryUse.Discloses later ⟨1⟩ ⟨1⟩ false := by
  have hasked : libraryUse.askAll [.scopeOf ⟨1⟩, .scopeOf ⟨6⟩, .instantiation ⟨1⟩ none,
      .instantiation ⟨2⟩ (some ⟨0⟩)] .empty = some libraryUsePointed := by decide +kernel
  have hlink : ∀ other ∈ some (⟨1⟩ : PoiId), libraryUsePointed.HasLink other := fun other hother =>
    Option.some.inj hother ▸ (show 1 < libraryUsePointed.pois.size by decide +kernel)
  obtain ⟨-, -, hpoint⟩ := instantiationPoint_canonical libraryUse_finished libraryUse_grounded rfl
    (.askAll .refl hasked)
  obtain ⟨link, later, hrun, hall⟩ :=
    hpoint ⟨1⟩ (some ⟨1⟩) (show libraryUsePointed.Has ⟨1⟩ by decide +kernel) hlink
  have hcontents : (libraryUse.instantiationPoint ⟨1⟩ (some ⟨1⟩) libraryUsePointed).map
      (fun point => ((point.2.poi point.1).site, (point.2.poi point.1).outer?,
        (point.2.poi ⟨1⟩).site)) = some (some ⟨1⟩, some ⟨1⟩, some ⟨2⟩) := by decide +kernel
  rw [hrun] at hcontents
  obtain ⟨hsite, hrest⟩ := Prod.mk.inj (Option.some.inj hcontents)
  obtain ⟨houter, hnext⟩ := Prod.mk.inj hrest
  obtain ⟨-, -, -, -, -, hstops⟩ := hall later .refl
  refine ⟨link, later, hrun, hsite, houter, (hstops ⟨1⟩ houter).resolve_left fun hnone => ?_⟩
  cases hnone.symm.trans hnext

end Program

end Scoping
