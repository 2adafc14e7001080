import Scoping.Proofs.Lookup.Repeating
import Scoping.Proofs.Request

/-!
Asking again. Whatever is asked in between, a question that was answered once has the
same answer ever after, and then adds nothing to what is known: no scope, no link, no
table entry and no problem. Between questions nothing is being resolved, so what an
answer was read from is in the tables for good.
-/

namespace Scoping

open Context Resolve

namespace Program

variable {program : Program} {context : Context}

/-- Clauses may be asked for while nothing is being resolved, and afterwards nothing
is. -/
theorem serves_settled (hforest : program.tree.IsForest) : program.Serves program.Settled where
  sound _ hsettled := hsettled.sound
  growing _ _ hsettled hgrows hlater _ :=
    ⟨hlater, fun id hrunning => hsettled.idle id (hgrows.running id hrunning)⟩
  visibility {_ _} hsettled hid :=
    (visibility_ends hforest hsettled.sound hid).widen fun _ hchanges =>
      ⟨hchanges.1, hchanges.2, fun other hrunning =>
        hsettled.idle other (hchanges.1.running other hrunning)⟩

/-- A node keeps the scope that it was found to have. -/
theorem get?_of_scopeOf {node : NodeId} {id : ScopeId} {later : Context}
    (hrun : program.scopeOf node context = some (id, later)) :
    later.scopeOf.get? node = some id := by
  rw [scopeOf, depth, climbScopeOf] at hrun
  obtain ⟨_, _, hget, hrest⟩ := bind_eq_some_iff.mp hrun
  cases hget
  cases hknown : context.scopeOf.get? node with
  | some known =>
    rw [hknown] at hrest
    cases hrest
    exact hknown
  | none =>
    rw [hknown] at hrest
    obtain ⟨_, _, -, hrest⟩ := bind_eq_some_iff.mp hrest
    split at hrest
    all_goals
      obtain ⟨found, middle, -, hfinish⟩ := bind_eq_some_iff.mp hrest
      cases hfinish
      exact Memo.get?_finish_self _ _ _

section

variable (hforest : program.tree.IsForest) (hsettled : program.Settled context)
include hsettled

theorem rootScope_repeats :
    Repeats program.Settled program.rootScope context fun _ _ => True := by
  refine (rootScope_ends hsettled.sound).repeats (fun later hchanges => ⟨hchanges.1.toGrows,
    hchanges.2, fun id hrunning => hsettled.idle id (hchanges.1.running id hrunning)⟩)
    (fun _ _ _ _ => trivial) ?_
  intro id later hchanges howned final hfinal _
  have hknown := hfinal.built _ _ ((hchanges.2.built none id).mpr howned)
  refine bind_eq_some_iff.mpr ⟨_, _, rfl, ?_⟩
  rw [hknown]
  rfl

include hforest

theorem scopeOf_repeats (node : NodeId) :
    Repeats program.Settled (program.scopeOf node) context fun _ _ => True := by
  intro id later hrun
  obtain ⟨hchanges, -⟩ := (scopeOf_ends hforest hsettled.sound node).of_run hrun
  refine ⟨⟨hchanges.1.toGrows, hchanges.2, fun other hrunning =>
    hsettled.idle other (hchanges.1.running other hrunning)⟩, trivial, fun final hfinal _ => ?_⟩
  rw [scopeOf, depth, climbScopeOf]
  refine bind_eq_some_iff.mpr ⟨_, _, rfl, ?_⟩
  rw [hfinal.scopeOf _ _ (get?_of_scopeOf hrun)]
  rfl

theorem visibility_repeats {id : ScopeId} (hid : context.Has id) :
    Repeats program.Settled (program.visibility id) context fun found later =>
      later.AllFit (found.getD []) := by
  refine ((serves_settled hforest).visibility hsettled hid).repeats (fun _ => .of_resolving)
    (fun found later hchanges hanswers => hanswers.allFit hchanges.2.sound) ?_
  intro found later hchanges hanswers final hfinal hkept
  cases hfound : found with
  | some clauses =>
    have hknown := Memo.get?_eq_some_iff.mp (hanswers.1.symm.trans hfound)
    exact visibility_of_get? hkept.sound
      (Memo.get?_eq_some_iff.mpr (hfinal.visibility id _ hknown))
  | none =>
    have himports := hanswers.isSome_eq hchanges.2.sound (hchanges.2.idle id)
    rw [hfound, ← hfinal.scope (hchanges.1.toGrows.has hid)] at himports
    exact visibility_of_hasImports_eq_false himports.symm

omit hsettled in
theorem clausesOf_repeats : ClauseView.Repeats program.Settled context program.clausesOf := by
  intro later id _ hlater hid
  refine (visibility_repeats hforest hlater hid).bind fun found last hchanges hfits => ?_
  exact .pure hchanges.2 fun clause hclause => (hfits clause hclause).target

theorem lookupSharing_repeats {receiver : Option ScopeId} {id : ScopeId}
    (hreceiver : ∀ other ∈ receiver, context.Has other) (hid : context.Has id)
    (config : LookupConfig) (name : Name) (entered : List ScopeId) :
    Repeats program.Settled (program.lookupSharing config receiver id name entered) context
      fun _ _ => True := by
  have hsearch : ∀ start, context.Has start →
      (program.search program.clausesOf config start name).Repeats program.Settled context :=
    fun start hstart => search_repeats hforest (serves_settled hforest).toUpholds hstart
      (clausesOf_repeats hforest) config name
  have hlookup : (program.lookupSharing config receiver id name).Repeats program.Settled context := by
    unfold lookupSharing
    cases receiver with
    | none => exact hsearch id hid
    | some receiver =>
      refine (hsearch receiver (hreceiver receiver rfl)).bind fun found => ?_
      exact (hsearch id hid).bind fun more => Search.repeats_pure (found ++ more)
  exact hlookup context entered (.refl context) hsettled

theorem innermost_repeats {id : ScopeId} (hid : context.Has id) (name : Name) :
    Repeats program.Settled (program.innermost id name) context fun _ _ => True := by
  refine (innermost_ends hforest (serves_settled hforest) hsettled hid name).repeats
    (fun _ hchanges => hchanges) (fun _ _ _ _ => trivial) ?_
  rintro result later _ ⟨hknown, -⟩ final hfinal _
  refine bind_eq_some_iff.mpr ⟨_, _, rfl, ?_⟩
  rw [hfinal.innermost _ _ hknown]
  rfl

theorem instantiationPoint_repeats {id : ScopeId} (hid : context.Has id) {outer : Option PoiId}
    (houter : ∀ link ∈ outer, context.HasLink link) :
    Repeats program.Settled (program.instantiationPoint id outer) context fun _ _ => True := by
  refine (instantiationPoint_ends (serves_settled hforest) hsettled hid houter).repeats
    (fun _ hchanges => hchanges) (fun _ _ _ _ => trivial) ?_
  rintro link later _ ⟨hknown, -⟩ final hfinal _
  refine bind_eq_some_iff.mpr ⟨_, _, rfl, ?_⟩
  rw [hfinal.poiOf _ _ hknown]
  rfl

omit hsettled in
/-- A climb may be made again: what it tries are scopes and clauses that stay. -/
theorem climbTo_repeats {base : Context} {start : ScopeId} (hstart : base.Has start) (goal : ScopeId)
    (fuel : Nat) : (program.climbTo goal fuel start).Repeats program.Settled base := by
  induction fuel generalizing base start with
  | zero =>
    intro context entered _ _ value later hrun
    cases hrun
  | succ fuel ih =>
    have htry : ∀ later id, base.Grows later → later.Has id →
        (program.tryScope goal fuel id).Repeats program.Settled later := by
      intro later id _ hid
      unfold tryScope
      split
      · exact Search.repeats_pure true
      · refine Search.repeats_lift_bind (fun context hgrows hkeeps =>
          clausesOf_repeats hforest context id (.refl context) hkeeps (hgrows.has hid))
          fun clauses last _ htargets => ?_
        exact Search.anyM_repeats fun clause hclause =>
          ih (htargets clause (List.mem_of_mem_filter hclause))
    intro context entered hgrows hsettled
    rw [climbTo_run]
    split
    · exact .pure hsettled trivial
    have hfound := hgrows.has hstart
    refine .get_bind (fun final hfinal => by rw [hfinal.outward hfound]) ?_
    exact Search.anyM_repeats (fun id hid => htry context id hgrows
      (hsettled.sound.has_of_outward hfound hid)) context _ (.refl context) hsettled

/-- An answer, once given, is given again in every later context, and changes nothing. -/
theorem respond_repeats {request : Request} (hvalid : request.Valid program context) :
    Repeats program.Settled (program.respond request) context fun _ _ => True := by
  cases request with
  | rootScope => exact .map (rootScope_repeats hsettled)
  | scopeOf node => exact .map (scopeOf_repeats hforest hsettled node)
  | moduleOf id =>
    refine .get_bind (fun final hfinal => ?_) (.pure hsettled trivial)
    have hid : context.Has id := hvalid
    have hmodule : final.moduleOf? id = context.moduleOf? id := by
      rw [moduleOf?, moduleOf?, hfinal.outward hid, firstModule?, firstModule?]
      refine List.find?_congr fun outer houter => ?_
      rw [hfinal.scope (hsettled.sound.has_of_outward hid houter)]
    rw [hmodule]
  | visibility id =>
    exact .map ((visibility_repeats hforest hsettled hvalid).mono fun _ _ _ _ => trivial)
  | lookup config receiver id name entered =>
    refine (lookupSharing_repeats hforest hsettled hvalid.1 hvalid.2 config name entered).bind
      fun result later hchanges _ => .pure hchanges.2 trivial
  | innermost id name => exact .map (innermost_repeats hforest hsettled hvalid name)
  | seesWhole goal start =>
    exact .map (.map (climbTo_repeats hforest hvalid.2 goal program.depth context []
      (.refl context) hsettled))
  | instantiation id outer =>
    exact .map (instantiationPoint_repeats hforest hsettled hvalid.1 hvalid.2)

end

/-- A valid question has an answer, and questions take nothing back. Asked again after
whatever other questions, it has the same answer and leaves the context as it is. -/
theorem respond_stable {tree : Tree} (hfinished : tree.Finished) (hgrounded : tree.Grounded)
    (htree : program.tree = tree) (hreachable : program.Reachable context) {request : Request}
    (hvalid : request.Valid program context) :
    ∃ response later, program.respond request context = some (response, later) ∧
      context.Grows later ∧ ∀ final, program.Reaches later final →
        later.Grows final ∧ program.respond request final = some (response, final) := by
  have hforest : program.tree.IsForest := htree ▸ hfinished.isForest hgrounded
  have hserves := serves_settled hforest
  have hsettled := hreachable.settled hforest
  obtain ⟨response, later, hrun, hchanges, -⟩ := respond_ends hforest hserves hsettled hvalid
  obtain ⟨-, -, hagain⟩ := respond_repeats hforest hsettled hvalid response later hrun
  refine ⟨response, later, hrun, hchanges.1, fun final hreaches => ?_⟩
  obtain ⟨hgrows, hfinal⟩ := hreaches.answering hforest hserves hchanges.2
  exact ⟨hgrows, hagain final hgrows hfinal⟩

/-- A lookup of the variable from the first module. -/
def mutualUseRequest : Request := .lookup .allVisible none ⟨1⟩ mutualUseName []

/-- What is known once the lookup is answered. -/
def mutualUseAnswered : Context :=
  ((mutualUse.respond mutualUseRequest mutualUseAsked).map Prod.snd).getD .empty

/-- What is known after some more questions. -/
def mutualUseAskedMore : Context :=
  (mutualUse.askAll [.scopeOf ⟨9⟩, .innermost ⟨2⟩ mutualUseName, .instantiation ⟨2⟩ none]
    mutualUseAnswered).getD .empty

/-- More questions add to what is known, but not the lookup when it is made again. -/
theorem mutualUse_respond_stable :
    ∃ response, mutualUse.respond mutualUseRequest mutualUseAsked =
        some (response, mutualUseAnswered) ∧ mutualUseAskedMore ≠ mutualUseAnswered ∧
      mutualUseAnswered.Grows mutualUseAskedMore ∧
      mutualUse.respond mutualUseRequest mutualUseAskedMore =
        some (response, mutualUseAskedMore) := by
  have hvalid : mutualUseRequest.Valid mutualUse mutualUseAsked := by decide +kernel
  obtain ⟨response, later, hrun, -, hstable⟩ := respond_stable mutualUse_finished
    mutualUse_grounded rfl mutualUse_reachable hvalid
  have hlater : mutualUseAnswered = later := by rw [mutualUseAnswered, hrun]; rfl
  subst hlater
  have hasked : mutualUse.askAll [.scopeOf ⟨9⟩, .innermost ⟨2⟩ mutualUseName,
      .instantiation ⟨2⟩ none] mutualUseAnswered = some mutualUseAskedMore := by decide +kernel
  obtain ⟨hgrows, hagain⟩ := hstable mutualUseAskedMore (.askAll .refl hasked)
  exact ⟨response, hrun, by decide +kernel, hgrows, hagain⟩

end Program

end Scoping
