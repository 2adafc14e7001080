import Scoping.Proofs.Context.Arrangement
import Scoping.Proofs.Lookup.Innermost
import Scoping.Proofs.Stability

/-!
The nearest declaration is the head of all that a lookup finds. With the flag set, a
lookup finds the first of the sets that it finds without, and what is recorded of
nearest declarations is what the lookup finds when it is made again.
-/

namespace Scoping

open Context Resolve

namespace InnermostMatch

/-- Nothing is read but the first set. -/
theorem ofSets_take_one (sets : List Overloads) : ofSets (sets.take 1) = ofSets sets := by
  cases sets <;> rfl

theorem decl?_ofSets (sets : List Overloads) :
    (ofSets sets).decl? = sets.head?.map Overloads.first := by
  cases sets <;> rfl

theorem found_ofSets (sets : List Overloads) :
    (ofSets sets).found = match sets with
      | [] => .zero
      | nearest :: _ => if nearest.size = 1 then .one else .many := by
  cases sets with
  | nil => rfl
  | cons nearest _ =>
    have hsize : nearest.size = nearest.rest.length + 1 := rfl
    show (if nearest.size > 1 then _ else _) = if nearest.size = 1 then _ else _
    by_cases hone : nearest.size = 1
    · rw [if_neg (by omega), if_pos hone]
    · rw [if_pos (by omega), if_neg hone]

end InnermostMatch

namespace Program

variable {program : Program} {context later : Context} {id : ScopeId} {name : Name}

/-- A lookup for the nearest declaration. -/
abbrev lookupNearest (program : Program) (id : ScopeId) (name : Name) : Resolve (List Overloads) :=
  program.lookup { LookupConfig.allVisible with innermost := true } none id name

/-- What is not recorded yet is what a lookup finds now. -/
theorem innermost_of_unknown (hunknown : context.innermost.get? (id, name) = none)
    {found : List Overloads} (hfound : program.lookupNearest id name context = some (found, later)) :
    program.innermost id name context = some (.ofSets found,
      { later with innermost := later.innermost.finish (id, name) (.ofSets found) }) := by
  unfold innermost
  refine bind_eq_some_iff.mpr ⟨_, _, rfl, ?_⟩
  rw [hunknown]
  exact bind_eq_some_iff.mpr ⟨found, later, hfound, rfl⟩

section

variable (hforest : program.tree.IsForest) (hsettled : program.Settled context)
  (hid : context.Has id)
include hforest hsettled hid

/-- A lookup finds the same again, and then adds nothing to what is known. -/
theorem lookup_again {config : LookupConfig} {found : List Overloads}
    (hfound : program.lookup config none id name context = some (found, later)) {final : Context}
    (hgrows : later.Grows final) (hfinal : program.Settled final) :
    program.lookup config none id name final = some (found, final) := by
  have hrepeats : Repeats program.Settled (program.lookup config none id name) context
      fun _ _ => True :=
    .map (lookupSharing_repeats hforest hsettled (by simp) hid config name [])
  exact (hrepeats found later hfound).2.2 final hgrows hfinal

/-- What a question adds to what is recorded of nearest declarations is what a lookup
finds once the question is answered. -/
theorem lookupNearest_of_respond {response : Response}
    (hresponse : program.respond (.innermost id name) context = some (response, later))
    (hunknown : context.innermost.get? (id, name) = none) {result : InnermostMatch}
    (hknown : later.innermost.get? (id, name) = some result) :
    ∃ found, result = .ofSets found ∧ program.lookupNearest id name later = some (found, later) := by
  obtain ⟨hchanges, -⟩ := (respond_ends hforest (serves_settled hforest) hsettled
    (show (Request.innermost id name).Valid program context from hid)).of_run hresponse
  obtain ⟨found, middle, hfound, hresolved, -⟩ := lookup_ends hforest (serves_settled hforest)
    hsettled hid { LookupConfig.allVisible with innermost := true } name
  obtain ⟨_, hrun, -⟩ := map_eq_some_iff.mp hresponse
  rw [innermost_of_unknown hunknown hfound] at hrun
  cases hrun
  refine ⟨found, ?_, lookup_again hforest hsettled hid hfound ?_ hchanges.2⟩
  · exact Option.some.inj (hknown.symm.trans (Memo.get?_finish_self _ _ _))
  · refine { Grows.refl middle with innermost := Memo.extends_finish ?_ }
    rw [hresolved.1.sameInnermost, hunknown]
    exact nofun

end

/-- What is recorded of nearest declarations is what a lookup finds when it is made
again, whatever was asked in between. -/
theorem Reachable.lookupNearest_of_known (hforest : program.tree.IsForest)
    (hreachable : program.Reachable context) {result : InnermostMatch}
    (hknown : context.innermost.get? (id, name) = some result) :
    ∃ found, result = .ofSets found ∧
      program.lookupNearest id name context = some (found, context) := by
  induction hreachable with
  | refl => cases hknown
  | @asked before after request response hbefore hvalid hresponse ih =>
    have hsettled := Reachable.settled hforest hbefore
    obtain ⟨⟨hgrows, hafter⟩, -⟩ :=
      (respond_ends hforest (serves_settled hforest) hsettled hvalid).of_run hresponse
    cases hold : before.innermost.get? (id, name) with
    | some known =>
      obtain rfl : known = result :=
        Option.some.inj ((hgrows.innermost (id, name) known hold).symm.trans hknown)
      obtain ⟨found, hresult, hfound⟩ := ih hold
      have hid := Reachable.has_of_innermost hforest hbefore hold
      exact ⟨found, hresult, lookup_again hforest hsettled hid hfound hgrows hafter⟩
    | none =>
      rcases innermost_of_respond hforest hsettled.sound hvalid hresponse hknown with hsame | rfl
      · rw [hold] at hsame
        cases hsame
      · exact lookupNearest_of_respond hforest hsettled hvalid hresponse hold hknown

/-- The nearest declaration is read off what a lookup finds now, whether or not it was
asked for before. -/
theorem innermost_of_lookupNearest (hforest : program.tree.IsForest)
    (hreachable : program.Reachable context) {found : List Overloads}
    (hfound : program.lookupNearest id name context = some (found, later)) :
    ∃ last, program.innermost id name context = some (.ofSets found, last) := by
  cases hknown : context.innermost.get? (id, name) with
  | none => exact ⟨_, innermost_of_unknown hknown hfound⟩
  | some result =>
    obtain ⟨same, rfl, hsame⟩ := hreachable.lookupNearest_of_known hforest hknown
    rw [hfound] at hsame
    cases hsame
    refine ⟨context, bind_eq_some_iff.mpr ⟨_, _, rfl, ?_⟩⟩
    rw [hknown]
    rfl

/-- A lookup that is to stop at the first match finds the first of the sets that the
exhaustive lookup finds, and the same if that is nothing. -/
theorem lookupSharing_heads (hforest : program.tree.IsForest) (hsettled : program.Settled context)
    (hid : context.Has id) {config : LookupConfig} (hall : config.innermost = false) (name : Name)
    (entered : List ScopeId) :
    ∃ found reached reached' later later',
      program.lookupSharing config none id name entered context = some ((found, reached), later) ∧
      program.lookupSharing { config with innermost := true } none id name entered context =
        some ((found.take 1, reached'), later') := by
  obtain ⟨⟨found, reached⟩, later, hrun, -⟩ := lookupSharing_ends hforest (serves_settled hforest)
    hsettled (show ∀ other ∈ (none : Option ScopeId), context.Has other from nofun) hid config name
    entered
  have hconfig : config = { config with innermost := false } := by rw [← hall]
  have hsearch : (program.search program.clausesOf { config with innermost := true } id name).Stops
      (program.search program.clausesOf { config with innermost := false } id name) :=
    search_stops config id name
  have hstops := hsearch entered context found reached later (hconfig ▸ hrun)
  cases found with
  | nil => exact ⟨_, _, _, _, _, hrun, hstops⟩
  | cons set sets =>
    obtain ⟨reached', later', hfirst⟩ := hstops
    exact ⟨_, _, _, _, _, hrun, hfirst⟩

/-- In every context between questions, a lookup without receiver that stops at the first
match finds exactly the first set of what the exhaustive lookup finds. So the nearest
declaration, asked for at any time, is the first one of the first set that the lookup of
all that is visible finds: none if that finds nothing, the only one if its first set has
no other, and one of many otherwise. -/
theorem innermost_heads_lookup {tree : Tree} (hfinished : tree.Finished) (hgrounded : tree.Grounded)
    (htree : program.tree = tree) (hreachable : program.Reachable context) (hid : context.Has id)
    (name : Name) :
    (∀ config entered, config.innermost = false → ∃ found reached reached' later later',
      program.lookupSharing config none id name entered context = some ((found, reached), later) ∧
      program.lookupSharing { config with innermost := true } none id name entered context =
        some ((found.take 1, reached'), later')) ∧
    ∃ found result later later',
      program.lookup .allVisible none id name context = some (found, later) ∧
      program.innermost id name context = some (result, later') ∧
      result.decl? = found.head?.map Overloads.first ∧
      result.found = match found with
        | [] => .zero
        | nearest :: _ => if nearest.size = 1 then .one else .many := by
  have hforest : program.tree.IsForest := htree ▸ hfinished.isForest hgrounded
  have hsettled := hreachable.settled hforest
  refine ⟨fun config entered hall => lookupSharing_heads hforest hsettled hid hall name entered, ?_⟩
  obtain ⟨found, reached, reached', later, later', hrun, hfirst⟩ :=
    lookupSharing_heads hforest hsettled hid
      (show LookupConfig.allVisible.innermost = false from rfl) name []
  have hlookup : program.lookup .allVisible none id name context = some (found, later) :=
    map_eq_some_iff.mpr ⟨_, hrun, rfl⟩
  have hnearest : program.lookupNearest id name context = some (found.take 1, later') :=
    map_eq_some_iff.mpr ⟨_, hfirst, rfl⟩
  obtain ⟨last, hinnermost⟩ := innermost_of_lookupNearest hforest hreachable hnearest
  rw [InnermostMatch.ofSets_take_one] at hinnermost
  exact ⟨found, .ofSets found, later, last, hlookup, hinnermost, InnermostMatch.decl?_ofSets found,
    InnermostMatch.found_ofSets found⟩

/-- A lookup from the first of the two modules finds both variables; the nearest is that
of the module. -/
theorem mutualUse_innermost_heads_lookup : ∃ first others result later later',
    mutualUse.lookup .allVisible none ⟨1⟩ mutualUseName mutualUseAnswered =
      some (first :: others, later) ∧ others ≠ [] ∧
    mutualUse.innermost ⟨1⟩ mutualUseName mutualUseAnswered = some (result, later') ∧
    result.decl? = some first.first ∧ result.found = .one := by
  have hasked : mutualUse.askAll [mutualUseRequest] mutualUseAsked = some mutualUseAnswered := by
    decide +kernel
  obtain ⟨-, found, result, later, later', hlookup, hinnermost, hdecl, hfound⟩ :=
    innermost_heads_lookup mutualUse_finished mutualUse_grounded rfl
      (mutualUse_reachable.askAll hasked)
      (show mutualUseAnswered.Has ⟨1⟩ by decide +kernel) mutualUseName
  obtain ⟨first, others, rfl, hothers, hone⟩ : ∃ first others, found = first :: others ∧
      others ≠ [] ∧ first.size = 1 := by
    have hall : (mutualUse.lookup .allVisible none ⟨1⟩ mutualUseName mutualUseAnswered).any
        (fun answer => match answer.1 with
          | first :: others => !others.isEmpty && first.size == 1
          | [] => false) = true := by decide +kernel
    rw [hlookup] at hall
    cases found with
    | nil => cases hall
    | cons first others => exact ⟨first, others, rfl, by simpa using hall⟩
  exact ⟨first, others, result, later, later', hlookup, hothers, hinnermost, hdecl,
    hfound.trans (if_pos hone)⟩

end Program

end Scoping
