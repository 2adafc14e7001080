import Scoping.Lookup
import Scoping.Proofs.Visibility.Resolution

/-!
Lookups end, whatever receiver they have and wherever those before them have
been. A lookup in a context that is given time yields what a walk yields through
the clauses that are then in the table.
-/

namespace Scoping

open Context Resolve

variable {program : Program} {keeps : Context → Prop} {context : Context}

namespace Program

variable (hforest : program.tree.IsForest) (hserves : program.Serves keeps)
variable (hkeeps : keeps context)
include hforest hserves hkeeps

/-- A lookup on its own, or one of several that share the scopes they enter. -/
theorem searchSharing_ends {id : ScopeId} (hid : context.Has id) (config : LookupConfig)
    (name : Name) (entered : List ScopeId) :
    Ends (Resolving keeps) (program.search program.clausesOf config id name entered) context
      fun result later => entered ⊆ result.2 ∧ ∀ final, later.Grows final → keeps final →
        (program.atRest final).Yields config.innermost entered
          (if id ∈ entered then []
            else .scope config.decls config.imports id name ::
              program.beyond config (context.climb id) name) result.1 result.2 :=
  search_ends hforest hserves.toUpholds (portrays_world hserves.toUpholds _)
    (clausesOf_shows hserves) hkeeps hid

theorem lookupSharing_ends {receiver : Option ScopeId} {id : ScopeId}
    (hreceiver : ∀ other ∈ receiver, context.Has other) (hid : context.Has id)
    (config : LookupConfig) (name : Name) (entered : List ScopeId) :
    Ends (Resolving keeps) (program.lookupSharing config receiver id name entered) context
      fun result _ => entered ⊆ result.2 := by
  unfold lookupSharing
  cases receiver with
  | none =>
    exact (searchSharing_ends hforest hserves hkeeps hid config name entered).mono
      fun _ _ _ => And.left
  | some receiver =>
    dsimp only
    rw [Search.bind_run]
    refine (searchSharing_ends hforest hserves hkeeps (hreceiver receiver rfl) config name
      entered).bind ?_
    rintro ⟨found, further⟩ later hchanges ⟨hfurther, -⟩
    rw [Search.bind_run]
    refine (searchSharing_ends hforest hserves hchanges.2 (hchanges.1.toGrows.has hid) config
      name further).bind ?_
    rintro ⟨more, last⟩ final hmore ⟨hlast, -⟩
    exact .same hmore.2 (List.Subset.trans hfurther hlast)

/-- A lookup without receiver yields what a walk from its scope yields, in the
context that it leaves behind and in any later one. -/
theorem lookup_ends {id : ScopeId} (hid : context.Has id) (config : LookupConfig) (name : Name) :
    Ends (Resolving keeps) (program.lookup config none id name) context
      fun found later => ∃ entered, ∀ final, later.Grows final → keeps final →
        (program.atRest final).Yields config.innermost []
          (.scope config.decls config.imports id name ::
            program.beyond config (context.climb id) name) found entered := by
  apply Ends.map (fun later hchanges => ⟨.refl later, hchanges.2⟩)
  apply (searchSharing_ends hforest hserves hkeeps hid config name []).mono
  rintro ⟨found, entered⟩ later hchanges ⟨-, hyields⟩
  exact ⟨entered, by simpa using hyields⟩

/-- The nearest declaration of a name is worked out once. -/
theorem innermost_ends {id : ScopeId} (hid : context.Has id) (name : Name) :
    Ends (Answering keeps) (program.innermost id name) context fun result later =>
      later.innermost.get? (id, name) = some result ∧ context.SameLinks later ∧
        ∀ other ≠ (id, name), later.innermost.get? other = context.innermost.get? other := by
  unfold innermost
  apply Ends.get_bind
  cases hknown : context.innermost.get? (id, name) with
  | some known => exact .pure ⟨.refl context, hkeeps⟩ ⟨hknown, ⟨rfl, rfl, rfl⟩, fun _ _ => rfl⟩
  | none =>
    obtain ⟨found, later, hrun, hchanges, -⟩ := lookup_ends hforest hserves hkeeps hid
      { LookupConfig.allVisible with innermost := true } name
    have hnone : later.innermost.get? (id, name) = none := by
      rw [hchanges.1.sameInnermost, hknown]
    let result := InnermostMatch.ofSets found
    let last := { later with innermost := later.innermost.finish (id, name) result }
    have hlast : later.Grows last :=
      { Grows.refl later with innermost := Memo.extends_finish (by simp [hnone]) }
    refine ⟨result, last, ?_, ⟨hchanges.1.toGrows.trans hlast, ?_⟩, Memo.get?_finish_self _ _ _,
      ⟨hchanges.1.sameLinks.pois, hchanges.1.sameLinks.builtPois, hchanges.1.sameLinks.poiOf⟩,
      fun other hother => ?_⟩
    · exact bind_eq_some_iff.mpr ⟨found, later, hrun, rfl⟩
    · have hsound := hserves.sound _ hchanges.2
      exact hserves.growing _ _ hchanges.2 hlast (hsound.congr rfl rfl rfl rfl rfl) rfl
    · rw [Memo.get?_finish_of_ne _ hother, hchanges.1.sameInnermost]

end Program

end Scoping
