import Scoping.Proofs.Context.Yields
import Scoping.Proofs.Lookup.Search

/-!
Searches change a context only as their steps do, by building scopes and by asking for
clauses. Whatever any sequence of such steps does is what a search does, from whichever
scope it starts and whether or not it would end in every context.
-/

namespace Scoping

open Resolve

variable {changes : Context → Context → Prop}

/-- Whatever the search does to a context, wherever it has been before. -/
def Search.Keeps {α : Type} (changes : Context → Context → Prop) (search : Search α) : Prop :=
  ∀ entered, Resolve.Keeps changes (search entered)

namespace Search

variable {α β : Type} {innermost : Bool}

theorem Keeps.scope_bind {id : ScopeId} {next : Scope → Search β}
    (hnext : ∀ scope, (next scope).Keeps changes) :
    ((liftM (Resolve.scope id) : Search Scope) >>= next).Keeps changes := by
  intro entered
  rw [lift_bind_run]
  exact .scope_bind fun scope => hnext scope entered

variable [IsPreorder Context changes]

theorem keeps_pure (value : α) : Keeps changes (pure value : Search α) := fun _ => .pure _

theorem Keeps.bind {first : Search α} {next : α → Search β} (hfirst : first.Keeps changes)
    (hnext : ∀ value, (next value).Keeps changes) : (first >>= next).Keeps changes := by
  intro entered
  rw [bind_run]
  exact (hfirst entered).bind fun result => hnext result.1 result.2

/-- A step that does not concern the scopes entered. -/
theorem Keeps.lift_bind {first : Resolve α} {next : α → Search β}
    (hfirst : Resolve.Keeps changes first) (hnext : ∀ value, (next value).Keeps changes) :
    ((liftM first : Search α) >>= next).Keeps changes := by
  intro entered
  rw [lift_bind_run]
  exact hfirst.bind fun value => hnext value entered

theorem enter_keeps (id : ScopeId) {inside : Search (List Overloads)}
    (hinside : inside.Keeps changes) : (enter id inside).Keeps changes := by
  intro entered
  rw [enter_run]
  split
  · exact .pure _
  · exact hinside (id :: entered)

theorem collect_keeps {searches : List (Search (List Overloads))}
    (hall : ∀ search ∈ searches, search.Keeps changes) :
    (collect innermost searches).Keeps changes := by
  induction searches with
  | nil => exact keeps_pure []
  | cons search rest ih =>
    obtain ⟨hsearch, hrest⟩ := List.forall_mem_cons.mp hall
    rw [collect]
    refine hsearch.bind fun found => ?_
    split
    · exact keeps_pure found
    · exact (ih hrest).bind fun more => keeps_pure (found ++ more)

theorem gate_keeps {search : Search (List Overloads)} (condition : Bool)
    (hsearch : search.Keeps changes) : (gate condition search).Keeps changes := by
  cases condition with
  | false => exact keeps_pure []
  | true => exact hsearch

theorem throughClauses_keeps {contents : ScopeId → Name → Search (List Overloads)}
    (hcontents : ∀ target actual, (contents target actual).Keeps changes) (name : Name)
    (clauses : List Clause) :
    (throughClauses innermost contents name clauses).Keeps changes := by
  induction clauses with
  | nil => exact keeps_pure _
  | cons clause rest ih =>
    rw [throughClauses]
    cases clause.route name with
    | blocked => exact ih
    | symbol =>
      refine .scope_bind fun scope => ?_
      cases scope.owner with
      | none => exact ih
      | some owner => exact keeps_pure _
    | contents actual =>
      refine (hcontents clause.target actual).bind fun found => ?_
      split
      · exact keeps_pure _
      · exact ih.bind fun result => keeps_pure (result.1, found ++ result.2)

/-- A search for an answer by yes or no. -/
theorem anyM_keeps {test : α → Search Bool} (htest : ∀ candidate, (test candidate).Keeps changes)
    (candidates : List α) : (candidates.anyM test).Keeps changes := by
  induction candidates with
  | nil => exact keeps_pure false
  | cons candidate rest ih =>
    rw [List.anyM]
    refine (htest candidate).bind fun answer => ?_
    cases answer with
    | true => exact keeps_pure true
    | false => exact ih

end Search

namespace Program

variable {program : Program} {view : ClauseView} {innermost : Bool}
variable [IsPreorder Context changes]
variable (hauto : Resolve.Keeps changes program.autoScope)
variable (hview : ∀ id, Resolve.Keeps changes (view id))
include hauto hview

theorem searchImports_keeps {contents : ScopeId → Name → Search (List Overloads)}
    (hcontents : ∀ target actual, (contents target actual).Keeps changes) (id : ScopeId)
    (name : Name) : (program.searchImports view innermost contents id name).Keeps changes := by
  rw [searchImports_eq]
  refine .lift_bind (hview id) fun clauses => ?_
  refine (Search.throughClauses_keeps hcontents name clauses).bind fun ⟨closed, found⟩ => ?_
  dsimp only
  split
  · exact Search.keeps_pure found
  have hbrought : (program.searchAuto contents id name).Keeps changes := by
    refine .scope_bind fun scope => ?_
    split
    · refine .lift_bind hauto fun auto => ?_
      cases auto with
      | none => exact Search.keeps_pure []
      | some auto => exact hcontents auto name
    · exact Search.keeps_pure []
  exact hbrought.bind fun more => Search.keeps_pure _

theorem searchLevel_keeps (fuel : Nat) (decls imports : Bool) (id : ScopeId) (name : Name) :
    (program.searchLevel view innermost fuel decls imports id name).Keeps changes := by
  induction fuel generalizing decls imports id name with
  | zero => exact fun _ _ => nofun
  | succ fuel ih =>
    rw [searchLevel]
    refine Search.collect_keeps (List.forall_mem_cons.mpr ⟨?_, List.forall_mem_singleton.mpr ?_⟩)
    · exact Search.gate_keeps decls (.scope_bind fun scope => Search.keeps_pure _)
    · exact Search.gate_keeps imports (searchImports_keeps hauto hview
        (fun target actual => Search.enter_keeps target (ih true true target actual)) id name)

theorem search_keeps (config : LookupConfig) (id : ScopeId) (name : Name) :
    (program.search view config id name).Keeps changes := by
  refine Search.enter_keeps id fun entered => ?_
  rw [Search.get_bind_run]
  refine .get_bind fun context => ?_
  refine (show Search.Keeps changes _ from Search.collect_keeps ?_) entered
  have hlevel : ∀ decls imports outer, (program.searchLevel view config.innermost program.depth
      decls imports outer name).Keeps changes :=
    fun decls imports outer => searchLevel_keeps hauto hview program.depth decls imports outer name
  simp only [List.forall_mem_append, List.forall_mem_singleton, List.forall_mem_map]
  refine ⟨⟨hlevel _ _ id, fun outer _ => Search.enter_keeps outer (hlevel _ _ outer)⟩,
    Search.gate_keeps _ ?_⟩
  unfold searchToplevel
  split <;> exact Search.keeps_pure _

end Program

end Scoping
