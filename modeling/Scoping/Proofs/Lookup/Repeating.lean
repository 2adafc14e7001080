import Scoping.Proofs.Context.Repeating
import Scoping.Proofs.Visibility.Resolution

/-!
Searches may be run again. A search reads scopes, clauses and the automatic module,
all of which it has worked out by the time that it ends, so a second run goes the same
way through them and adds nothing.
-/

namespace Scoping

open Context Resolve

variable {program : Program} {keeps : Context → Prop} {base context : Context}

/-- A search that may be run again, wherever it has been, in every context that a given
one grows to. -/
def Search.Repeats {α : Type} (keeps : Context → Prop) (base : Context) (search : Search α) : Prop :=
  ∀ context entered, base.Grows context → keeps context →
    Resolve.Repeats keeps (search entered) context fun _ _ => True

/-- A view that may be asked again, and shows clauses with targets in the context. -/
def ClauseView.Repeats (keeps : Context → Prop) (base : Context) (view : ClauseView) : Prop :=
  ∀ context id, base.Grows context → keeps context → context.Has id →
    Resolve.Repeats keeps (view id) context fun clauses later =>
      ∀ clause ∈ clauses, later.Has clause.target

namespace Search

variable {α β : Type} {innermost : Bool}

theorem repeats_pure (value : α) : Repeats keeps base (pure value : Search α) :=
  fun _ _ _ hkeeps => .pure hkeeps trivial

theorem Repeats.bind {first : Search α} {next : α → Search β} (hfirst : first.Repeats keeps base)
    (hnext : ∀ value, (next value).Repeats keeps base) : (first >>= next).Repeats keeps base := by
  intro context entered hgrows hkeeps
  rw [bind_run]
  refine (hfirst context entered hgrows hkeeps).bind fun result later hchanges _ => ?_
  exact hnext result.1 later result.2 (hgrows.trans hchanges.1) hchanges.2

/-- A step that does not concern the scopes entered. -/
theorem repeats_lift_bind {first : Resolve α} {next : α → Search β} {middle : α → Context → Prop}
    (hfirst : ∀ context, base.Grows context → keeps context →
      Resolve.Repeats keeps first context middle)
    (hnext : ∀ value later, base.Grows later → middle value later →
      (next value).Repeats keeps later) :
    ((liftM first : Search α) >>= next).Repeats keeps base := by
  intro context entered hgrows hkeeps
  rw [lift_bind_run]
  refine (hfirst context hgrows hkeeps).bind fun value later hchanges hmiddle => ?_
  exact hnext value later (hgrows.trans hchanges.1) hmiddle later entered (.refl later) hchanges.2

theorem repeats_scope_bind {id : ScopeId} {next : Scope → Search β} (hid : base.Has id)
    (hnext : (next (base.scope id)).Repeats keeps base) :
    ((liftM (Resolve.scope id) : Search Scope) >>= next).Repeats keeps base := by
  intro context entered hgrows hkeeps
  rw [lift_bind_run]
  apply Resolve.Repeats.scope_bind (hgrows.has hid)
  rw [hgrows.scope hid]
  exact hnext context entered hgrows hkeeps

theorem enter_repeats {id : ScopeId} {inside : Search (List Overloads)}
    (hinside : inside.Repeats keeps base) : (enter id inside).Repeats keeps base := by
  intro context entered hgrows hkeeps
  rw [enter_run]
  split
  · exact .pure hkeeps trivial
  · exact hinside context _ hgrows hkeeps

theorem collect_repeats {searches : List (Search (List Overloads))}
    (hall : ∀ search ∈ searches, search.Repeats keeps base) :
    (collect innermost searches).Repeats keeps base := by
  induction searches with
  | nil => exact repeats_pure []
  | cons search rest ih =>
    obtain ⟨hsearch, hrest⟩ := List.forall_mem_cons.mp hall
    rw [collect]
    refine hsearch.bind fun found => ?_
    split
    · exact repeats_pure found
    · exact (ih hrest).bind fun more => repeats_pure (found ++ more)

theorem gate_repeats {search : Search (List Overloads)} (condition : Bool)
    (hsearch : search.Repeats keeps base) : (gate condition search).Repeats keeps base := by
  cases condition with
  | false => exact repeats_pure []
  | true => exact hsearch

theorem declarations_repeats {id : ScopeId} (hid : base.Has id) (name : Name) :
    (declarations id name).Repeats keeps base :=
  repeats_scope_bind hid (repeats_pure _)

theorem throughClauses_repeats {contents : ScopeId → Name → Search (List Overloads)} {name : Name}
    {clauses : List Clause}
    (hcontents : ∀ target actual, base.Has target → (contents target actual).Repeats keeps base)
    (htargets : ∀ clause ∈ clauses, base.Has clause.target) :
    (throughClauses innermost contents name clauses).Repeats keeps base := by
  induction clauses with
  | nil => exact repeats_pure _
  | cons clause rest ih =>
    obtain ⟨htarget, hothers⟩ := List.forall_mem_cons.mp htargets
    rw [throughClauses]
    cases clause.route name with
    | blocked => exact ih hothers
    | symbol =>
      refine repeats_scope_bind htarget ?_
      cases (base.scope clause.target).owner with
      | none => exact ih hothers
      | some owner => exact repeats_pure _
    | contents actual =>
      refine (hcontents clause.target actual htarget).bind fun found => ?_
      split
      · exact repeats_pure _
      · exact (ih hothers).bind fun result => repeats_pure (result.1, found ++ result.2)

/-- A search for an answer by yes or no, if each candidate may be tried again. -/
theorem anyM_repeats {test : α → Search Bool} {candidates : List α}
    (htest : ∀ candidate ∈ candidates, (test candidate).Repeats keeps base) :
    (candidates.anyM test).Repeats keeps base := by
  induction candidates with
  | nil => exact repeats_pure false
  | cons candidate rest ih =>
    obtain ⟨hfirst, hothers⟩ := List.forall_mem_cons.mp htest
    rw [List.anyM]
    refine hfirst.bind fun answer => ?_
    cases answer with
    | true => exact repeats_pure true
    | false => exact ih hothers

end Search

namespace Program

variable {view : ClauseView} {innermost : Bool}

/-- The automatic module is asked for once. -/
theorem autoScope_repeats (hforest : program.tree.IsForest) (hupholds : program.Upholds keeps)
    (hkeeps : keeps context) :
    Resolve.Repeats keeps program.autoScope context fun found later =>
      ∀ auto ∈ found, later.Has auto := by
  refine ((autoScope_ends hforest (hupholds.sound _ hkeeps)).resolving hupholds hkeeps).repeats
    (fun _ => .of_resolving) ?_ ?_
  · intro found later hchanges hknown auto hauto
    obtain rfl := Option.mem_def.mp hauto
    obtain ⟨node, owner, -, -, howned⟩ := (hupholds.sound _ hchanges.2).autoScope _ hknown
    exact howned.1
  · intro found later _ hknown final hfinal _
    refine bind_eq_some_iff.mpr ⟨_, _, rfl, ?_⟩
    rw [hfinal.autoScope found hknown]
    rfl

theorem searchImports_repeats (hforest : program.tree.IsForest) (hupholds : program.Upholds keeps)
    {contents : ScopeId → Name → Search (List Overloads)} {id : ScopeId} (hid : base.Has id)
    (hview : view.Repeats keeps base)
    (hcontents : ∀ later target actual, base.Grows later → later.Has target →
      (contents target actual).Repeats keeps later) (name : Name) :
    (program.searchImports view innermost contents id name).Repeats keeps base := by
  rw [searchImports_eq]
  refine Search.repeats_lift_bind (fun context hgrows hkeeps =>
    hview context id hgrows hkeeps (hgrows.has hid)) fun clauses later hgrows htargets => ?_
  refine (Search.throughClauses_repeats (hcontents later · · hgrows) htargets).bind ?_
  rintro ⟨closed, found⟩
  dsimp only
  split
  · exact Search.repeats_pure found
  have hauto : (program.searchAuto contents id name).Repeats keeps later := by
    refine Search.repeats_scope_bind (hgrows.has hid) ?_
    split
    · refine Search.repeats_lift_bind (fun context _ hkeeps =>
        autoScope_repeats hforest hupholds hkeeps) fun found last hmore hhas => ?_
      cases found with
      | none => exact Search.repeats_pure []
      | some auto => exact hcontents last auto name (hgrows.trans hmore) (hhas auto rfl)
    · exact Search.repeats_pure []
  exact hauto.bind fun more => Search.repeats_pure _

theorem searchLevel_repeats (hforest : program.tree.IsForest) (hupholds : program.Upholds keeps)
    {id : ScopeId} (hid : base.Has id) (hview : view.Repeats keeps base) (fuel : Nat)
    (decls imports : Bool) (name : Name) :
    (program.searchLevel view innermost fuel decls imports id name).Repeats keeps base := by
  induction fuel generalizing base decls imports id name with
  | zero =>
    intro context entered _ _ value later hrun
    cases hrun
  | succ fuel ih =>
    have hcontents : ∀ later target actual, base.Grows later → later.Has target →
        (Search.enter target
          (program.searchLevel view innermost fuel true true target actual)).Repeats keeps later :=
      fun later target actual hgrows htarget =>
        Search.enter_repeats (ih htarget (fun context id hmore => hview context id
          (hgrows.trans hmore)) true true actual)
    rw [searchLevel]
    refine Search.collect_repeats (List.forall_mem_cons.mpr ⟨?_, List.forall_mem_singleton.mpr ?_⟩)
    · exact Search.gate_repeats decls (Search.declarations_repeats hid name)
    · exact Search.gate_repeats imports
        (searchImports_repeats hforest hupholds hid hview hcontents name)

theorem searchToplevel_repeats (name : Name) :
    (program.searchToplevel name).Repeats keeps base := by
  unfold searchToplevel
  split <;> exact Search.repeats_pure _

/-- The scopes that a search climbs to are the same in every later context. -/
theorem search_repeats (hforest : program.tree.IsForest) (hupholds : program.Upholds keeps)
    {id : ScopeId} (hid : base.Has id) (hview : view.Repeats keeps base) (config : LookupConfig)
    (name : Name) : (program.search view config id name).Repeats keeps base := by
  refine Search.enter_repeats fun context entered hgrows hkeeps => ?_
  have hcontext := hupholds.sound _ hkeeps
  rw [Search.get_bind_run]
  refine .get_bind (fun final hfinal => ?_) ?_
  · rw [hcontext.climb_of_grows (hgrows.has hid) hfinal]
  · have hlevel : ∀ decls outer, context.Has outer →
        (program.searchLevel view config.innermost program.depth decls config.imports outer
          name).Repeats keeps context := fun decls outer houter =>
      searchLevel_repeats hforest hupholds houter (fun later other hmore =>
        hview later other (hgrows.trans hmore)) _ decls config.imports name
    refine (show Search.Repeats keeps context _ from Search.collect_repeats ?_) context _
      (.refl context) hkeeps
    simp only [List.forall_mem_append, List.forall_mem_singleton, List.forall_mem_map]
    refine ⟨⟨hlevel _ _ (hgrows.has hid), fun outer houter => ?_⟩,
      Search.gate_repeats _ (searchToplevel_repeats name)⟩
    split at houter
    · exact Search.enter_repeats (hlevel _ _ (hcontext.has_of_climb (hgrows.has hid) houter))
    · cases houter

end Program

end Scoping
