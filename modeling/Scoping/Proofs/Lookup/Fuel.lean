import Scoping.Proofs.Lookup.Search

/-!
The fuel of a search is a bound and nothing else: a search that has a result with some
fuel has the same one with more. Everything but the recursive entry into other scopes is
alike, so one lemma a construct carries the induction on the fuel.
-/

namespace Scoping

open Context Resolve

namespace Search

variable {α β : Type}

/-- Whether a search has every result that another one has. -/
def Extends (more fewer : Search α) : Prop :=
  ∀ entered context result, fewer entered context = some result →
    more entered context = some result

theorem Extends.refl (search : Search α) : search.Extends search := fun _ _ _ hrun => hrun

theorem Extends.bind {more fewer : Search α} {next next' : α → Search β}
    (hfirst : more.Extends fewer) (hnext : ∀ value, (next' value).Extends (next value)) :
    (more >>= next').Extends (fewer >>= next) := by
  intro entered context result hrun
  rw [bind_run] at hrun ⊢
  obtain ⟨⟨value, further⟩, later, hvalue, hrest⟩ := bind_eq_some_iff.mp hrun
  exact bind_eq_some_iff.mpr
    ⟨_, later, hfirst entered context _ hvalue, hnext value further later result hrest⟩

theorem Extends.enter {more fewer : Search (List Overloads)} (id : ScopeId)
    (hinside : more.Extends fewer) : (Search.enter id more).Extends (Search.enter id fewer) := by
  intro entered context result hrun
  rw [enter_run] at hrun ⊢
  split at hrun
  · next hseen => rwa [if_pos hseen]
  · next hseen =>
    rw [if_neg hseen]
    exact hinside _ context result hrun

theorem Extends.gate {more fewer : Search (List Overloads)} (condition : Bool)
    (hsearch : more.Extends fewer) : (gate condition more).Extends (gate condition fewer) := by
  cases condition with
  | false => exact .refl _
  | true => exact hsearch

theorem Extends.collect (innermost : Bool) {more fewer : List (Search (List Overloads))}
    (hall : List.Forall₂ Extends more fewer) :
    (collect innermost more).Extends (collect innermost fewer) := by
  induction hall with
  | nil => exact .refl _
  | cons hfirst _ ih =>
    refine hfirst.bind fun found => ?_
    split
    · exact .refl _
    · exact ih.bind fun _ => .refl _

theorem Extends.throughClauses (innermost : Bool)
    {more fewer : ScopeId → Name → Search (List Overloads)}
    (hcontents : ∀ target actual, (more target actual).Extends (fewer target actual)) (name : Name)
    (clauses : List Clause) :
    (throughClauses innermost more name clauses).Extends
      (throughClauses innermost fewer name clauses) := by
  induction clauses with
  | nil => exact .refl _
  | cons clause rest ih =>
    rw [Search.throughClauses, Search.throughClauses]
    cases clause.route name with
    | blocked => exact ih
    | symbol =>
      refine (Extends.refl _).bind fun scope => ?_
      cases scope.owner with
      | none => exact ih
      | some owner => exact .refl _
    | contents actual =>
      refine (hcontents clause.target actual).bind fun found => ?_
      dsimp only
      split
      · exact .refl _
      · exact ih.bind fun _ => .refl _

end Search

namespace Program

variable {program : Program} {view : ClauseView} {innermost : Bool}

theorem searchImports_extends {more fewer : ScopeId → Name → Search (List Overloads)}
    (hcontents : ∀ target actual, (more target actual).Extends (fewer target actual))
    (id : ScopeId) (name : Name) :
    (program.searchImports view innermost more id name).Extends
      (program.searchImports view innermost fewer id name) := by
  refine (Search.Extends.refl _).bind fun clauses => ?_
  refine (Search.Extends.throughClauses innermost hcontents name clauses).bind fun result => ?_
  dsimp only
  split
  · exact .refl _
  refine (Search.Extends.refl _).bind fun scope => ?_
  split
  · refine (Search.Extends.refl _).bind fun auto => ?_
    cases auto with
    | none => exact .refl _
    | some auto => exact (hcontents auto name).bind fun _ => .refl _
  · exact .refl _

/-- More fuel changes no result. -/
theorem searchLevel_extends {fuel more : Nat} (hle : fuel ≤ more) (decls imports : Bool)
    (id : ScopeId) (name : Name) :
    (program.searchLevel view innermost more decls imports id name).Extends
      (program.searchLevel view innermost fuel decls imports id name) := by
  induction fuel generalizing more decls imports id name with
  | zero =>
    intro _ _ _ hrun
    cases hrun
  | succ fuel ih =>
    obtain ⟨more, rfl⟩ := Nat.exists_eq_succ_of_ne_zero (Nat.ne_of_gt (Nat.zero_lt_of_lt hle))
    refine .collect innermost (.cons (.refl _) (.cons (.gate imports ?_) .nil))
    exact searchImports_extends
      (fun target actual => .enter target (ih (Nat.le_of_succ_le_succ hle) true true target actual))
      id name

end Program

end Scoping
