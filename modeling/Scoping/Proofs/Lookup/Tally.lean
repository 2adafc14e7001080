import Scoping.Proofs.Declaring
import Scoping.Proofs.Lookup.Closure
import Scoping.Proofs.Lookup.Inspecting

/-!
How often searches report a declaration. A scope lists it once if it declares it, and once
more if a clause of it stands for it; a search lists it once more if it is the top-level
module of the name. No scope is entered twice, so the scopes that have been entered account
for all reports, however many searches they are shared by.
-/

namespace Scoping

open Context

namespace Decl

/-- How often sets list a declaration. -/
def listings (decl : Decl) (found : List Overloads) : Nat :=
  (found.flatMap Overloads.toList).count decl

/-- How often the sets among some sources list a declaration. -/
def offers (decl : Decl) (sources : List Source) : Nat :=
  decl.listings (sources.filterMap Source.set?)

variable (decl : Decl)

@[simp]
theorem listings_nil : decl.listings [] = 0 := rfl

@[simp]
theorem listings_cons (overloads : Overloads) (found : List Overloads) :
    decl.listings (overloads :: found) = overloads.toList.count decl + decl.listings found := by
  simp [listings]

@[simp]
theorem listings_append (found more : List Overloads) :
    decl.listings (found ++ more) = decl.listings found + decl.listings more := by
  simp [listings]

@[simp]
theorem offers_nil : decl.offers [] = 0 := rfl

@[simp]
theorem offers_set (overloads : Overloads) (sources : List Source) :
    decl.offers (.set overloads :: sources) =
      overloads.toList.count decl + decl.offers sources := by
  simp [offers, Source.set?]

@[simp]
theorem offers_scope (decls imports : Bool) (id : ScopeId) (name : Name) (sources : List Source) :
    decl.offers (.scope decls imports id name :: sources) = decl.offers sources := rfl

@[simp]
theorem offers_append (sources more : List Source) :
    decl.offers (sources ++ more) = decl.offers sources + decl.offers more := by
  simp [offers]

theorem offers_eq_zero {sources : List Source}
    (hsources : ∀ source ∈ sources, ∃ decls imports id name,
      source = .scope decls imports id name) : decl.offers sources = 0 := by
  induction sources with
  | nil => rfl
  | cons source rest ih =>
    obtain ⟨⟨decls, imports, id, name, rfl⟩, hrest⟩ := List.forall_mem_cons.mp hsources
    rw [offers_scope, ih hrest]

end Decl

namespace World

variable {world : World} {decl : Decl} {owns refers : ScopeId → Bool}
variable {entered entered' : List ScopeId} {pending pending' : List Source}
variable {found : List Overloads}

theorem Walks.suffix (hwalk : world.Walks entered pending found entered' pending') :
    entered <:+ entered' := by
  induction hwalk with
  | refl => exact List.suffix_refl _
  | set _ ih => exact ih
  | seen _ _ ih => exact ih
  | enter _ _ ih => exact (List.suffix_cons _ _).trans ih

/-- No scope is entered twice. -/
theorem Walks.nodup (hwalk : world.Walks entered pending found entered' pending')
    (hentered : entered.Nodup) : entered'.Nodup := by
  induction hwalk with
  | refl => exact hentered
  | set _ ih => exact ih hentered
  | seen _ _ ih => exact ih hentered
  | enter hid _ ih => exact ih (List.nodup_cons.mpr ⟨hid, hentered⟩)

/-- The scopes that a walk enters pay for what it reports and did not have on its stack. -/
theorem Walks.listings_le (hwalk : world.Walks entered pending found entered' pending')
    (hsources : ∀ decls imports id name, decl.offers (world.sources decls imports id name) ≤
      (if owns id then 1 else 0) + if refers id then 1 else 0) :
    decl.listings found + decl.offers pending' + entered.countP owns + entered.countP refers ≤
      decl.offers pending + entered'.countP owns + entered'.countP refers := by
  induction hwalk with
  | refl => simp
  | set _ ih =>
    simp only [Decl.listings_cons, Decl.offers_set]
    omega
  | seen _ _ ih => simpa using ih
  | @enter _ _ _ _ _ decls imports id name _ _ ih =>
    have hscope := hsources decls imports id name
    simp only [List.countP_cons, Decl.offers_append] at ih
    simp only [Decl.offers_scope]
    omega

/-- What a search reports, wherever it stops, is paid for in the same way. -/
theorem Yields.listings_le {innermost : Bool}
    (hyields : world.Yields innermost entered pending found entered')
    (hsources : ∀ decls imports id name, decl.offers (world.sources decls imports id name) ≤
      (if owns id then 1 else 0) + if refers id then 1 else 0) :
    decl.listings found + entered.countP owns + entered.countP refers ≤
      decl.offers pending + entered'.countP owns + entered'.countP refers := by
  unfold Yields at hyields
  split at hyields
  · obtain ⟨first, rest, rfl, hwalk⟩ := hyields
    have hpaid := hwalk.listings_le hsources
    simp only [Decl.listings_nil, Decl.listings_cons, Decl.offers_set] at hpaid ⊢
    omega
  · simpa using hyields.listings_le hsources

/-- Wherever it stops, a search has entered new scopes only. -/
theorem Yields.suffix_nodup {innermost : Bool}
    (hyields : world.Yields innermost entered pending found entered') :
    entered <:+ entered' ∧ (entered.Nodup → entered'.Nodup) := by
  unfold Yields at hyields
  split at hyields
  · obtain ⟨first, rest, -, hwalk⟩ := hyields
    exact ⟨hwalk.suffix, hwalk.nodup⟩
  · exact ⟨hyields.suffix, hyields.nodup⟩

end World

namespace Context

/-- Whether a clause brings in the name of its target, and this is the declaration. -/
def standsFor (context : Context) (decl : Decl) (clause : Clause) : Bool :=
  clause.kind == .symbolOnly && (context.scope clause.target).owner.map .node == some decl

/-- Whether a clause of a scope stands for a declaration. -/
def refersTo (context : Context) (decl : Decl) (id : ScopeId) : Bool :=
  (context.clausesAt id).any (context.standsFor decl)

variable {program : Program} {context : Context} {decl : Decl} {name : Name}

/-- Clauses are followed up to the first one that stands for its target. -/
theorem offers_through_le (clauses : List Clause) :
    decl.offers ((program.atRest context).through name clauses).2 ≤
      if clauses.any (context.standsFor decl) then 1 else 0 := by
  induction clauses with
  | nil => simp [World.through]
  | cons clause rest ih =>
    have hrest : decl.offers ((program.atRest context).through name rest).2 ≤
        if (clause :: rest).any (context.standsFor decl) then 1 else 0 := by
      rw [List.any_cons]
      cases context.standsFor decl clause with
      | false => exact ih
      | true => exact ih.trans (by split <;> simp)
    rw [World.through]
    cases hroute : clause.route name with
    | blocked => exact hrest
    | symbol =>
      dsimp only
      cases howner : ((program.atRest context).scope clause.target).owner with
      | none => exact hrest
      | some owner =>
        have hkind := (Clause.exists_of_route_eq_symbol hroute).1
        have hstands : context.standsFor decl clause = (Decl.node owner == decl) := by
          have howner : (context.scope clause.target).owner = some owner := howner
          simp [standsFor, hkind, howner]
        rw [List.any_cons, hstands, Decl.offers_set, Overloads.toList_single,
          List.count_singleton, Decl.offers_nil]
        cases Decl.node owner == decl <;> simp
    | contents actual => exact hrest

namespace Sound

variable (hsound : context.Sound program)
include hsound

/-- A scope lists a declaration once if it declares it, and once if a clause of it stands
for it. -/
theorem offers_sources_le (hacyclic : program.tree.Acyclic) (hformed : program.tree.WellFormed)
    (decl : Decl) (decls imports : Bool) (id : ScopeId) (name : Name) :
    decl.offers ((program.atRest context).sources decls imports id name) ≤
      (if context.declares decl id then 1 else 0) + if context.refersTo decl id then 1 else 0 := by
  have hdeclared : decl.offers (((context.scope id).lookup name).map .set) ≤
      if context.declares decl id then 1 else 0 := by
    rw [Scope.lookup]
    cases hknown : (context.scope id).declared.get? name with
    | none => simp
    | some overloads =>
      have hnodup := hsound.nodup_of_declared hacyclic hformed hknown
      by_cases hmem : decl ∈ overloads.toList
      · have hdeclares := declares_iff.mpr ⟨name, overloads, hknown, hmem⟩
        simp [hdeclares, List.count_eq_one_of_mem hnodup hmem]
      · simp [List.count_eq_zero_of_not_mem hmem]
  have hauto : decl.offers ((program.atRest context).autoSources id name) = 0 := by
    apply decl.offers_eq_zero
    intro source hsource
    obtain ⟨auto, -, -, rfl⟩ := (World.mem_autoSources_iff _).mp hsource
    exact ⟨_, _, _, _, rfl⟩
  have hthrough : decl.offers ((program.atRest context).through name (context.clausesAt id)).2 ≤
      if context.refersTo decl id then 1 else 0 := offers_through_le _
  have himports : decl.offers ((program.atRest context).imports id name) ≤
      if context.refersTo decl id then 1 else 0 := by
    cases hclosed : ((program.atRest context).through name (context.clausesAt id)).1 with
    | true =>
      rw [World.imports_of_closed _ hclosed]
      exact hthrough
    | false =>
      rw [World.imports_of_open _ hclosed, Decl.offers_append, hauto]
      exact hthrough
  rw [World.sources, Decl.offers_append]
  apply Nat.add_le_add
  · cases decls with
    | false => exact Nat.zero_le _
    | true => exact hdeclared
  · cases imports with
    | false => exact Nat.zero_le _
    | true => exact himports

end Sound

end Context

end Scoping
