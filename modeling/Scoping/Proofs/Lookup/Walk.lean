import Scoping.Lookup.Search
import Scoping.Proofs.Context.Growth

/-!
A search in a context that no longer changes, as a walk over a stack. What is
still to be searched is a list of sources; the walk takes the first of them,
reports the set that it is or puts what it leads to in its place. The scopes that
have been entered are remembered, and an entered scope leads nowhere.
-/

namespace Scoping

/-- What a search reads: the scopes, their clauses and the automatic module. -/
structure World where
  scope : ScopeId → Scope
  clauses : ScopeId → List Clause
  auto : Option ScopeId

/-- What is left to search. -/
inductive Source where
  /-- A set to be reported. -/
  | set (overloads : Overloads)
  /-- A name in a scope: among its declarations, through its clauses, or both. -/
  | scope (decls imports : Bool) (id : ScopeId) (name : Name)

namespace World

variable (world : World)

/-- Where clauses lead for a name, and whether one of them ends the search. -/
def through (name : Name) : List Clause → Bool × List Source
  | [] => (false, [])
  | clause :: rest =>
    match clause.route name with
    | .blocked => through name rest
    | .symbol =>
      match (world.scope clause.target).owner with
      | some owner => (true, [.set (.single (.node owner))])
      | none => through name rest
    | .contents actual =>
      ((through name rest).1, .scope true true clause.target actual :: (through name rest).2)

/-- Where the automatic module leads for a name, where a scope sees it. -/
def autoSources (id : ScopeId) (name : Name) : List Source :=
  if (world.scope id).autoUses then
    (world.auto.map fun auto => .scope true true auto name).toList
  else []

theorem mem_autoSources_iff {id : ScopeId} {name : Name} {source : Source} :
    source ∈ world.autoSources id name ↔
      ∃ auto, (world.scope id).autoUses = true ∧ world.auto = some auto ∧
        source = .scope true true auto name := by
  rw [autoSources]
  constructor
  · intro hsource
    split at hsource
    · next huses =>
      obtain ⟨auto, hauto, rfl⟩ := Option.map_eq_some_iff.mp (Option.mem_toList.mp hsource)
      exact ⟨auto, huses, hauto, rfl⟩
    · cases hsource
  · rintro ⟨auto, huses, hauto, rfl⟩
    rw [if_pos huses, hauto]
    exact List.mem_singleton.mpr rfl

/-- Where a name leads out of a scope: through its clauses, then through the
automatic module unless a clause ended the search. -/
def imports (id : ScopeId) (name : Name) : List Source :=
  let led := world.through name (world.clauses id)
  if led.1 then led.2 else led.2 ++ world.autoSources id name

theorem imports_of_closed {id : ScopeId} {name : Name}
    (hclosed : (world.through name (world.clauses id)).1 = true) :
    world.imports id name = (world.through name (world.clauses id)).2 := if_pos hclosed

theorem imports_of_open {id : ScopeId} {name : Name}
    (hopen : (world.through name (world.clauses id)).1 = false) :
    world.imports id name =
      (world.through name (world.clauses id)).2 ++ world.autoSources id name := by
  rw [imports, hopen]
  exact if_neg Bool.false_ne_true

/-- What a clause among those listed leads to for a name: its contents, or the
node that its target belongs to. -/
inductive Brings (name : Name) (clauses : List Clause) : Source → Prop
  | contents {clause : Clause} {actual : Name} (hclause : clause ∈ clauses)
    (hroute : clause.route name = .contents actual) :
    Brings name clauses (.scope true true clause.target actual)
  | symbol {clause : Clause} {owner : NodeId} (hclause : clause ∈ clauses)
    (hroute : clause.route name = .symbol)
    (howner : (world.scope clause.target).owner = some owner) :
    Brings name clauses (.set (.single (.node owner)))

variable {world} in
theorem Brings.cons {name : Name} {clauses : List Clause} {source : Source}
    (hbrings : world.Brings name clauses source) (clause : Clause) :
    world.Brings name (clause :: clauses) source := by
  cases hbrings with
  | contents hclause hroute => exact .contents (List.mem_cons_of_mem _ hclause) hroute
  | symbol hclause hroute howner =>
    exact .symbol (List.mem_cons_of_mem _ hclause) hroute howner

theorem brings_of_mem_through {name : Name} {clauses : List Clause} {source : Source}
    (hsource : source ∈ (world.through name clauses).2) : world.Brings name clauses source := by
  induction clauses with
  | nil => cases hsource
  | cons clause rest ih =>
    rw [through] at hsource
    cases hroute : clause.route name with
    | blocked =>
      rw [hroute] at hsource
      exact (ih hsource).cons clause
    | symbol =>
      rw [hroute] at hsource
      cases howner : (world.scope clause.target).owner with
      | none =>
        simp only [howner] at hsource
        exact (ih hsource).cons clause
      | some owner =>
        simp only [howner] at hsource
        rw [List.mem_singleton.mp hsource]
        exact .symbol List.mem_cons_self hroute howner
    | contents actual =>
      rw [hroute] at hsource
      rcases List.mem_cons.mp hsource with rfl | hrest
      · exact .contents List.mem_cons_self hroute
      · exact (ih hrest).cons clause

theorem brings_or_auto_of_mem_imports {id : ScopeId} {name : Name} {source : Source}
    (hsource : source ∈ world.imports id name) :
    world.Brings name (world.clauses id) source ∨ source ∈ world.autoSources id name := by
  cases hclosed : (world.through name (world.clauses id)).1 with
  | true =>
    rw [world.imports_of_closed hclosed] at hsource
    exact .inl (world.brings_of_mem_through hsource)
  | false =>
    rw [world.imports_of_open hclosed] at hsource
    exact (List.mem_append.mp hsource).imp_left world.brings_of_mem_through

/-- What a scope leads to. -/
def sources (decls imports : Bool) (id : ScopeId) (name : Name) : List Source :=
  (if decls then ((world.scope id).lookup name).map .set else []) ++
    if imports then world.imports id name else []

/-- A walk: from the entered scopes and the sources before it, past the sets it
reports, to the entered scopes and the sources after it. -/
inductive Walks : List ScopeId → List Source → List Overloads → List ScopeId → List Source → Prop
  | refl (entered : List ScopeId) (pending : List Source) :
    Walks entered pending [] entered pending
  | set {entered entered' : List ScopeId} {pending pending' : List Source}
    {found : List Overloads} {overloads : Overloads}
    (hrest : Walks entered pending found entered' pending') :
    Walks entered (.set overloads :: pending) (overloads :: found) entered' pending'
  | seen {entered entered' : List ScopeId} {pending pending' : List Source}
    {found : List Overloads} {decls imports : Bool} {id : ScopeId} {name : Name}
    (hid : id ∈ entered) (hrest : Walks entered pending found entered' pending') :
    Walks entered (.scope decls imports id name :: pending) found entered' pending'
  | enter {entered entered' : List ScopeId} {pending pending' : List Source}
    {found : List Overloads} {decls imports : Bool} {id : ScopeId} {name : Name}
    (hid : id ∉ entered)
    (hrest : Walks (id :: entered) (world.sources decls imports id name ++ pending) found
      entered' pending') :
    Walks entered (.scope decls imports id name :: pending) found entered' pending'

namespace Walks

variable {world} {entered middle entered' : List ScopeId}
variable {pending between pending' extra : List Source} {found more : List Overloads}

theorem trans (hfirst : world.Walks entered pending found middle between)
    (hsecond : world.Walks middle between more entered' pending') :
    world.Walks entered pending (found ++ more) entered' pending' := by
  induction hfirst with
  | refl => exact hsecond
  | set _ ih => exact .set (ih hsecond)
  | seen hid _ ih => exact .seen hid (ih hsecond)
  | enter hid _ ih => exact .enter hid (ih hsecond)

/-- Sources further down the stack are left alone. -/
theorem append (hwalk : world.Walks entered pending found entered' pending') :
    world.Walks entered (pending ++ extra) found entered' (pending' ++ extra) := by
  induction hwalk with
  | refl => exact .refl _ _
  | set _ ih => exact .set ih
  | seen hid _ ih => exact .seen hid ih
  | enter hid _ ih =>
    rw [List.append_assoc] at ih
    exact .enter hid ih

theorem subset (hwalk : world.Walks entered pending found entered' pending') :
    entered ⊆ entered' := by
  induction hwalk with
  | refl => exact List.Subset.refl _
  | set _ ih => exact ih
  | seen _ _ ih => exact ih
  | enter _ _ ih => exact List.Subset.trans (List.subset_cons_self _ _) ih

end Walks

/-- What a search through some sources yields: with `innermost` it stops at the
first set, otherwise it goes through to the end. -/
def Yields (innermost : Bool) (entered : List ScopeId) (pending : List Source)
    (found : List Overloads) (entered' : List ScopeId) : Prop :=
  if innermost && !found.isEmpty then
    ∃ first rest, found = [first] ∧ world.Walks entered pending [] entered' (.set first :: rest)
  else world.Walks entered pending found entered' []

namespace Yields

variable {world} {innermost : Bool} {entered middle entered' : List ScopeId}
variable {pending others : List Source} {found more : List Overloads}

theorem nil : world.Yields innermost entered [] [] entered := by
  simpa [Yields] using Walks.refl entered []

theorem set {overloads : Overloads} :
    world.Yields innermost entered [.set overloads] [overloads] entered := by
  cases innermost with
  | false => exact .set (.refl _ _)
  | true => exact ⟨overloads, [], rfl, .refl _ _⟩

theorem seen {decls imports : Bool} {id : ScopeId} {name : Name} (hid : id ∈ entered) :
    world.Yields innermost entered [.scope decls imports id name] [] entered := by
  simpa [Yields] using Walks.seen hid (.refl entered [])

theorem enter {decls imports : Bool} {id : ScopeId} {name : Name} (hid : id ∉ entered)
    (hyields : world.Yields innermost (id :: entered)
      (world.sources decls imports id name ++ pending) found entered') :
    world.Yields innermost entered (.scope decls imports id name :: pending) found entered' := by
  unfold Yields at hyields ⊢
  split
  · next hstop =>
    rw [if_pos hstop] at hyields
    obtain ⟨first, rest, hfound, hwalk⟩ := hyields
    exact ⟨first, rest, hfound, .enter hid hwalk⟩
  · next hstop =>
    rw [if_neg hstop] at hyields
    exact .enter hid hyields

/-- A search that found what it was after does not ask the other sources. -/
theorem stop (hstop : (innermost && !found.isEmpty) = true)
    (hyields : world.Yields innermost entered pending found entered') :
    world.Yields innermost entered (pending ++ others) found entered' := by
  unfold Yields at hyields ⊢
  rw [if_pos hstop] at hyields ⊢
  obtain ⟨first, rest, hfound, hwalk⟩ := hyields
  exact ⟨first, rest ++ others, hfound, hwalk.append⟩

/-- Otherwise it goes on with them. -/
theorem append (hgoes : ¬ (innermost && !found.isEmpty) = true)
    (hfirst : world.Yields innermost entered pending found middle)
    (hsecond : world.Yields innermost middle others more entered') :
    world.Yields innermost entered (pending ++ others) (found ++ more) entered' := by
  have hwalk : world.Walks entered (pending ++ others) found middle others := by
    have hwalk : world.Walks entered pending found middle [] := by
      rwa [Yields, if_neg hgoes] at hfirst
    exact hwalk.append
  cases innermost with
  | false => exact hwalk.trans hsecond
  | true =>
    obtain rfl : found = [] := by simpa using hgoes
    unfold Yields at hsecond ⊢
    rw [List.nil_append]
    split
    · next hstop =>
      rw [if_pos hstop] at hsecond
      obtain ⟨first, rest, hfound, hrest⟩ := hsecond
      exact ⟨first, rest, hfound, hwalk.trans hrest⟩
    · next hstop =>
      rw [if_neg hstop] at hsecond
      exact hwalk.trans hsecond

/-- Without `innermost` a search goes through all its sources. -/
theorem walks (hyields : world.Yields false entered pending found entered') :
    world.Walks entered pending found entered' [] := hyields

end Yields

end World

end Scoping
