import Scoping.Proofs.Lookup.Search

/-!
A search that stops at the first match goes the way of the exhaustive search up to
there: it finds the first set of all that the other one finds, and the same if that is
nothing. What would have been found later has no part in it.
-/

namespace Scoping

open Context Resolve

namespace Search

variable {α β : Type} {sets : α → List Overloads} {stop : Overloads → α}

/-- Whether a search stops where another one finds its first set. -/
def StopsBy (sets : α → List Overloads) (stop : Overloads → α) (first all : Search α) : Prop :=
  ∀ entered context value last later, all entered context = some ((value, last), later) →
    match sets value with
    | [] => first entered context = some ((value, last), later)
    | set :: _ => ∃ reached middle, first entered context = some ((stop set, reached), middle)

/-- Whether a search finds the first set of another one. -/
abbrev Stops (first all : Search (List Overloads)) : Prop :=
  StopsBy (fun found => found) (fun set => [set]) first all

/-- The same for searches that also tell whether they are to be the last. -/
abbrev StopsAmong (first all : Search (Bool × List Overloads)) : Prop :=
  StopsBy Prod.snd (fun set => (true, [set])) first all

/-- A search for one set at most has nothing after its first find. -/
theorem stops_of_length_le {search : Search (List Overloads)}
    (hle : ∀ entered context found last later,
      search entered context = some ((found, last), later) → found.length ≤ 1) :
    search.Stops search := by
  intro entered context found last later hrun
  have hfound := hle entered context found last later hrun
  cases found with
  | nil => exact hrun
  | cons set more =>
    obtain rfl : more = [] := by simpa using hfound
    exact ⟨last, later, hrun⟩

theorem stops_nothing : Stops (return []) (return []) := by
  refine stops_of_length_le fun entered context found last later hrun => ?_
  cases hrun
  exact Nat.zero_le 1

theorem run_bind {first : Search α} {next : α → Search β} {entered further : List ScopeId}
    {context later : Context} {value : α}
    (hrun : first entered context = some ((value, further), later)) :
    (first >>= next) entered context = next value further later := by
  rw [bind_run]
  change (first entered context).bind _ = _
  rw [hrun, Option.bind_some]

/-- A step in common. -/
theorem StopsBy.after (step : Search β) {first all : β → Search α}
    (hnext : ∀ value, StopsBy sets stop (first value) (all value)) :
    StopsBy sets stop (step >>= first) (step >>= all) := by
  intro entered context value last later hrun
  obtain ⟨known, further, middle, hstep, hmore⟩ := bind_run_eq_some_iff.mp hrun
  rw [run_bind hstep]
  exact hnext known further middle value last later hmore

/-- One search and then the others, unless the one is enough. -/
theorem StopsBy.andThen {first all : Search (List Overloads)} {firsts alls : Search α}
    (leave : List Overloads → α) (add : List Overloads → α → α)
    (hfirst : first.Stops all) (hrest : StopsBy sets stop firsts alls)
    (hleave : ∀ set, leave [set] = stop set) (hnil : ∀ value, add [] value = value)
    (hsets : ∀ found value, sets (add found value) = found ++ sets value) :
    StopsBy sets stop
      (do let found ← first
          if true && !found.isEmpty then return leave found
          let more ← firsts
          return add found more)
      (do let found ← all
          if false && !found.isEmpty then return leave found
          let more ← alls
          return add found more) := by
  intro entered context value last later hrun
  obtain ⟨found, further, middle, hfound, hmore⟩ := bind_run_eq_some_iff.mp hrun
  obtain ⟨more, further', middle', hothers, hdone⟩ := bind_run_eq_some_iff.mp hmore
  cases hdone
  have hstops := hfirst entered context found further middle hfound
  cases found with
  | cons set others =>
    obtain ⟨reached, stopped, hstop⟩ := hstops
    rw [hsets]
    exact ⟨reached, stopped, by rw [run_bind hstop, ← hleave]; rfl⟩
  | nil =>
    rw [hnil, run_bind hstops]
    simp only [List.isEmpty_nil, Bool.not_true, Bool.and_false, Bool.false_eq_true, if_false, hnil,
      bind_pure]
    exact hrest further middle more last later hothers

theorem declarations_stops (id : ScopeId) (name : Name) :
    (declarations id name).Stops (declarations id name) := by
  refine stops_of_length_le fun entered context found last later hrun => ?_
  cases hrun
  unfold Scope.lookup
  cases (context.scope id).declared.get? name <;> simp

theorem Stops.enter {first all : Search (List Overloads)} (id : ScopeId)
    (hinside : first.Stops all) : (Search.enter id first).Stops (Search.enter id all) := by
  intro entered context found last later hrun
  rw [enter_run] at hrun ⊢
  split at hrun
  · next hseen =>
    cases hrun
    show (if id ∈ entered then _ else _ : Resolve _) context = _
    rw [if_pos hseen]
    rfl
  · next hseen =>
    rw [if_neg hseen]
    exact hinside _ context found last later hrun

theorem Stops.gate {first all : Search (List Overloads)} (condition : Bool)
    (hsearch : first.Stops all) : (gate condition first).Stops (gate condition all) := by
  cases condition with
  | false => exact stops_nothing
  | true => exact hsearch

theorem Stops.collect {firsts alls : List (Search (List Overloads))}
    (hall : List.Forall₂ Stops firsts alls) : (collect true firsts).Stops (collect false alls) := by
  induction hall with
  | nil => exact stops_nothing
  | cons hfirst _ ih =>
    exact StopsBy.andThen (fun found => found) (fun found more => found ++ more) hfirst ih
      (fun _ => rfl) List.nil_append fun _ _ => rfl

theorem Stops.throughClauses {first all : ScopeId → Name → Search (List Overloads)}
    (hcontents : ∀ target actual, (first target actual).Stops (all target actual)) (name : Name)
    (clauses : List Clause) :
    (throughClauses true first name clauses).StopsAmong
      (throughClauses false all name clauses) := by
  induction clauses with
  | nil =>
    intro entered context value last later hrun
    cases hrun
    rfl
  | cons clause rest ih =>
    rw [Search.throughClauses, Search.throughClauses]
    cases clause.route name with
    | blocked => exact ih
    | symbol =>
      refine .after _ fun scope => ?_
      cases scope.owner with
      | none => exact ih
      | some owner =>
        intro entered context value last later hrun
        cases hrun
        exact ⟨_, _, rfl⟩
    | contents actual =>
      exact StopsBy.andThen (fun found => (true, found))
        (fun found more => (more.1, found ++ more.2)) (hcontents clause.target actual) ih
        (fun _ => rfl) (fun _ => rfl) fun _ _ => rfl

end Search

namespace Program

variable {program : Program} {view : ClauseView}

theorem searchAuto_stops {first all : ScopeId → Name → Search (List Overloads)}
    (hcontents : ∀ target actual, (first target actual).Stops (all target actual)) (id : ScopeId)
    (name : Name) :
    (program.searchAuto first id name).Stops (program.searchAuto all id name) := by
  refine .after _ fun scope => ?_
  cases scope.autoUses with
  | false => exact Search.stops_nothing
  | true =>
    refine .after _ fun auto => ?_
    cases auto with
    | none => exact Search.stops_nothing
    | some auto => exact hcontents auto name

theorem searchImports_stops {first all : ScopeId → Name → Search (List Overloads)}
    (hcontents : ∀ target actual, (first target actual).Stops (all target actual)) (id : ScopeId)
    (name : Name) :
    (program.searchImports view true first id name).Stops
      (program.searchImports view false all id name) := by
  rw [searchImports_eq, searchImports_eq]
  refine .after _ fun clauses => ?_
  intro entered context found last later hrun
  obtain ⟨⟨closed, sets⟩, further, middle, hsets, hmore⟩ := Search.bind_run_eq_some_iff.mp hrun
  have hstops := Search.Stops.throughClauses hcontents name clauses entered context (closed, sets)
    further middle hsets
  dsimp only at hmore
  cases sets with
  | cons set sets =>
    obtain ⟨reached, stopped, hstop⟩ := hstops
    have hhead : ∃ more, found = set :: more := by
      split at hmore
      · cases hmore
        exact ⟨sets, rfl⟩
      · obtain ⟨more, further', middle', -, hdone⟩ := Search.bind_run_eq_some_iff.mp hmore
        cases hdone
        exact ⟨sets ++ more, rfl⟩
    obtain ⟨more, rfl⟩ := hhead
    exact ⟨reached, stopped, by rw [Search.run_bind hstop]; rfl⟩
  | nil =>
    rw [Search.run_bind hstops]
    cases closed with
    | true =>
      cases hmore
      rfl
    | false =>
      simp only [Bool.false_eq_true, if_false, List.nil_append, bind_pure] at hmore ⊢
      exact searchAuto_stops hcontents id name further middle found last later hmore

theorem searchLevel_stops (fuel : Nat) (decls imports : Bool) (id : ScopeId) (name : Name) :
    (program.searchLevel view true fuel decls imports id name).Stops
      (program.searchLevel view false fuel decls imports id name) := by
  induction fuel generalizing decls imports id name with
  | zero =>
    intro entered context found last later hrun
    cases hrun
  | succ fuel ih =>
    refine .collect (.cons (.gate decls (Search.declarations_stops id name)) (.cons ?_ .nil))
    exact .gate imports
      (searchImports_stops (fun target actual => .enter target (ih true true target actual)) id name)

theorem searchToplevel_stops (name : Name) :
    (program.searchToplevel name).Stops (program.searchToplevel name) := by
  unfold searchToplevel
  refine Search.stops_of_length_le fun entered context found last later hrun => ?_
  cases htop : program.tree.toplevel? name with
  | some id =>
    rw [htop] at hrun
    cases hrun
    exact le_rfl
  | none =>
    rw [htop] at hrun
    cases hrun
    exact Nat.zero_le 1

/-- With the flag set, a search finds the first of the sets that it finds without. -/
theorem search_stops (config : LookupConfig) (id : ScopeId) (name : Name) :
    (program.search view { config with innermost := true } id name).Stops
      (program.search view { config with innermost := false } id name) := by
  refine Search.Stops.enter id (.after _ fun context => ?_)
  have hlevel : ∀ decls outer,
      (program.searchLevel view true program.depth decls config.imports outer name).Stops
        (program.searchLevel view false program.depth decls config.imports outer name) :=
    fun decls outer => searchLevel_stops program.depth decls config.imports outer name
  refine Search.Stops.collect (List.rel_append (.cons (hlevel _ _) ?_) (.cons ?_ .nil))
  · refine List.forall₂_map_left_iff.mpr (List.forall₂_map_right_iff.mpr (List.forall₂_same.mpr ?_))
    exact fun outer _ => .enter outer (hlevel true outer)
  · exact .gate _ (searchToplevel_stops name)

end Program

end Scoping
