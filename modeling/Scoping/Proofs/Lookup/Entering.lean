import Scoping.Proofs.Lookup.Trail

/-!
Which scopes a walk enters, and as what: for their declarations or not, and under
which name. Each is entered once, so what a walk reports is decided by the source
that comes to a scope first. Walks are deterministic, and what holds of their sources
holds of all that they come to if entering a scope keeps it.
-/

namespace Scoping.World

variable {world : World} {innermost : Bool} {entered entered' : List ScopeId}
variable {pending pending' : List Source} {found : List Overloads}
variable {decls imports : Bool} {id : ScopeId} {name : Name}

/-- Whether a search through some sources comes to a scope that has not been entered,
by a source of the given kind. A search that stops at the first set comes to nothing
beyond it. -/
def Enters (world : World) (innermost : Bool) (entered : List ScopeId) (pending : List Source)
    (decls imports : Bool) (id : ScopeId) (name : Name) : Prop :=
  ∃ found reached rest,
    world.Walks entered pending found reached (.scope decls imports id name :: rest) ∧
      id ∉ reached ∧ (innermost = true → found = [])

namespace Enters

theorem head (hid : id ∉ entered) :
    world.Enters innermost entered (.scope decls imports id name :: pending) decls imports id
      name :=
  ⟨[], entered, pending, .refl _ _, hid, fun _ => rfl⟩

theorem set (hall : innermost = false) {overloads : Overloads}
    (henters : world.Enters innermost entered pending decls imports id name) :
    world.Enters innermost entered (.set overloads :: pending) decls imports id name := by
  obtain ⟨found, reached, rest, hwalk, hid, -⟩ := henters
  exact ⟨overloads :: found, reached, rest, .set hwalk, hid, fun hstop => by simp [hall] at hstop⟩

theorem seen {decls' imports' : Bool} {other : ScopeId} {name' : Name} (hother : other ∈ entered)
    (henters : world.Enters innermost entered pending decls imports id name) :
    world.Enters innermost entered (.scope decls' imports' other name' :: pending)
      decls imports id name := by
  obtain ⟨found, reached, rest, hwalk, hid, hfound⟩ := henters
  exact ⟨found, reached, rest, .seen hother hwalk, hid, hfound⟩

theorem enter {decls' imports' : Bool} {other : ScopeId} {name' : Name} (hother : other ∉ entered)
    (henters : world.Enters innermost (other :: entered)
      (world.sources decls' imports' other name' ++ pending) decls imports id name) :
    world.Enters innermost entered (.scope decls' imports' other name' :: pending)
      decls imports id name := by
  obtain ⟨found, reached, rest, hwalk, hid, hfound⟩ := henters
  exact ⟨found, reached, rest, .enter hother hwalk, hid, hfound⟩

/-- What is entered was led to by one of the sources. -/
theorem ledTo (henters : world.Enters innermost entered pending decls imports id name) :
    world.LedTo pending (.scope decls imports id name) := by
  obtain ⟨found, reached, rest, hwalk, -, -⟩ := henters
  exact hwalk.ledTo List.mem_cons_self

end Enters

namespace Walks

/-- What holds of the sources holds of whatever a walk comes to, if it is passed on by
each scope that the walk enters. -/
theorem carries {p : Source → Prop}
    (hwalk : world.Walks entered pending found entered' pending')
    (hpending : ∀ source ∈ pending, p source)
    (hopens : ∀ decls imports id name, world.Enters false entered pending decls imports id name →
      p (.scope decls imports id name) →
      ∀ source ∈ world.sources decls imports id name, p source) :
    (∀ overloads ∈ found, p (.set overloads)) ∧ ∀ source ∈ pending', p source := by
  induction hwalk with
  | refl => exact ⟨nofun, hpending⟩
  | set _ ih =>
    obtain ⟨hset, hrest⟩ := List.forall_mem_cons.mp hpending
    obtain ⟨hfound, hlast⟩ := ih hrest fun _ _ _ _ henters => hopens _ _ _ _ (henters.set rfl)
    exact ⟨List.forall_mem_cons.mpr ⟨hset, hfound⟩, hlast⟩
  | seen hid _ ih =>
    exact ih (List.forall_mem_cons.mp hpending).2
      fun _ _ _ _ henters => hopens _ _ _ _ (henters.seen hid)
  | enter hid _ ih =>
    obtain ⟨hscope, hrest⟩ := List.forall_mem_cons.mp hpending
    refine ih (fun source hsource => ?_) fun _ _ _ _ henters => hopens _ _ _ _ (henters.enter hid)
    rcases List.mem_append.mp hsource with hopened | hlater
    · exact hopens _ _ _ _ (.head hid) hscope source hopened
    · exact hrest source hlater

/-- What a walk to the end had before it has been dealt with. -/
theorem pending_done (hwalk : world.Walks entered pending found entered' [])
    {source : Source} (hsource : source ∈ pending) : Done entered' found source := by
  obtain ⟨trail, htrail⟩ := hwalk.trails rfl
  exact htrail.pending_done source hsource

/-- Whatever a walk has entered, it came to by some source. -/
theorem exists_enters (hwalk : world.Walks entered pending found entered' pending')
    (hfound : innermost = true → found = []) (hid : id ∈ entered') (hnew : id ∉ entered) :
    ∃ decls imports name, world.Enters innermost entered pending decls imports id name := by
  induction hwalk with
  | refl => exact absurd hid hnew
  | set _ ih =>
    have hall : innermost = false := Bool.eq_false_iff.mpr fun hstop => by cases hfound hstop
    obtain ⟨decls, imports, name, henters⟩ := ih (fun hstop => by simp [hall] at hstop) hid hnew
    exact ⟨decls, imports, name, henters.set hall⟩
  | seen hseen _ ih =>
    obtain ⟨decls, imports, name, henters⟩ := ih hfound hid hnew
    exact ⟨decls, imports, name, henters.seen hseen⟩
  | @enter _ _ _ _ _ decls imports other name hother _ ih =>
    by_cases heq : id = other
    · subst heq
      exact ⟨decls, imports, name, .head hother⟩
    · obtain ⟨decls', imports', name', henters⟩ := ih hfound hid (by simp [heq, hnew])
      exact ⟨decls', imports', name', henters.enter hother⟩

/-- Of two walks from the same sources, one goes on where the other one stops. -/
theorem linear {reached reached' : List ScopeId} {left left' : List Source}
    {more : List Overloads} (hfirst : world.Walks entered pending found reached left)
    (hsecond : world.Walks entered pending more reached' left') :
    (∃ rest, more = found ++ rest ∧ world.Walks reached left rest reached' left') ∨
      ∃ rest, found = more ++ rest ∧ world.Walks reached' left' rest reached left := by
  induction hfirst generalizing more with
  | refl => exact .inl ⟨more, rfl, hsecond⟩
  | @set _ _ _ _ _ overloads hrest ih =>
    cases hsecond with
    | refl => exact .inr ⟨_, rfl, .set hrest⟩
    | set hother =>
      rcases ih hother with ⟨rest, rfl, hgoes⟩ | ⟨rest, rfl, hgoes⟩
      · exact .inl ⟨rest, rfl, hgoes⟩
      · exact .inr ⟨rest, rfl, hgoes⟩
  | seen hid hrest ih =>
    cases hsecond with
    | refl => exact .inr ⟨_, rfl, .seen hid hrest⟩
    | seen _ hother => exact ih hother
    | enter hnew _ => exact absurd hid hnew
  | enter hnew hrest ih =>
    cases hsecond with
    | refl => exact .inr ⟨_, rfl, .enter hnew hrest⟩
    | seen hid _ => exact absurd hid hnew
    | enter _ hother => exact ih hother

/-- Past its last source a walk does nothing. -/
theorem eq_of_nil (hwalk : world.Walks entered [] found entered' pending') :
    found = [] ∧ entered' = entered ∧ pending' = [] := by
  cases hwalk
  exact ⟨rfl, rfl, rfl⟩

end Walks

theorem Done.mono {more : List Overloads} {source : Source} (hdone : Done entered found source)
    (hsubset : found ⊆ more) : Done entered more source := by
  cases source with
  | set overloads => exact hsubset hdone
  | scope decls imports id name => exact hdone

/-- By the end of a walk, all that an entered scope leads to has been dealt with. -/
theorem Enters.done (henters : world.Enters innermost entered pending decls imports id name)
    (hwalk : world.Walks entered pending found entered' []) :
    id ∈ entered' ∧ ∀ source ∈ world.sources decls imports id name, Done entered' found source := by
  obtain ⟨sets, reached, rest, hreaches, hid, -⟩ := henters
  rcases hreaches.linear hwalk with ⟨more, rfl, hgoes⟩ | ⟨_, -, hgoes⟩
  · cases hgoes with
    | seen hmem _ => exact absurd hmem hid
    | enter _ hrest =>
      refine ⟨hrest.subset List.mem_cons_self, fun source hsource => ?_⟩
      exact (hrest.pending_done (List.mem_append_left _ hsource)).mono
        (List.subset_append_right _ _)
  · cases hgoes.eq_of_nil.2.2

/-- What a search yields is determined by its sources. -/
theorem Yields.unique {more : List Overloads} {reached : List ScopeId}
    (hfirst : world.Yields innermost entered pending found entered')
    (hsecond : world.Yields innermost entered pending more reached) :
    found = more ∧ entered' = reached := by
  -- a walk that stands before a set has not come to the end
  have hapart : ∀ {middle last : List ScopeId} {first : Overloads} {rest : List Source},
      world.Walks entered pending [] middle (.set first :: rest) →
      world.Walks entered pending [] last [] → False := by
    intro middle last first rest hstops hends
    rcases hstops.linear hends with ⟨sets, hsets, hgoes⟩ | ⟨_, -, hgoes⟩
    · obtain rfl : sets = [] := by simpa using hsets.symm
      cases hgoes
    · cases hgoes.eq_of_nil.2.2
  unfold Yields at hfirst hsecond
  split at hfirst
  · next hstop =>
    obtain ⟨first, rest, rfl, hwalk⟩ := hfirst
    obtain ⟨hinnermost, -⟩ := Bool.and_eq_true _ _ ▸ hstop
    split at hsecond
    · obtain ⟨second, others, rfl, hother⟩ := hsecond
      rcases hwalk.linear hother with ⟨sets, hsets, hgoes⟩ | ⟨sets, hsets, hgoes⟩ <;>
      · obtain rfl : sets = [] := by simpa using hsets.symm
        cases hgoes
        exact ⟨rfl, rfl⟩
    · next hgoes =>
      obtain rfl : more = [] := by simpa [hinnermost] using hgoes
      exact (hapart hwalk hsecond).elim
  · next hgoes =>
    split at hsecond
    · next hstop =>
      obtain ⟨second, others, rfl, hother⟩ := hsecond
      obtain ⟨hinnermost, -⟩ := Bool.and_eq_true _ _ ▸ hstop
      obtain rfl : found = [] := by simpa [hinnermost] using hgoes
      exact (hapart hother hfirst).elim
    · rcases hfirst.linear hsecond with ⟨rest, rfl, hrest⟩ | ⟨rest, rfl, hrest⟩ <;>
      · obtain ⟨rfl, rfl, -⟩ := hrest.eq_of_nil
        simp

/-- A search that is to stop at the first set, and finds none, goes through to the end. -/
theorem Yields.walks_of_nil (hyields : world.Yields innermost entered pending found entered')
    (hnone : innermost = true → found = []) : world.Walks entered pending found entered' [] := by
  cases innermost with
  | false => exact hyields
  | true =>
    obtain rfl := hnone rfl
    exact hyields

/-- A search for every set yields what a walk to the end reports. -/
theorem Walks.yields (hwalk : world.Walks entered pending found entered' [])
    (hall : innermost = false) : world.Yields innermost entered pending found entered' := by
  subst hall
  exact hwalk

/-- A search that is to stop at the first set yields one at most. -/
theorem Yields.length_le (hyields : world.Yields innermost entered pending found entered')
    (hstop : innermost = true) : found.length ≤ 1 := by
  subst hstop
  cases found with
  | nil => exact Nat.zero_le 1
  | cons set sets =>
    obtain ⟨first, rest, hfound, -⟩ := hyields
    rw [hfound, List.length_singleton]

/-- Whatever a search has entered, it came to by some source. -/
theorem Yields.exists_enters (hyields : world.Yields innermost entered pending found entered')
    (hid : id ∈ entered') (hnew : id ∉ entered) :
    ∃ decls imports name, world.Enters innermost entered pending decls imports id name := by
  unfold Yields at hyields
  split at hyields
  · obtain ⟨first, rest, -, hwalk⟩ := hyields
    exact hwalk.exists_enters (fun _ => rfl) hid hnew
  · next hgoes =>
    exact Walks.exists_enters hyields (fun hstop => by simpa [hstop] using hgoes) hid hnew

end Scoping.World
