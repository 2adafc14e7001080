import Scoping.Proofs.Context.Mirrors
import Scoping.Proofs.Lookup.Entering

/-!
A walk that goes on where another walk has been, beside the same walk on its own. The
scopes of the other walk are skipped. As long as what they would have led to has been
dealt with by the other walk, nothing else changes: the same scopes are entered, and
the sets that are missing are among those that the other walk reported.
-/

namespace Scoping.World

variable {world : World} {innermost : Bool} {before : List ScopeId} {sets : List Overloads}
variable {entered entered' resumed : List ScopeId} {pending pending' left : List Source}
variable {found : List Overloads}

/-- Two walks side by side, of which the second goes on where another walk has been:
it has entered the scopes of both, and lacks sources that the other walk dealt with. -/
structure Resumes (before : List ScopeId) (sets : List Overloads) (entered : List ScopeId)
    (pending : List Source) (resumed : List ScopeId) (left : List Source) : Prop where
  entered : ∀ id, id ∈ resumed ↔ id ∈ entered ∨ id ∈ before
  pending : Padded Eq (Done before sets) left pending

namespace Resumes

theorem start (sources : List Source) : Resumes before sets [] sources before sources where
  entered id := by simp
  pending := .refl (fun _ => rfl) sources

/-- The other walk has dealt with everything already. -/
theorem start_of_done (hdone : ∀ source ∈ pending, Done before sets source) :
    Resumes before sets [] pending before [] where
  entered id := by simp
  pending := .of_spare hdone

/-- A scope that the other walk has entered adds nothing new. -/
theorem skip {id : ScopeId} {opened : List Source} (hid : id ∈ before)
    (hopened : ∀ source ∈ opened, Done before sets source)
    (hresumes : Resumes before sets entered pending resumed left) :
    Resumes before sets (id :: entered) (opened ++ pending) resumed left where
  entered other := by
    rw [hresumes.entered, List.mem_cons]
    constructor
    · exact Or.imp_left .inr
    · rintro ((rfl | hold) | hother)
      · exact .inr hid
      · exact .inl hold
      · exact .inr hother
  pending := (Padded.of_spare hopened).append hresumes.pending

/-- A scope that neither walk has entered adds the same to both. -/
theorem enter {id : ScopeId} (opened : List Source)
    (hresumes : Resumes before sets entered pending resumed left) :
    Resumes before sets (id :: entered) (opened ++ pending) (id :: resumed) (opened ++ left) where
  entered other := by rw [List.mem_cons, List.mem_cons, hresumes.entered, or_assoc]
  pending := (Padded.refl (fun _ => rfl) opened).append hresumes.pending

end Resumes

/-- The induction is on the walk on its own; the resumed one does the same or, where the
other walk has been, nothing. -/
theorem Walks.resumes (hwalk : world.Walks entered pending found entered' pending')
    (hresumes : Resumes before sets entered pending resumed left)
    (hdone : ∀ decls imports id name, world.Enters innermost entered pending decls imports id name →
      id ∈ before → ∀ source ∈ world.sources decls imports id name, Done before sets source)
    (hfound : innermost = true → found = []) :
    ∃ more resumed' left', world.Walks resumed left more resumed' left' ∧
      Padded Eq (· ∈ sets) more found ∧
      Resumes before sets entered' pending' resumed' left' := by
  induction hwalk generalizing resumed left with
  | refl => exact ⟨[], resumed, left, .refl _ _, .nil, hresumes⟩
  | @set _ _ _ _ _ overloads _ ih =>
    obtain ⟨hentered, hpending⟩ := hresumes
    have hall : innermost = false := Bool.eq_false_iff.mpr fun hstop => by cases hfound hstop
    have hnone : ∀ {rest : List Overloads}, innermost = true → rest = [] := by simp [hall]
    cases hpending with
    | cons hsame hrest =>
      subst hsame
      obtain ⟨more, resumed', left', hmore, hpadded, hlast⟩ :=
        ih ⟨hentered, hrest⟩ (fun _ _ _ _ henters => hdone _ _ _ _ (henters.set hall)) hnone
      exact ⟨overloads :: more, resumed', left', .set hmore, .cons rfl hpadded, hlast⟩
    | spare hreported hrest =>
      obtain ⟨more, resumed', left', hmore, hpadded, hlast⟩ :=
        ih ⟨hentered, hrest⟩ (fun _ _ _ _ henters => hdone _ _ _ _ (henters.set hall)) hnone
      exact ⟨more, resumed', left', hmore, .spare hreported hpadded, hlast⟩
  | @seen _ _ _ _ _ decls imports id name hid _ ih =>
    obtain ⟨hentered, hpending⟩ := hresumes
    cases hpending with
    | cons hsame hrest =>
      subst hsame
      obtain ⟨more, resumed', left', hmore, hpadded, hlast⟩ :=
        ih ⟨hentered, hrest⟩ (fun _ _ _ _ henters => hdone _ _ _ _ (henters.seen hid)) hfound
      exact ⟨more, resumed', left', .seen ((hentered id).mpr (.inl hid)) hmore, hpadded, hlast⟩
    | spare _ hrest =>
      exact ih ⟨hentered, hrest⟩ (fun _ _ _ _ henters => hdone _ _ _ _ (henters.seen hid)) hfound
  | @enter _ _ _ _ _ decls imports id name hid _ ih =>
    obtain ⟨hentered, hpending⟩ := hresumes
    have hlater := fun decls' imports' other name' henters =>
      hdone decls' imports' other name' (.enter hid henters)
    by_cases hbefore : id ∈ before
    · have hopened := hdone decls imports id name (.head hid) hbefore
      cases hpending with
      | cons hsame hrest =>
        subst hsame
        obtain ⟨more, resumed', left', hmore, hpadded, hlast⟩ :=
          ih (.skip hbefore hopened ⟨hentered, hrest⟩) hlater hfound
        exact ⟨more, resumed', left', .seen ((hentered id).mpr (.inr hbefore)) hmore, hpadded,
          hlast⟩
      | spare _ hrest => exact ih (.skip hbefore hopened ⟨hentered, hrest⟩) hlater hfound
    · cases hpending with
      | cons hsame hrest =>
        subst hsame
        obtain ⟨more, resumed', left', hmore, hpadded, hlast⟩ :=
          ih (.enter (world.sources decls imports id name) ⟨hentered, hrest⟩) hlater hfound
        exact ⟨more, resumed', left', .enter (by simp [hentered, hid, hbefore]) hmore, hpadded,
          hlast⟩
      | spare hspare _ => exact absurd hspare hbefore

/-- A search that goes on where another one has been yields what it yields on its own,
but for what the other one has found; if it is to stop at the first set, the other one
must have found nothing. -/
theorem Yields.resumes (hyields : world.Yields innermost entered pending found entered')
    (hresumes : Resumes before sets entered pending resumed left)
    (hdone : ∀ decls imports id name, world.Enters innermost entered pending decls imports id name →
      id ∈ before → ∀ source ∈ world.sources decls imports id name, Done before sets source)
    (hsets : innermost = true → sets = []) :
    ∃ more resumed', world.Yields innermost resumed left more resumed' ∧
      Padded Eq (· ∈ sets) more found := by
  unfold Yields at hyields
  split at hyields
  · next hstop =>
    obtain ⟨first, rest, rfl, hwalk⟩ := hyields
    obtain ⟨rfl, -⟩ := Bool.and_eq_true _ _ ▸ hstop
    obtain rfl := hsets rfl
    obtain ⟨more, resumed', left', hmore, hpadded, hlast⟩ :=
      hwalk.resumes hresumes hdone fun _ => rfl
    obtain rfl := hpadded.eq_nil
    cases hlast.pending with
    | cons hsame _ =>
      subst hsame
      exact ⟨[first], resumed', ⟨first, _, rfl, hmore⟩, .refl (fun _ => rfl) _⟩
    | spare hspare _ => cases hspare
  · next hgoes =>
    have hnone : innermost = true → found = [] := fun hstop => by simpa [hstop] using hgoes
    obtain ⟨more, resumed', left', hmore, hpadded, hlast⟩ :=
      Walks.resumes hyields hresumes hdone hnone
    obtain rfl := hlast.pending.eq_nil
    refine ⟨more, resumed', ?_, hpadded⟩
    unfold Yields
    rw [if_neg]
    · exact hmore
    · intro hstop
      obtain ⟨hinnermost, hsome⟩ := Bool.and_eq_true _ _ ▸ hstop
      obtain rfl := hnone hinnermost
      obtain rfl := hpadded.eq_nil
      cases hsome

end Scoping.World
