import Scoping.Proofs.Context.Growth

/-!
Total correctness of the computations that extend a context. `Ends` says that a
computation has a result, how far it changes the context, and what holds of the
result; a sequence is treated by treating its parts.
-/

namespace Scoping.Resolve

variable {α β : Type} {changes : Context → Context → Prop} {context : Context}

theorem map_eq_some_iff {action : Resolve α} {f : α → β} {result : β} {later : Context} :
    (f <$> action) context = some (result, later) ↔
      ∃ value, action context = some (value, later) ∧ f value = result := by
  rw [map_eq_pure_bind, bind_eq_some_iff]
  constructor
  · rintro ⟨value, middle, hrun, hrest⟩
    cases hrest
    exact ⟨value, hrun, rfl⟩
  · rintro ⟨value, hrun, rfl⟩
    exact ⟨value, later, hrun, rfl⟩

/-- The computation ends, changes the context in the given way, and its result
is as asked. -/
def Ends (changes : Context → Context → Prop) (action : Resolve α) (context : Context)
    (post : α → Context → Prop) : Prop :=
  ∃ value later, action context = some (value, later) ∧ changes context later ∧ post value later

theorem Ends.mono {action : Resolve α} {post post' : α → Context → Prop}
    (hends : Ends changes action context post)
    (himp : ∀ value later, changes context later → post value later → post' value later) :
    Ends changes action context post' := by
  obtain ⟨value, later, hrun, hchanges, hpost⟩ := hends
  exact ⟨value, later, hrun, hchanges, himp value later hchanges hpost⟩

/-- What a computation ends with is the result of any of its runs. -/
theorem Ends.of_run {action : Resolve α} {post : α → Context → Prop} {value : α} {later : Context}
    (hends : Ends changes action context post) (hrun : action context = some (value, later)) :
    changes context later ∧ post value later := by
  obtain ⟨_, _, hrun', hchanges, hpost⟩ := hends
  obtain ⟨rfl, rfl⟩ := Prod.mk.inj (Option.some.inj (hrun.symm.trans hrun'))
  exact ⟨hchanges, hpost⟩

/-- The run of a computation can be kept for later. -/
theorem Ends.run {action : Resolve α} {post : α → Context → Prop}
    (hends : Ends changes action context post) :
    Ends changes action context fun value later =>
      action context = some (value, later) ∧ post value later := by
  obtain ⟨value, later, hrun, hchanges, hpost⟩ := hends
  exact ⟨value, later, hrun, hchanges, hrun, hpost⟩

/-- A computation may be allowed to change more than it does. -/
theorem Ends.widen {changes' : Context → Context → Prop} {action : Resolve α}
    {post : α → Context → Prop} (hends : Ends changes action context post)
    (himp : ∀ later, changes context later → changes' context later) :
    Ends changes' action context post := by
  obtain ⟨value, later, hrun, hchanges, hpost⟩ := hends
  exact ⟨value, later, hrun, himp later hchanges, hpost⟩

theorem Ends.pure {value : α} {post : α → Context → Prop} (hrefl : changes context context)
    (hpost : post value context) : Ends changes (pure value) context post :=
  ⟨value, context, rfl, hrefl, hpost⟩

theorem Ends.bind [IsTrans Context changes] {first : Resolve α} {next : α → Resolve β}
    {middle : α → Context → Prop} {post : β → Context → Prop}
    (hfirst : Ends changes first context middle)
    (hnext : ∀ value later, changes context later → middle value later →
      Ends changes (next value) later post) :
    Ends changes (first >>= next) context post := by
  obtain ⟨value, later, hrun, hchanges, hmiddle⟩ := hfirst
  obtain ⟨result, last, hrest, hmore, hpost⟩ := hnext value later hchanges hmiddle
  exact ⟨result, last, bind_eq_some_iff.mpr ⟨value, later, hrun, hrest⟩,
    IsTrans.trans _ _ _ hchanges hmore, hpost⟩

theorem Ends.map [IsTrans Context changes] {action : Resolve α} {f : α → β}
    {post : β → Context → Prop} (hrefl : ∀ later, changes context later → changes later later)
    (hends : Ends changes action context fun value later => post (f value) later) :
    Ends changes (f <$> action) context post := by
  rw [map_eq_pure_bind]
  exact hends.bind fun value later hchanges hpost => .pure (hrefl later hchanges) hpost

theorem Ends.get_bind {next : Context → Resolve β} {post : β → Context → Prop}
    (hnext : Ends changes (next context) context post) :
    Ends changes (get >>= next) context post := hnext

theorem Ends.scope_bind {id : ScopeId} {next : Scope → Resolve β} {post : β → Context → Prop}
    (hnext : Ends changes (next (context.scope id)) context post) :
    Ends changes (Resolve.scope id >>= next) context post := hnext

theorem Ends.modify {f : Context → Context} {post : PUnit → Context → Prop}
    (hchanges : changes context (f context)) (hpost : post ⟨⟩ (f context)) :
    Ends changes (modify f) context post := ⟨⟨⟩, f context, rfl, hchanges, hpost⟩

end Scoping.Resolve
