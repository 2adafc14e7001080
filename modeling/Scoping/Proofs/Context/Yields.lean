import Scoping.Proofs.Context.Ends

/-!
Partial correctness of the computations that extend a context. On a tree with a
node among its own ancestors some of them have no result; what they do to the
context when they have one is treated part by part, as their ends are.
-/

namespace Scoping.Resolve

variable {α β : Type} {context : Context}

/-- First steps that run alike can stand for each other. -/
theorem bind_run_congr {first other : Resolve α} {next : α → Resolve β} {middle : Context}
    (hrun : first context = other middle) : (first >>= next) context = (other >>= next) middle :=
  congrArg (fun result => result.bind fun pair => next pair.1 pair.2) hrun

/-- A sequence goes on where its first step ended. -/
theorem run_bind {first : Resolve α} {next : α → Resolve β} {value : α} {later : Context}
    (hrun : first context = some (value, later)) : (first >>= next) context = next value later :=
  show (first >>= next) context = (pure value >>= next) later from bind_run_congr hrun

/-- Whatever the computation ends with in a context is as asked. -/
def Yields (action : Resolve α) (context : Context) (post : α → Context → Prop) : Prop :=
  ∀ value later, action context = some (value, later) → post value later

theorem Yields.mono {action : Resolve α} {post post' : α → Context → Prop}
    (hyields : action.Yields context post)
    (himp : ∀ value later, post value later → post' value later) :
    action.Yields context post' :=
  fun value later hrun => himp value later (hyields value later hrun)

theorem Yields.pure {value : α} {post : α → Context → Prop} (hpost : post value context) :
    (Pure.pure value : Resolve α).Yields context post := by
  intro _ _ hrun
  cases hrun
  exact hpost

theorem Yields.bind {first : Resolve α} {next : α → Resolve β} {middle : α → Context → Prop}
    {post : β → Context → Prop} (hfirst : first.Yields context middle)
    (hnext : ∀ value later, middle value later → (next value).Yields later post) :
    (first >>= next).Yields context post := by
  intro result last hrun
  obtain ⟨value, later, hvalue, hrest⟩ := bind_eq_some_iff.mp hrun
  exact hnext value later (hfirst value later hvalue) result last hrest

theorem Yields.map {action : Resolve α} {f : α → β} {post : β → Context → Prop}
    (hyields : action.Yields context fun value later => post (f value) later) :
    (f <$> action).Yields context post := by
  rw [map_eq_pure_bind]
  exact hyields.bind fun _ _ hpost => .pure hpost

theorem Yields.get_bind {next : Context → Resolve β} {post : β → Context → Prop}
    (hnext : (next context).Yields context post) : (get >>= next).Yields context post := hnext

theorem Yields.scope_bind {id : ScopeId} {next : Scope → Resolve β} {post : β → Context → Prop}
    (hnext : (next (context.scope id)).Yields context post) :
    (Resolve.scope id >>= next).Yields context post := hnext

theorem Yields.modify {f : Context → Context} {post : PUnit → Context → Prop}
    (hpost : post ⟨⟩ (f context)) : (modify f : Resolve PUnit).Yields context post := by
  intro _ _ hrun
  cases hrun
  exact hpost

/-- Whatever the computation does to any context, the context stays in the relation. -/
def Keeps (changes : Context → Context → Prop) (action : Resolve α) : Prop :=
  ∀ context, action.Yields context fun _ later => changes context later

variable {changes : Context → Context → Prop}

section

variable [IsPreorder Context changes]

theorem Keeps.pure (value : α) : Keeps changes (Pure.pure value) := by
  intro context
  exact .pure (refl_of changes context)

theorem Keeps.bind {first : Resolve α} {next : α → Resolve β} (hfirst : Keeps changes first)
    (hnext : ∀ value, Keeps changes (next value)) : Keeps changes (first >>= next) := by
  intro context
  refine (hfirst context).bind fun value later hchanges => ?_
  exact (hnext value later).mono fun _ _ hmore => trans_of changes hchanges hmore

end

theorem Keeps.map {action : Resolve α} {f : α → β} (haction : Keeps changes action) :
    Keeps changes (f <$> action) := by
  intro context
  refine .map ?_
  exact haction context

/-- A step that reads the context. -/
theorem Keeps.get_bind {next : Context → Resolve β}
    (hnext : ∀ context, Keeps changes (next context)) : Keeps changes (get >>= next) := by
  intro context
  exact .get_bind (hnext context context)

theorem Keeps.scope_bind {id : ScopeId} {next : Scope → Resolve β}
    (hnext : ∀ scope, Keeps changes (next scope)) : Keeps changes (Resolve.scope id >>= next) := by
  intro context
  exact .scope_bind (hnext (context.scope id) context)

theorem Keeps.modify {f : Context → Context} (hchanges : ∀ context, changes context (f context)) :
    Keeps changes (modify f : Resolve PUnit) :=
  fun context => .modify (hchanges context)

end Scoping.Resolve
