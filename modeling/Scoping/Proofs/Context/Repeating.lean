import Scoping.Proofs.Context.Ends
import Scoping.Proofs.Context.Growth

/-!
Computations that may be run again. Once such a computation has a result, it has the
same result in every later context, and then works out nothing that is not known. The
statements are about runs that do end, so a search needs no measure here: whatever it
has read is in the tables, and it goes the same way when it is run again.
-/

namespace Scoping.Resolve

open Context

variable {α β : Type} {keeps : Context → Prop} {context : Context}

/-- Whatever the computation ends with is as asked, and is what it ends with in every
later context, which it leaves as it is. -/
def Repeats (keeps : Context → Prop) (action : Resolve α) (context : Context)
    (post : α → Context → Prop) : Prop :=
  ∀ value later, action context = some (value, later) →
    Answering keeps context later ∧ post value later ∧
      ∀ final, later.Grows final → keeps final → action final = some (value, final)

/-- A computation that ends can be run again if what it ends with is recorded. -/
theorem Ends.repeats {changes : Context → Context → Prop} {action : Resolve α}
    {post post' : α → Context → Prop} (hends : Ends changes action context post)
    (hchanges : ∀ later, changes context later → Answering keeps context later)
    (hpost : ∀ value later, changes context later → post value later → post' value later)
    (hagain : ∀ value later, changes context later → post value later →
      ∀ final, later.Grows final → keeps final → action final = some (value, final)) :
    Repeats keeps action context post' := by
  intro value later hrun
  obtain ⟨hmore, hvalue⟩ := hends.of_run hrun
  exact ⟨hchanges later hmore, hpost value later hmore hvalue, hagain value later hmore hvalue⟩

namespace Repeats

theorem mono {action : Resolve α} {post post' : α → Context → Prop}
    (hrepeats : Repeats keeps action context post)
    (himp : ∀ value later, Answering keeps context later → post value later → post' value later) :
    Repeats keeps action context post' := by
  intro value later hrun
  obtain ⟨hchanges, hpost, hagain⟩ := hrepeats value later hrun
  exact ⟨hchanges, himp value later hchanges hpost, hagain⟩

theorem pure {value : α} {post : α → Context → Prop} (hkeeps : keeps context)
    (hpost : post value context) : Repeats keeps (pure value) context post := by
  rintro _ _ hrun
  cases hrun
  exact ⟨⟨.refl context, hkeeps⟩, hpost, fun _ _ _ => rfl⟩

/-- In the second run both parts meet the one context that the first run left. -/
theorem bind {first : Resolve α} {next : α → Resolve β} {middle : α → Context → Prop}
    {post : β → Context → Prop} (hfirst : Repeats keeps first context middle)
    (hnext : ∀ value later, Answering keeps context later → middle value later →
      Repeats keeps (next value) later post) :
    Repeats keeps (first >>= next) context post := by
  intro result last hrun
  obtain ⟨value, later, hrun, hrest⟩ := bind_eq_some_iff.mp hrun
  obtain ⟨hchanges, hmiddle, hagain⟩ := hfirst value later hrun
  obtain ⟨hmore, hpost, hagain'⟩ := hnext value later hchanges hmiddle result last hrest
  refine ⟨IsTrans.trans _ _ _ hchanges hmore, hpost, fun final hfinal hkept => ?_⟩
  exact bind_eq_some_iff.mpr
    ⟨value, final, hagain final (hmore.1.trans hfinal) hkept, hagain' final hfinal hkept⟩

theorem map {action : Resolve α} {f : α → β} {post : β → Context → Prop}
    (hrepeats : Repeats keeps action context fun value later => post (f value) later) :
    Repeats keeps (f <$> action) context post := by
  rw [map_eq_pure_bind]
  exact hrepeats.bind fun _ _ hchanges hpost => .pure hchanges.2 hpost

/-- What is read off the context must be read off every later one. -/
theorem get_bind {next : Context → Resolve β} {post : β → Context → Prop}
    (hsame : ∀ final, context.Grows final → next final = next context)
    (hnext : Repeats keeps (next context) context post) :
    Repeats keeps (get >>= next) context post := by
  intro value later hrun
  obtain ⟨hchanges, hpost, hagain⟩ := hnext value later hrun
  refine ⟨hchanges, hpost, fun final hfinal hkept => ?_⟩
  change next final final = _
  rw [hsame final (hchanges.1.trans hfinal)]
  exact hagain final hfinal hkept

theorem scope_bind {id : ScopeId} {next : Scope → Resolve β} {post : β → Context → Prop}
    (hid : context.Has id) (hnext : Repeats keeps (next (context.scope id)) context post) :
    Repeats keeps (Resolve.scope id >>= next) context post := by
  have hbind : Resolve.scope id >>= next = get >>= fun context => next (context.scope id) := rfl
  rw [hbind]
  exact .get_bind (fun final hfinal => by rw [hfinal.scope hid]) hnext

end Repeats

end Scoping.Resolve
