import Scoping.Proofs.Numbering
import Scoping.Proofs.Relabeling.Session

/-!
Interners that know each other's texts. An interner gives no text two names, and interning
only ever adds to it. So when one interner knows all the texts of another one, each name
of the latter becomes the name of the same text; names that the latter never gave out can
be kept apart.
-/

namespace Scoping

namespace Interner

/-- Whether another interner knows all texts of an interner. -/
def Within (names names' : Interner) : Prop :=
  ∀ name text, names.lookup? name = some text → ∃ name', names'.lookup? name' = some text

theorem Within.intern {names names' : Interner} (hwithin : names.Within names')
    (hsound : names.Sound) (hsound' : names'.Sound) (text : String) :
    (names.intern text).2.Within (names'.intern text).2 := by
  intro name read hread
  rcases hsound.lookup?_intern_iff.mp hread with hread | ⟨-, rfl⟩
  · obtain ⟨name', hname'⟩ := hwithin name read hread
    exact ⟨name', names'.extends_intern text name' read hname'⟩
  · exact ⟨_, hsound'.lookup?_intern read⟩

/-- The name in another interner of the text of a name. A name without text becomes one that
the other interner has not given out. -/
def transfer (names names' : Interner) (name : Name) : Name :=
  match (names.lookup? name).bind names'.find? with
  | some name' => name'
  | none => ⟨name.index + names'.size⟩

section

variable {names names' : Interner} (hsound : names.Sound) (hsound' : names'.Sound)
  (hwithin : names.Within names')

theorem lookup?_transfer {name : Name} {text : String} (hwithin : names.Within names')
    (hsound' : names'.Sound) (hname : names.lookup? name = some text) :
    names'.lookup? (names.transfer names' name) = some text := by
  obtain ⟨name', hname'⟩ := hwithin name text hname
  rw [transfer, hname, Option.bind_some, hsound'.find?_eq_some_iff.mpr hname']
  exact hname'

theorem transfer_of_lookup?_eq_none {name : Name} (hname : names.lookup? name = none) :
    names.transfer names' name = ⟨name.index + names'.size⟩ := by
  rw [transfer, hname, Option.bind_none]

theorem lookup?_transfer_eq_none {name : Name} (hname : names.lookup? name = none) :
    names'.lookup? (names.transfer names' name) = none := by
  rw [transfer_of_lookup?_eq_none hname]
  exact Array.getElem?_eq_none (Nat.le_add_left ..)

include hsound hsound' hwithin

theorem transfer_injective : Function.Injective (names.transfer names') := by
  intro name other heq
  cases hname : names.lookup? name with
  | some text =>
    have hread := lookup?_transfer hwithin hsound' hname
    rw [heq] at hread
    cases hother : names.lookup? other with
    | some text' =>
      rw [lookup?_transfer hwithin hsound' hother] at hread
      obtain rfl := Option.some.inj hread
      exact hsound.unique hname hother
    | none =>
      rw [lookup?_transfer_eq_none hother] at hread
      cases hread
  | none =>
    cases hother : names.lookup? other with
    | some text' =>
      have hread := lookup?_transfer hwithin hsound' hother
      rw [← heq, lookup?_transfer_eq_none hname] at hread
      cases hread
    | none =>
      rw [transfer_of_lookup?_eq_none hname, transfer_of_lookup?_eq_none hother] at heq
      have hindex : name.index = other.index := Nat.add_right_cancel (Name.mk.inj heq)
      obtain ⟨index⟩ := name
      exact congrArg Name.mk hindex

/-- The relabeling that keeps all texts. -/
def transferring : Relabeling where
  name := names.transfer names'
  conceals := false
  injective := transfer_injective hsound hsound' hwithin
  this := hsound'.unique (lookup?_transfer hwithin hsound' hsound.this) hsound'.this
  super := hsound'.unique (lookup?_transfer hwithin hsound' hsound.super) hsound'.super

end

end Interner

open Interner

/-- An interner and another one that knows all its texts and may know more. -/
def Pairing.sharing : Pairing where
  conceals := false
  pairs names names' := names.Sound ∧ names'.Sound ∧ names.Within names'
  fits names names' ρ := ρ.conceals = false ∧ ∀ {name text}, names.lookup? name = some text →
    names'.lookup? (ρ.name name) = some text
  intern text := fun ⟨hsound, hsound', hwithin⟩ =>
    ⟨hsound.intern text, hsound'.intern text, hwithin.intern hsound hsound' text⟩
  narrows {names names'} text := by
    rintro ⟨hsound, hsound', hwithin⟩ ρ ⟨hplain, hkeeps⟩
    have hsame : ∀ {name name' : Name} {read : String},
        (names.intern text).2.lookup? name = some read →
        (names'.intern text).2.lookup? name' = some read → name' = ρ.name name :=
      fun hname hname' => (hsound'.intern text).unique hname' (hkeeps hname)
    refine ⟨⟨hplain, fun {name read} hname => ?_⟩,
      hsame (hsound.lookup?_intern text) (hsound'.lookup?_intern text)⟩
    obtain ⟨name', hname'⟩ := hwithin name read hname
    rwa [← hsame (names.extends_intern text name read hname)
      (names'.extends_intern text name' read hname')]
  concealed hfits := hfits.1
  spells {names names'} := by
    rintro ⟨hsound, hsound', hwithin⟩
    refine ⟨transferring hsound hsound' hwithin, ⟨rfl, lookup?_transfer hwithin hsound'⟩, ?_⟩
    intro name
    show names'.display (names.transfer names' name) = names.display name
    unfold display
    cases hname : names.lookup? name with
    | some text => rw [lookup?_transfer hwithin hsound' hname]
    | none => rw [lookup?_transfer_eq_none hname]

end Scoping
