import Mathlib.Data.Option.Basic
import Scoping.Interner

/-!
Interning is a numbering. After any calls the two stores of an interner are inverse to each
other, so a name stands for one text and a text has one name. Names are given out in order,
with no gap, as texts turn up for the first time, and what a name spells never changes.
-/

namespace Scoping.Interner

/-- Whether the map and the list are inverse to each other. -/
def Inverse (names : Interner) : Prop :=
  ∀ text index, names.indices.get? text = some index ↔ names.texts[index]? = some text

/-- What holds of an interner that was filled by calls only. -/
structure Sound (names : Interner) : Prop where
  inverse : names.Inverse
  this : names.lookup? .this = some "this"
  super : names.lookup? .super = some "super"

theorem inverse_empty : empty.Inverse := by
  intro text index
  simp [empty]

/-- A text that is new in the map is new in the list, so adding it to both keeps them inverse to
each other. -/
theorem Inverse.insert {names : Interner} (hinverse : names.Inverse) (text : String) :
    (names.insert text).2.Inverse := by
  intro other index
  rw [Interner.insert]
  split
  · exact hinverse other index
  · next hmissing =>
    simp only [Array.getElem?_push, size]
    by_cases hother : other = text
    · subst hother
      have hnew : names.texts[index]? ≠ some other := by
        rw [ne_eq, ← hinverse, hmissing]
        exact (Option.some_ne_none index).symm
      rw [Assoc.get?_insert_self]
      by_cases hindex : index = names.texts.size
      · simp [hindex]
      · simp [hindex, hnew, eq_comm]
    · rw [Assoc.get?_insert_of_ne _ hother, hinverse]
      by_cases hindex : index = names.texts.size
      · simp [hindex, Ne.symm hother]
      · simp [hindex]

/-- Finding a text at once and asking for it again while it is added come to the same. -/
theorem intern_eq_insert (names : Interner) (text : String) :
    names.intern text = (⟨(names.insert text).1⟩, (names.insert text).2) := by
  unfold intern find? insert
  cases names.indices.get? text <;> rfl

/-- Whether an interner has come from another one by interning more texts. -/
def Extends (later names : Interner) : Prop :=
  ∀ name text, names.lookup? name = some text → later.lookup? name = some text

theorem Extends.refl (names : Interner) : names.Extends names := fun _ _ hknown => hknown

theorem Extends.trans {names later last : Interner} (hlast : last.Extends later)
    (hlater : later.Extends names) : last.Extends names :=
  fun name text hknown => hlast name text (hlater name text hknown)

/-- Old names keep their texts, since texts keep their places. -/
theorem extends_intern (names : Interner) (text : String) :
    (names.intern text).2.Extends names := by
  rintro ⟨index⟩ known hknown
  obtain ⟨rest, hrest⟩ := names.texts_prefix_intern text
  rw [lookup?, ← Array.getElem?_toList] at hknown ⊢
  rw [← hrest, List.getElem?_append_left (List.getElem?_eq_some_iff.mp hknown).1, hknown]

theorem extends_internAll (names : Interner) (texts : List String) :
    (names.internAll texts).2.Extends names := by
  induction texts generalizing names with
  | nil => exact .refl names
  | cons text rest ih => exact (ih _).trans (names.extends_intern text)

/-- Names that read as texts go on reading as these. -/
theorem map_lookup?_extends {names later : Interner} (hlater : later.Extends names)
    {issued : List Name} {texts : List String} (hread : issued.map names.lookup? = texts.map some) :
    issued.map later.lookup? = texts.map some := by
  rw [← hread]
  refine List.map_congr_left fun name hname => ?_
  have hmem : names.lookup? name ∈ texts.map some := hread ▸ List.mem_map_of_mem hname
  obtain ⟨text, -, htext⟩ := List.mem_map.mp hmem
  rw [← htext]
  exact hlater name text htext.symm

/-- A name reads as nothing exactly when it was not given out. -/
theorem lookup?_eq_none_iff {names : Interner} {name : Name} :
    names.lookup? name = none ↔ names.size ≤ name.index := Array.getElem?_eq_none_iff

namespace Sound

variable {names : Interner} (hsound : names.Sound)
include hsound

theorem find?_eq_some_iff {name : Name} {text : String} :
    names.find? text = some name ↔ names.lookup? name = some text := by
  obtain ⟨index⟩ := name
  rw [lookup?, ← hsound.inverse]
  simp [find?]

theorem unique {name other : Name} {text : String} (hname : names.lookup? name = some text)
    (hother : names.lookup? other = some text) : name = other := by
  rw [← hsound.find?_eq_some_iff] at hname hother
  exact Option.some.inj (hname.symm.trans hother)

/-- A name is the place of its text in the list, since the list has it nowhere else. -/
theorem eq_idxOf {name : Name} {text : String} (hname : names.lookup? name = some text) :
    name = ⟨names.texts.toList.idxOf text⟩ := by
  have hmem : text ∈ names.texts.toList := Array.mem_toList_iff.mpr (Array.mem_of_getElem? hname)
  refine hsound.unique hname ?_
  have hlt := List.idxOf_lt_length_of_mem hmem
  rw [lookup?, ← Array.getElem?_toList, List.getElem?_eq_getElem hlt, List.getElem_idxOf hlt]

/-- A text has an index exactly when it is in the list. -/
theorem find?_eq_none_iff {text : String} : names.find? text = none ↔ text ∉ names.texts := by
  rw [Array.mem_iff_getElem?, find?, Option.map_eq_none_iff, Option.eq_none_iff_forall_ne_some,
    not_exists]
  exact forall_congr' fun index => not_congr (hsound.inverse text index)

/-- What an interner knows once a text is interned: what it knew, and the text. -/
theorem lookup?_intern_iff {text other : String} {name : Name} :
    (names.intern text).2.lookup? name = some other ↔
      names.lookup? name = some other ∨ name = (names.intern text).1 ∧ other = text := by
  cases hfound : names.find? text with
  | some known =>
    rw [intern_of_find? hfound]
    refine ⟨.inl, ?_⟩
    rintro (hold | ⟨rfl, rfl⟩)
    · exact hold
    · exact hsound.find?_eq_some_iff.mp hfound
  | none =>
    rw [intern_of_find?_eq_none hfound]
    obtain ⟨index⟩ := name
    simp only [lookup?, size, Array.getElem?_push, Name.mk.injEq]
    by_cases hindex : index = names.texts.size
    · subst hindex
      simp [eq_comm]
    · simp [hindex]

/-- A text that is interned reads back. -/
theorem lookup?_intern (text : String) :
    (names.intern text).2.lookup? (names.intern text).1 = some text :=
  hsound.lookup?_intern_iff.mpr (.inr ⟨rfl, rfl⟩)

theorem intern (text : String) : (names.intern text).2.Sound where
  inverse := by
    rw [intern_eq_insert]
    exact hsound.inverse.insert text
  this := names.extends_intern text _ _ hsound.this
  super := names.extends_intern text _ _ hsound.super

theorem internAll (texts : List String) : (names.internAll texts).2.Sound := by
  induction texts generalizing names with
  | nil => exact hsound
  | cons text rest ih => exact ih (hsound.intern text)

/-- Every name that was given out reads as the text that it was given out for, also after the
calls that came later. -/
theorem map_lookup?_internAll (texts : List String) :
    (names.internAll texts).1.map (names.internAll texts).2.lookup? = texts.map some := by
  induction texts generalizing names with
  | nil => rfl
  | cons text rest ih =>
    have hfirst := extends_internAll _ rest _ _ (hsound.lookup?_intern text)
    exact congrArg₂ List.cons hfirst (ih (hsound.intern text))

/-- What the names in a list are, when one knows what they read as. -/
theorem eq_map_idxOf {issued : List Name} {texts : List String}
    (hread : issued.map names.lookup? = texts.map some) :
    issued = texts.map fun text => ⟨names.texts.toList.idxOf text⟩ := by
  induction issued generalizing texts with
  | nil => rw [List.map_eq_nil_iff.mp hread.symm, List.map_nil]
  | cons name rest ih =>
    cases texts with
    | nil => cases hread
    | cons text others =>
      obtain ⟨hfirst, hrest⟩ := List.cons.inj hread
      rw [List.map_cons, ← ih hrest, ← hsound.eq_idxOf hfirst]

/-- A text that turns up again adds nothing to the list, and a new one is added at the end. -/
theorem texts_intern {seen : List String} (hseen : names.texts.toList = seen.eraseDups)
    (text : String) : (names.intern text).2.texts.toList = (seen ++ [text]).eraseDups := by
  have hmem : text ∈ names.texts ↔ text ∈ seen := by
    rw [← Array.mem_toList_iff, hseen, List.mem_eraseDups]
  rw [List.eraseDups_append, ← hseen]
  cases hfound : names.find? text with
  | some known =>
    have hold : text ∈ seen := by
      rw [← hmem]
      exact Array.mem_of_getElem? (hsound.find?_eq_some_iff.mp hfound)
    simp [hfound, List.removeAll, hold]
  | none =>
    have hnew : text ∉ seen := by
      rw [← hmem]
      exact hsound.find?_eq_none_iff.mp hfound
    simp [intern_of_find?_eq_none hfound, List.removeAll, hnew, List.eraseDups_cons]

/-- The list holds the distinct texts in the order in which they were first seen. -/
theorem texts_internAll {seen : List String} (hseen : names.texts.toList = seen.eraseDups)
    (texts : List String) :
    (names.internAll texts).2.texts.toList = (seen ++ texts).eraseDups := by
  induction texts generalizing names seen with
  | nil => simpa [Interner.internAll] using hseen
  | cons text rest ih =>
    have hrest := ih (hsound.intern text) (hsound.texts_intern hseen text)
    rwa [List.append_assoc, List.singleton_append] at hrest

end Sound

theorem sound_initial : initial.Sound where
  inverse := (inverse_empty.insert "this").insert "super"
  this := rfl
  super := rfl

theorem texts_initial : initial.texts.toList = keywords.eraseDups := by
  decide

/-- Interning is an injective, stable and dense numbering. After any calls on a fresh interner
the map and the list are inverse to each other; two calls returned the same name exactly when
they were about the same text; every name reads as its text, whatever else is interned later;
the keywords of paths have the first two names; the indices in use are those below the number of
texts, given out in the order in which texts turned up for the first time; and the names that
read as nothing are those with a higher index, which are shown as foreign. -/
theorem internAll_numbering (texts : List String) :
    let issued : List Name := (Interner.initial.internAll texts).1
    let names : Interner := (Interner.initial.internAll texts).2
    (∀ text index, names.indices.get? text = some index ↔ names.texts[index]? = some text) ∧
      (∀ first second : Nat, issued[first]? = issued[second]? ↔ texts[first]? = texts[second]?) ∧
      (∀ more, issued.map (names.internAll more).2.lookup? = texts.map some) ∧
      names.intern "this" = (⟨0⟩, names) ∧ names.intern "super" = (⟨1⟩, names) ∧
      names.texts.toList = ("this" :: "super" :: texts).eraseDups ∧
      issued = texts.map (fun text => ⟨names.texts.toList.idxOf text⟩) ∧
      (∀ index, (∃ text, names.indices.get? text = some index) ↔ index < names.size) ∧
      ∀ name, (names.lookup? name = none ↔ names.size ≤ name.index) ∧
        (names.lookup? name = none → names.display name = "<?>") := by
  intro issued names
  have hsound : names.Sound := sound_initial.internAll texts
  have hread : issued.map names.lookup? = texts.map some :=
    sound_initial.map_lookup?_internAll texts
  have hplaces := hsound.eq_map_idxOf hread
  refine ⟨hsound.inverse, fun first second => ?_,
    fun more => map_lookup?_extends (extends_internAll names more) hread,
    intern_of_find? (hsound.find?_eq_some_iff.mpr hsound.this),
    intern_of_find? (hsound.find?_eq_some_iff.mpr hsound.super),
    sound_initial.texts_internAll texts_initial texts, hplaces, fun index => ?_,
    fun name => ⟨lookup?_eq_none_iff, fun hnone => by rw [display, hnone, Option.getD_none]⟩⟩
  · constructor
    · intro hsame
      have hreads := congrArg (Option.map names.lookup?) hsame
      simp only [← List.getElem?_map, hread] at hreads
      simp only [List.getElem?_map] at hreads
      exact Option.map_injective (Option.some_injective _) hreads
    · intro hsame
      rw [hplaces, List.getElem?_map, List.getElem?_map, hsame]
  · constructor
    · rintro ⟨text, htext⟩
      exact (Array.getElem?_eq_some_iff.mp ((hsound.inverse text index).mp htext)).1
    · intro hlt
      exact ⟨names.texts[index], (hsound.inverse _ index).mpr (Array.getElem?_eq_getElem hlt)⟩

end Scoping.Interner
