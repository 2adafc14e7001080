import Scoping.Assoc
import Scoping.Name

/-!
The interner numbers texts densely in the order they were first seen. It stores
each text twice: in a list, where a name is spelled out, and as a key of a map,
where the name of a text is found. The two path keywords are interned before
anything else, so `Name.this` and `Name.super` mean the same in every interner.
-/

namespace Scoping

/-- The texts seen so far. -/
structure Interner where
  /-- The index of each text. -/
  indices : Assoc String Nat
  /-- The texts in the order in which they were first seen. -/
  texts : Array String
deriving DecidableEq

namespace Interner

/-- The interner that knows no text. -/
def empty : Interner := ⟨.empty, #[]⟩

/-- The number of texts. -/
def size (interner : Interner) : Nat := interner.texts.size

def isEmpty (interner : Interner) : Bool := interner.size == 0

/-- The index of a text. One that the map does not hold is added to both stores. -/
def insert (interner : Interner) (text : String) : Nat × Interner :=
  match interner.indices.get? text with
  | some index => (index, interner)
  | none =>
    (interner.size, ⟨interner.indices.insert text interner.size, interner.texts.push text⟩)

/-- The texts that every interner holds. -/
def keywords : List String := ["this", "super"]

/-- The interner that knows the two path keywords only. -/
def initial : Interner := keywords.foldl (fun interner text => (interner.insert text).2) empty

instance : Inhabited Interner := ⟨initial⟩

/-- The name of a text that was seen before. It is irreducible so that elaboration does not
evaluate whole interners. -/
@[irreducible]
def find? (interner : Interner) (text : String) : Option Name :=
  (interner.indices.get? text).map Name.mk

/-- The name of a text: its old one if it was seen before, else the next. -/
def intern (interner : Interner) (text : String) : Name × Interner :=
  match interner.find? text with
  | some name => (name, interner)
  | none =>
    let added := interner.insert text
    (⟨added.1⟩, added.2)

/-- Interns texts from left to right. -/
def internAll (interner : Interner) : List String → List Name × Interner
  | [] => ([], interner)
  | text :: rest =>
    let (name, interner) := interner.intern text
    let (names, interner) := interner.internAll rest
    (name :: names, interner)

/-- The text of a name; `none` when the name is foreign to this interner. -/
def lookup? (interner : Interner) (name : Name) : Option String :=
  interner.texts[name.index]?

/-- The text of a name for messages; a foreign name reads `<?>`. -/
def display (interner : Interner) (name : Name) : String :=
  (interner.lookup? name).getD "<?>"

/-- An interner written for inspection: only its size shows. -/
def label (interner : Interner) : String :=
  "Interner \x7b count: " ++ toString interner.size ++ " \x7d"

@[simp]
theorem intern_of_find? {interner : Interner} {text : String} {name : Name}
    (found : interner.find? text = some name) :
    interner.intern text = (name, interner) := by
  simp [intern, found]

/-- A text that is new gets the next index in both stores. -/
theorem intern_of_find?_eq_none {interner : Interner} {text : String}
    (missing : interner.find? text = none) :
    interner.intern text = (⟨interner.size⟩,
      ⟨interner.indices.insert text interner.size, interner.texts.push text⟩) := by
  have absent : interner.indices.get? text = none := by simpa [find?] using missing
  simp [intern, missing, insert, absent]

/-- Interning never forgets: the old texts keep their places. -/
theorem texts_prefix_intern (interner : Interner) (text : String) :
    interner.texts.toList <+: (interner.intern text).2.texts.toList := by
  cases found : interner.find? text with
  | some name => simp [found]
  | none => simp [intern_of_find?_eq_none found]

end Interner

end Scoping
