/-!
Interned names. A name is only its index: what it spells is known to the
interner that issued it, and two names of one interner are equal exactly when
they spell the same text.
-/

namespace Scoping

/-- A name, as the index of its spelling in an interner. -/
structure Name where
  index : Nat
deriving DecidableEq, Inhabited

namespace Name

/-- The keyword `this`, which every interner holds first. -/
def this : Name := ⟨0⟩

/-- The keyword `super`, which every interner holds second. -/
def super : Name := ⟨1⟩

/-- A name written for inspection, such as `Name(2)`. -/
def label (name : Name) : String := s!"Name({name.index})"

end Name

end Scoping
