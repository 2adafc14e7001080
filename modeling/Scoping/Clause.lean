import Scoping.Scope

/-!
Clauses: the normal form of what `use` and `import` bring into a scope. A clause
says which part of its target becomes visible and under which names.
-/

namespace Scoping

/-- What part of its target a clause makes visible. -/
inductive ClauseKind where
  /-- The name of the target itself, or its new name. -/
  | symbolOnly
  /-- Everything declared in the target. -/
  | allContents
  /-- The listed names only. -/
  | onlyContents
  /-- Everything but the listed names. -/
  | contentsExcept
deriving DecidableEq, Inhabited

/-- The word a kind goes by. -/
def ClauseKind.word : ClauseKind → String
  | .symbolOnly => "SymbolOnly"
  | .allContents => "AllContents"
  | .onlyContents => "OnlyContents"
  | .contentsExcept => "ContentsExcept"

/-- One effect of a `use` or `import`. -/
structure Clause where
  /-- The scope that the clause exposes. -/
  target : ScopeId
  kind : ClauseKind
  isPrivate : Bool
  /-- Pairs of an actual name and the name it is visible as. -/
  names : List (Name × Name)
deriving DecidableEq, Inhabited

/-- Where a name leads through a clause. -/
inductive Route where
  /-- The clause says nothing of the name, or hides it. -/
  | blocked
  /-- The name stands for the target itself. -/
  | symbol
  /-- The name stands for `actual` in the contents of the target. -/
  | contents (actual : Name)
deriving DecidableEq

namespace Clause

/-- The actual name behind a visible one, by the first pair that lists it. -/
def actual? (clause : Clause) (name : Name) : Option Name :=
  (clause.names.find? fun pair => pair.2 = name).map Prod.fst

/-- Where a name leads through a clause. -/
def route (clause : Clause) (name : Name) : Route :=
  match clause.kind, clause.actual? name with
  | .symbolOnly, some _ => .symbol
  | .symbolOnly, none => .blocked
  | .contentsExcept, some _ => .blocked
  | .contentsExcept, none => .contents name
  | .onlyContents, some actual => .contents actual
  | .onlyContents, none => .blocked
  | .allContents, some actual => .contents actual
  | .allContents, none => .contents name

end Clause

end Scoping
