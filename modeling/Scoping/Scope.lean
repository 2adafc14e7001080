import Scoping.Declaration

/-!
Scopes, and the scopes from which generic code is instantiated. Both are kept
in arenas and named by their place there, so two handles are equal exactly when
they denote the same object.
-/

namespace Scoping

/-- A scope, by its place among the scopes built so far. -/
structure ScopeId where
  index : Nat
deriving DecidableEq, Inhabited

/-- A lexical region that declares names or brings names in. It never changes
once it is built. -/
structure Scope where
  /-- The node whose contents it holds; `none` for the root scope. -/
  owner : Option NodeId
  tag : Option Tag
  /-- The scopes around it, innermost first. -/
  enclosing : List ScopeId
  /-- Whether the automatic module is visible here. -/
  autoUses : Bool
  hasImports : Bool
  hasFunctions : Bool
  declared : DeclTable
deriving DecidableEq

namespace Scope

/-- The universal root scope, which holds the built-in types. -/
def root (builtins : List Name) : Scope where
  owner := none
  tag := none
  enclosing := []
  autoUses := false
  hasImports := false
  hasFunctions := false
  declared := .ofBuiltins builtins

instance : Inhabited Scope := ⟨root []⟩

def parent? (scope : Scope) : Option ScopeId := scope.enclosing.head?

def isRoot (scope : Scope) : Bool := scope.owner.isNone

def isModule (scope : Scope) : Bool := scope.tag == some .moduleDecl

def declares (scope : Scope) (name : Name) : Bool := scope.declared.contains name

/-- The declarations of a name in this scope alone, as at most one set. -/
def lookup (scope : Scope) (name : Name) : List Overloads := (scope.declared.get? name).toList

/-- Whether calls that resolve here may find candidates that are not found
further out. -/
def offersCandidates (scope : Scope) : Bool := scope.hasImports || scope.hasFunctions

end Scope

/-- A point of instantiation, by its place among those built so far. -/
structure PoiId where
  index : Nat
deriving DecidableEq, Inhabited

/-- One link of a chain of instantiation points. -/
structure PoiScope where
  /-- The scope of the call site, or of the nearest scope around it that offers
  candidates; `none` when there is no such scope. -/
  site : Option ScopeId
  /-- The links behind this one, nearest first. -/
  behind : List PoiId
deriving DecidableEq, Inhabited

/-- The point at which the function that holds the call site was instantiated. -/
def PoiScope.outer? (poi : PoiScope) : Option PoiId := poi.behind.head?

end Scoping
