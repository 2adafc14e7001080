import Scoping.Assoc
import Scoping.Syntax.Node

/-!
Declarations and the tables that map names to them. Declarations that share a
name within one scope stay together, in source order; they are never merged or
told apart during name resolution.
-/

namespace Scoping

/-- What a name can refer to. -/
inductive Decl where
  /-- A declaration of the syntax tree. -/
  | node (id : NodeId)
  /-- A built-in type of the root scope, which has no syntax. -/
  | builtin (name : Name)
deriving DecidableEq, Inhabited

namespace Decl

/-- The node of a declaration that has one. -/
def node? : Decl → Option NodeId
  | node id => some id
  | builtin _ => none

def isBuiltin : Decl → Bool
  | node _ => false
  | builtin _ => true

/-- A declaration written for inspection, such as `Decl(3)`. -/
def label : Decl → String
  | node id => s!"Decl({id.index})"
  | builtin name => s!"Builtin({name.index})"

end Decl

/-- The declarations of one name in one scope, in source order; at least one. -/
structure Overloads where
  first : Decl
  rest : List Decl
deriving DecidableEq, Inhabited

namespace Overloads

def single (decl : Decl) : Overloads := ⟨decl, []⟩

def append (overloads : Overloads) (decl : Decl) : Overloads :=
  { overloads with rest := overloads.rest ++ [decl] }

def toList (overloads : Overloads) : List Decl := overloads.first :: overloads.rest

def size (overloads : Overloads) : Nat := overloads.toList.length

def isEmpty (overloads : Overloads) : Bool := overloads.toList.isEmpty

def contains (overloads : Overloads) (decl : Decl) : Bool := overloads.toList.contains decl

@[simp]
theorem toList_single (decl : Decl) : (single decl).toList = [decl] := rfl

@[simp]
theorem toList_append (overloads : Overloads) (decl : Decl) :
    (overloads.append decl).toList = overloads.toList ++ [decl] := rfl

end Overloads

/-- The declarations of one scope by name, names in order of first declaration. -/
abbrev DeclTable := Assoc Name Overloads

namespace DeclTable

/-- Adds a declaration to those of its name. -/
def declare (table : DeclTable) (name : Name) (decl : Decl) : DeclTable :=
  table.upsert name fun
    | none => .single decl
    | some overloads => overloads.append decl

/-- A table of built-in types; a name that is listed twice counts once. -/
def ofBuiltins : List Name → DeclTable :=
  List.foldl (fun table name => table.upsert name fun
    | none => .single (.builtin name)
    | some overloads => overloads) .empty

theorem get?_declare_self (table : DeclTable) (name : Name) (decl : Decl) :
    ((table.declare name decl).get? name).map Overloads.toList =
      some (((table.get? name).map Overloads.toList).getD [] ++ [decl]) := by
  rw [declare, Assoc.get?_upsert_self]
  cases table.get? name <;> rfl

theorem get?_declare_of_ne (table : DeclTable) {name other : Name} (ne : other ≠ name)
    (decl : Decl) : (table.declare name decl).get? other = table.get? other :=
  Assoc.get?_upsert_of_ne table ne _

end DeclTable

end Scoping
