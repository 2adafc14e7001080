import Scoping.Clause
import Scoping.Declaration.Gather
import Scoping.Diagnostic
import Scoping.Memo

/-!
The state of name resolution for one tree. A `Program` is what resolution reads
and never changes; a `Context` is everything worked out from it so far. Scopes,
instantiation points and reported problems are only ever added.
-/

namespace Scoping

/-- Choices fixed for one program. -/
structure Config where
  /-- The top-level module that every module outside the standard library sees
  without asking. -/
  autoModule : String := "Standard"
  /-- The names that the root scope declares. -/
  builtins : List String :=
    ["bool", "int", "uint", "real", "imag", "complex", "string", "bytes", "nothing", "void",
      "locale", "range", "domain", "owned", "shared", "borrowed", "unmanaged", "RootClass",
      "c_ptr", "c_string"]
  /-- A record that the type system handles itself; it is never gathered. -/
  tupleRecord : String := "_tuple"
deriving DecidableEq, Inhabited

/-- A tree together with the names that resolution treats specially. -/
structure Program where
  tree : Tree
  autoModule : Name
  tupleRecord : Name
  builtins : List Name
  /-- Whether a block that declares nothing shares the scope around it. -/
  sharesEmpty : Bool := true
deriving Inhabited

namespace Program

/-- Interns the configured names: the built-in types first, then the automatic
module, then the tuple record. -/
def ofConfig (tree : Tree) (config : Config) (names : Interner) : Program × Interner :=
  let (builtins, names) := names.internAll config.builtins
  let (autoModule, names) := names.intern config.autoModule
  let (tupleRecord, names) := names.intern config.tupleRecord
  ({ tree, autoModule, tupleRecord, builtins }, names)

/-- A bound on the number of scopes, hence on the nesting of everything that
visits a scope at most once. -/
def depth (program : Program) : Nat := program.tree.size + 2

/-- What a node declares, the tuple record left out. -/
def gather (program : Program) (id : NodeId) : Gathered :=
  program.tree.gather id (some program.tupleRecord)

end Program

/-- How many declarations the nearest level that knows a name holds. -/
inductive Multiplicity where
  | zero
  | one
  | many
deriving DecidableEq, Inhabited

/-- The word a multiplicity goes by. -/
def Multiplicity.word : Multiplicity → String
  | .zero => "Zero"
  | .one => "One"
  | .many => "Many"

/-- The nearest declaration of a name. -/
structure InnermostMatch where
  decl? : Option Decl
  found : Multiplicity
deriving DecidableEq, Inhabited

namespace InnermostMatch

/-- Reads the first set of a search that stops at the first match. -/
def ofSets : List Overloads → InnermostMatch
  | [] => ⟨none, .zero⟩
  | nearest :: _ => ⟨some nearest.first, if nearest.size > 1 then .many else .one⟩

def isUnique (result : InnermostMatch) : Bool := result.found == .one

def isAmbiguous (result : InnermostMatch) : Bool := result.found == .many

end InnermostMatch

/-- What has been worked out so far. -/
structure Context where
  scopes : Array Scope
  pois : Array PoiScope
  /-- The scope in which the contents of each node asked for resolve. -/
  scopeOf : Memo NodeId ScopeId
  /-- The scope built for each owner; `none` stands for the root. -/
  built : Memo (Option NodeId) ScopeId
  /-- The scope of the automatic module, once asked for, if there is one. -/
  autoScope : Option (Option ScopeId)
  /-- The clauses of each scope that has been resolved. -/
  visibility : Memo ScopeId (List Clause)
  /-- The link built for each site and next link. -/
  builtPois : Memo (Option ScopeId × Option PoiId) PoiId
  /-- The link that each call site leads to. -/
  poiOf : Memo (ScopeId × Option PoiId) PoiId
  innermost : Memo (ScopeId × Name) InnermostMatch
  diagnostics : Diagnostics
deriving DecidableEq

namespace Context

/-- Nothing has been worked out. -/
def empty : Context where
  scopes := #[]
  pois := #[]
  scopeOf := .empty
  built := .empty
  autoScope := none
  visibility := .empty
  builtPois := .empty
  poiOf := .empty
  innermost := .empty
  diagnostics := .empty

instance : Inhabited Context := ⟨empty⟩

/-- Drops everything that has been worked out, so that the next question starts over. -/
def invalidate (context : Context) : Context :=
  { context with
    scopes := #[]
    pois := #[]
    scopeOf := context.scopeOf.clear
    built := context.built.clear
    autoScope := none
    visibility := context.visibility.clear
    builtPois := context.builtPois.clear
    poiOf := context.poiOf.clear
    innermost := context.innermost.clear
    diagnostics := context.diagnostics.clear }

def scope? (context : Context) (id : ScopeId) : Option Scope := context.scopes[id.index]?

/-- The scope behind a handle of this context; a foreign handle gives an empty
scope. -/
def scope (context : Context) (id : ScopeId) : Scope := (context.scope? id).getD default

def poi? (context : Context) (id : PoiId) : Option PoiScope := context.pois[id.index]?

/-- The link behind a handle of this context; a foreign handle gives a link
that leads nowhere. -/
def poi (context : Context) (id : PoiId) : PoiScope := (context.poi? id).getD default

def scopeCount (context : Context) : Nat := context.scopes.size

/-- A scope and those around it, innermost first. -/
def outward (context : Context) (id : ScopeId) : List ScopeId :=
  id :: (context.scope id).enclosing

/-- The first module scope of a list. -/
def firstModule? (context : Context) (ids : List ScopeId) : Option ScopeId :=
  ids.find? fun id => (context.scope id).isModule

/-- The nearest module scope at or above a scope. -/
def moduleOf? (context : Context) (id : ScopeId) : Option ScopeId :=
  context.firstModule? (context.outward id)

/-- The nearest module scope around a scope, itself not counted. -/
def superOf? (context : Context) (id : ScopeId) : Option ScopeId :=
  context.firstModule? (context.scope id).enclosing

end Context

/-- A computation that extends a context. It has no result when it does not
end, which happens only on a tree with a node among its own ancestors. -/
abbrev Resolve (α : Type) := StateT Context Option α

namespace Resolve

/-- The scope behind a handle. -/
def scope (id : ScopeId) : Resolve Scope := return (← get).scope id

/-- Reports a problem. -/
def report (diagnostic : Diagnostic) : Resolve Unit :=
  modify fun context => { context with diagnostics := context.diagnostics.add diagnostic }

/-- Adds a scope. -/
def addScope (scope : Scope) : Resolve ScopeId :=
  modifyGet fun context =>
    (⟨context.scopes.size⟩, { context with scopes := context.scopes.push scope })

/-- Adds an instantiation point. -/
def addPoi (poi : PoiScope) : Resolve PoiId :=
  modifyGet fun context => (⟨context.pois.size⟩, { context with pois := context.pois.push poi })

/-- A sequence has a result exactly when its steps have, one after the other. -/
theorem bind_eq_some_iff {α β : Type} {first : Resolve α} {next : α → Resolve β}
    {context : Context} {result : β × Context} :
    (first >>= next) context = some result ↔
      ∃ value middle, first context = some (value, middle) ∧ next value middle = some result := by
  change (first context).bind (fun pair => next pair.1 pair.2) = some result ↔ _
  rw [Option.bind_eq_some_iff]
  exact ⟨fun ⟨(value, middle), left, right⟩ => ⟨value, middle, left, right⟩,
    fun ⟨value, middle, left, right⟩ => ⟨(value, middle), left, right⟩⟩

end Resolve

end Scoping
