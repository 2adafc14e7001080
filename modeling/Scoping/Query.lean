import Scoping.Lookup.Config
import Scoping.Report

/-!
The questions that can be asked about a program, and the forms of their answers.
-/

namespace Scoping

/-- A way to name a scope. -/
inductive ScopeRef where
  | root
  /-- The scope of a node's contents. -/
  | node (id : NodeId)
  /-- A handle from an earlier answer. -/
  | handle (id : ScopeId)
deriving DecidableEq

/-- The arguments of one lookup. -/
structure LookupCall where
  scope : ScopeRef
  receiver : Option ScopeRef
  name : String
  config : LookupConfig
deriving DecidableEq

/-- One question. -/
inductive Query where
  /-- Every node of the tree. -/
  | nodes
  | node (id : NodeId)
  | isInternal (id : NodeId)
  | toplevel (name : String)
  | treeSize
  | intern (text : String)
  | internedCount
  | gather (id : NodeId) (excluded : Option String)
  /-- Starts over, with another configuration. -/
  | reconfigure (config : Config)
  | config
  /-- Starts over: forgets everything worked out. -/
  | invalidate
  | scopeCount
  | rootScope
  | scopeOf (id : NodeId)
  | moduleOf (scope : ScopeRef)
  | scope (scope : ScopeRef)
  | declares (scope : ScopeRef) (name : String)
  | lookup (call : LookupCall)
  /-- How the sets found for a name answer for one declaration. -/
  | membership (scope : ScopeRef) (name : String) (id : NodeId)
  /-- Lookups that share the scopes they enter, `entered` among them. -/
  | lookups (entered : List ScopeRef) (calls : List LookupCall)
  | innermost (scope : ScopeRef) (name : String)
  | seesWhole (goal start : ScopeRef)
  | visibility (scope : ScopeRef)
  | instantiation (scope : ScopeRef) (outer : Option PoiId)
  | poi (id : PoiId)
  | diagnostics
  | diagnosticsAt (id : NodeId)
  | errors
deriving DecidableEq

/-- Why a query was refused. -/
inductive Refusal where
  | unknownNode (id : NodeId)
  | staleScope
  | stalePoi
deriving DecidableEq

/-- The wording of a refusal, where it has one. -/
def Refusal.message? : Refusal → Option String
  | .unknownNode id => some (id.display ++ " is not a node of this syntax tree")
  | .staleScope | .stalePoi => none

/-- What a query is answered with; each form of query has its own. -/
inductive Answer where
  | refused (refusal : Refusal)
  | done
  | flag (flag : Bool)
  | count (count : Nat)
  | name (name : Name)
  | nodes (nodes : List NodeReport)
  | node (report : IdReport)
  | node? (id : Option NodeId)
  | treeSize (size : Nat) (isEmpty : Bool) (toplevel : Nat)
  | gathered (report : GatheredReport)
  | config (config : Config)
  | scope (id : ScopeId)
  | scope? (id : Option ScopeId)
  | scopeReport? (report : Option ScopeReport)
  | declares (isDeclared isFound : Bool) (sets : List SetReport)
  | sets (sets : List SetReport)
  | membership (reports : List MembershipReport)
  | lookups (results : List (List SetReport)) (entered : List ScopeId)
  | innermost (report : InnermostReport)
  | visibility (id : ScopeId) (clauses : Option (List ClauseReport))
  | poi (id : PoiId)
  | poiScope? (poi : Option PoiScope)
  | diagnostics (diagnostics : List Diagnostic)
  | errors (count : Nat) (hasErrors : Bool)
deriving DecidableEq

end Scoping
