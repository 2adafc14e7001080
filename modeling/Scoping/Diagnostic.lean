import Scoping.Syntax.Node

/-!
Problems found while statements are resolved. Each is anchored to the node that
it is about. A problem never stops resolution: the offending clause is dropped
and the rest goes on as usual.
-/

namespace Scoping

/-- How grave a problem is. -/
inductive Severity where
  | error
  | warning
deriving DecidableEq, Inhabited

/-- The word a severity goes by. -/
def Severity.word : Severity → String
  | .error => "error"
  | .warning => "warning"

/-- The two statements that bring names in. -/
inductive Statement where
  | use
  | imports
deriving DecidableEq, Inhabited

/-- The keyword of a statement. -/
def Statement.keyword : Statement → String
  | .use => "use"
  | .imports => "import"

/-- One reported problem. -/
structure Diagnostic where
  node : NodeId
  severity : Severity
  code : Option String
  message : String
deriving DecidableEq

namespace Diagnostic

def error (node : NodeId) (message : String) (code : Option String) : Diagnostic :=
  ⟨node, .error, code, message⟩

def warning (node : NodeId) (message : String) (code : Option String) : Diagnostic :=
  ⟨node, .warning, code, message⟩

def isError (diagnostic : Diagnostic) : Bool := diagnostic.severity == .error

/-- A path segment names nothing within reach. -/
def unresolvedTarget (node : NodeId) (stmt : Statement) : Diagnostic :=
  error node ("could not find target of '" ++ stmt.keyword ++ "'") "V0001"

/-- A path segment names more than one declaration. -/
def ambiguousTarget (node : NodeId) (stmt : Statement) : Diagnostic :=
  error node ("ambiguity in finding target of '" ++ stmt.keyword ++ "'") "V0002"

/-- A path segment names something that is no module, nor an enumeration
where one may stand. -/
def notAModule (node : NodeId) : Diagnostic := error node "does not refer to a module" "V0003"

/-- A listed name does not exist in the target. -/
def limitationNotFound (node : NodeId) (name : String) (stmt : Statement) : Diagnostic :=
  error node ("could not find '" ++ name ++ "' for '" ++ stmt.keyword ++ "'") "V0004"

/-- A form of syntax that cannot stand where it does. -/
def unsupported (node : NodeId) (message : String) : Diagnostic := error node message "V0005"

/-- An include without a parsed body. -/
def missingBody (node : NodeId) : Diagnostic :=
  warning node "could not find the submodule named by 'include'" none

end Diagnostic

/-- Problems in the order in which they were reported. -/
structure Diagnostics where
  reported : List Diagnostic
deriving DecidableEq

namespace Diagnostics

def empty : Diagnostics := ⟨[]⟩

instance : Inhabited Diagnostics := ⟨empty⟩

def add (log : Diagnostics) (diagnostic : Diagnostic) : Diagnostics :=
  ⟨log.reported ++ [diagnostic]⟩

/-- Forgets every problem. -/
def clear (log : Diagnostics) : Diagnostics := { log with reported := [] }

/-- The problems anchored to one node. -/
def atNode (log : Diagnostics) (node : NodeId) : List Diagnostic :=
  log.reported.filter fun diagnostic => diagnostic.node = node

def size (log : Diagnostics) : Nat := log.reported.length

def isEmpty (log : Diagnostics) : Bool := log.reported.isEmpty

def errorCount (log : Diagnostics) : Nat := (log.reported.filter Diagnostic.isError).length

def hasErrors (log : Diagnostics) : Bool := log.reported.any Diagnostic.isError

/-- A log has errors exactly when it counts some. -/
theorem hasErrors_iff_errorCount_pos (log : Diagnostics) :
    log.hasErrors = true ↔ 0 < log.errorCount := by
  simp [hasErrors, errorCount, List.length_pos_iff_exists_mem]

end Diagnostics

end Scoping
