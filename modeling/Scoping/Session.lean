import Scoping.Instantiation
import Scoping.Lookup
import Scoping.Query
import Scoping.Syntax.Step

/-!
A session builds a tree and answers queries about it, one after another. Each
query finds what earlier ones have worked out, and a refused query keeps what it
had worked out before it was refused.
-/

namespace Scoping

/-- A program together with what has been worked out about it. -/
structure Session where
  names : Interner
  config : Config
  program : Program
  context : Context
deriving Inhabited

/-- Answering a query may be refused; it has no result when it does not end. -/
abbrev Asking (α : Type) := ExceptT Refusal (StateT Session Option) α

/-- The answer to a query, with the state of the session after it. -/
structure Reply where
  answer : Answer
  scopeCount : Nat
  diagnosticCount : Nat
deriving DecidableEq

namespace Session

/-- Nothing has been asked about a tree yet. -/
def start (tree : Tree) (config : Config) (names : Interner) : Session :=
  let (program, names) := Program.ofConfig tree config names
  { names, config, program, context := .empty }

/-- Nothing has been asked about a tree, whose names are the only ones known. -/
def fresh (tree : Tree) (config : Config) : Session := start tree config tree.names

end Session

namespace Asking

/-- Works something out in the context of the session. -/
def work {α : Type} (action : Program → Resolve α) : Asking α :=
  fun session => (action session.program session.context).map fun (result, context) =>
    (.ok result, { session with context })

/-- The name of a text, which need not be an identifier. -/
def intern (text : String) : Asking Name :=
  modifyGet fun session =>
    let (name, names) := session.names.intern text
    (name, { session with names })

/-- The scope of a node, which must be one of the tree. -/
def scopeOf (id : NodeId) : Asking ScopeId := do
  unless (← get).program.tree.contains id do throw (.unknownNode id)
  work fun program => program.scopeOf id

/-- The scope that is meant; a handle must be one of this context. -/
def scope : ScopeRef → Asking ScopeId
  | .root => work Program.rootScope
  | .node id => scopeOf id
  | .handle id => do
    if ((← get).context.scope? id).isNone then throw .staleScope
    return id

/-- The scope that is meant, if one is. -/
def scope? : Option ScopeRef → Asking (Option ScopeId)
  | none => return none
  | some ref => some <$> scope ref

/-- The scopes that are meant, from left to right. -/
def scopes : List ScopeRef → Asking (List ScopeId)
  | [] => return []
  | ref :: rest => do
    let id ← scope ref
    return id :: (← scopes rest)

/-- One lookup by a search that has entered `entered`, and what it has entered
in the end. -/
def lookup (call : LookupCall) (entered : List ScopeId) :
    Asking (List Overloads × List ScopeId) := do
  let id ← scope call.scope
  let receiver ← scope? call.receiver
  let name ← intern call.name
  work fun program => (program.lookupSharing call.config receiver id name).run entered

/-- Lookups one after another, each knowing where those before it have been. -/
def lookups : List LookupCall → List ScopeId → Asking (List (List Overloads) × List ScopeId)
  | [], entered => return ([], entered)
  | call :: rest, entered => do
    let (found, entered) ← lookup call entered
    let (others, entered) ← lookups rest entered
    return (found :: others, entered)

/-- Reads something off the session. -/
def read {α : Type} (view : Session → α) : Asking α := return view (← get)

/-- The sets found by a lookup, with names spelled out. -/
def report (sets : List Overloads) : Asking (List SetReport) :=
  read fun session => sets.map session.names.reportSet

/-- Answers a query. -/
def answer : Query → Asking Answer
  | .nodes => read fun session =>
    .nodes (session.program.tree.nodes.toList.map session.names.reportNode)
  | .node id => read fun session => .node (session.names.reportId session.program.tree id)
  | .isInternal id => read fun session => .flag (session.program.tree.isInInternalModule id)
  | .toplevel text => do
    let name ← intern text
    read fun session => .node? (session.program.tree.toplevel? name)
  | .treeSize => read fun session =>
    let tree := session.program.tree
    .treeSize tree.size tree.isEmpty tree.toplevelCount
  | .intern text => .name <$> intern text
  | .internedCount => read fun session => .count session.names.size
  | .gather id excluded => do
    let excluded ← match excluded with
      | some text => some <$> intern text
      | none => pure none
    read fun session =>
      .gathered (session.names.reportGathered (session.program.tree.gather id excluded))
  | .reconfigure config => do
    modify fun session => .start session.program.tree config session.names
    return .done
  | .config => read fun session => .config session.config
  | .invalidate => do
    modify fun session => { session with context := session.context.invalidate }
    return .done
  | .scopeCount => read fun session => .count session.context.scopeCount
  | .rootScope => .scope <$> scope .root
  | .scopeOf id => .scope <$> scopeOf id
  | .moduleOf ref => do
    let id ← scope ref
    read fun session => .scope? (session.context.moduleOf? id)
  | .scope (.handle id) => read fun session =>
    .scopeReport? ((session.context.scope? id).map (session.names.reportScope id))
  | .scope ref => do
    let id ← scope ref
    read fun session =>
      .scopeReport? ((session.context.scope? id).map (session.names.reportScope id))
  | .declares ref text => do
    let id ← scope ref
    let name ← intern text
    read fun session =>
      let sets := (session.context.scope id).lookup name
      .declares ((session.context.scope id).declares name) (!sets.isEmpty)
        (sets.map session.names.reportSet)
  | .lookup call => do
    let (found, _) ← lookup call []
    return .sets (← report found)
  | .membership ref text id => do
    let (found, _) ← lookup ⟨ref, none, text, .allVisible⟩ []
    read fun session => .membership (found.map (session.names.reportMembership (.node id)))
  | .lookups entered calls => do
    let entered ← scopes entered
    let (results, entered) ← lookups calls entered
    read fun session =>
      .lookups (results.map fun found => found.map session.names.reportSet)
        (((List.range session.context.scopeCount).map ScopeId.mk).filter entered.contains)
  | .innermost ref text => do
    let id ← scope ref
    let name ← intern text
    let result ← work fun program => program.innermost id name
    read fun session => .innermost (session.names.reportInnermost result)
  | .seesWhole goal start => do
    let goal ← scope goal
    let start ← scope start
    .flag <$> work fun program => program.seesWhole goal start
  | .visibility ref => do
    let id ← scope ref
    let clauses ← work fun program => program.visibility id
    read fun session =>
      .visibility id (clauses.map fun found => found.map session.names.reportClause)
  | .instantiation ref outer => do
    let id ← scope ref
    if let some link := outer then
      if ((← get).context.poi? link).isNone then throw .stalePoi
    .poi <$> work fun program => program.instantiationPoint id outer
  | .poi id => read fun session => .poiScope? (session.context.poi? id)
  | .diagnostics => read fun session => .diagnostics session.context.diagnostics.reported
  | .diagnosticsAt id => read fun session => .diagnostics (session.context.diagnostics.atNode id)
  | .errors => read fun session =>
    .errors session.context.diagnostics.errorCount session.context.diagnostics.hasErrors

end Asking

namespace Session

/-- Asks one query. There is no reply when answering it does not end. -/
def ask (session : Session) (query : Query) : Option (Reply × Session) := do
  let (outcome, session) ← (ExceptT.run (Asking.answer query)).run session
  let answer := match outcome with
    | .ok answer => answer
    | .error refusal => .refused refusal
  return (⟨answer, session.context.scopeCount, session.context.diagnostics.size⟩, session)

/-- Asks queries one after another. -/
def askAll (session : Session) : List Query → Option (List Reply × Session)
  | [] => some ([], session)
  | query :: rest => do
    let (reply, session) ← session.ask query
    let (replies, session) ← session.askAll rest
    return (reply :: replies, session)

/-- Builds a tree, over an interner that holds `texts` before the first step. -/
def build (texts : List String) (steps : List BuildStep) :
    List (Except BuildError BuildAnswer) × Except BuildError Tree :=
  let (_, names) := Interner.initial.internAll texts
  let (outcomes, builder) := BuildStep.runAll steps (.ofNames names)
  (outcomes, builder.finish)

end Session

end Scoping
