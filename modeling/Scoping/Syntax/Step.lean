import Scoping.Syntax.Builder

/-!
Build steps as data: a program for the builder is a list of steps, each with
its own outcome. Steps after a failing one still run.
-/

namespace Scoping

/-- One step of building a tree. -/
inductive BuildStep where
  | identifier (text : String)
  | dot (receiver : NodeId) (field : String)
  | dotted (path : String)
  | rename (symbol renamed : NodeId)
  | renameTo (symbol : NodeId) (newName : String)
  | clause (symbol : NodeId) (limitation : Limitation) (limitations : List NodeId)
  | useStmt (access : Access) (clauses : List NodeId)
  | importStmt (access : Access) (clauses : List NodeId)
  | variableDecl (text : String) (typeExpr : Option NodeId)
  | formal (text : String) (typeExpr : Option NodeId)
  | typeQuery (text : String)
  | call (operands : List NodeId)
  | functionDecl (text : String) (formals body : List NodeId)
  | recordDecl (text : String) (members : List NodeId)
  | classDecl (text : String) (members : List NodeId)
  | enumDecl (text : String) (elementNames : List String)
  | tupleDecl (components : List NodeId)
  | multiDecl (decls : List NodeId)
  | compound (form : Compound) (children : List NodeId)
  | moduleDecl (internal : Bool) (text : String) (stmts : List NodeId)
  | includeDecl (text : String)
  /-- Links a module to an include as its body. -/
  | link (site body : NodeId)
  /-- Interns a checked identifier without making a node. -/
  | intern (text : String)
  /-- Asks for the number of interned texts. -/
  | internedCount
deriving DecidableEq

/-- What a step that succeeds answers. -/
inductive BuildAnswer where
  | node (id : NodeId)
  | name (name : Name)
  | count (size : Nat)
  | done
deriving DecidableEq

namespace BuildStep

/-- Runs one step. -/
def perform : BuildStep → Build BuildAnswer
  | .identifier text => .node <$> Builder.identifier text
  | .dot receiver field => .node <$> Builder.dot receiver field
  | .dotted path => .node <$> Builder.dotted path
  | .rename symbol renamed => .node <$> Builder.rename symbol renamed
  | .renameTo symbol newName => .node <$> Builder.renameTo symbol newName
  | .clause symbol limitation limitations =>
    .node <$> Builder.clause symbol limitation limitations
  | .useStmt access clauses => .node <$> Builder.push (.useStmt access) clauses
  | .importStmt access clauses => .node <$> Builder.push (.importStmt access) clauses
  | .variableDecl text typeExpr =>
    .node <$> Builder.pushNamed (.variableDecl · typeExpr) text typeExpr.toList
  | .formal text typeExpr => .node <$> Builder.pushNamed (.formal · typeExpr) text typeExpr.toList
  | .typeQuery text => .node <$> Builder.pushNamed .typeQuery text []
  | .call operands => .node <$> Builder.push .call operands
  | .functionDecl text formals body =>
    .node <$> Builder.pushNamed .functionDecl text (formals ++ body)
  | .recordDecl text members => .node <$> Builder.pushNamed .recordDecl text members
  | .classDecl text members => .node <$> Builder.pushNamed .classDecl text members
  | .enumDecl text elementNames => .node <$> Builder.enumeration text elementNames
  | .tupleDecl components => .node <$> Builder.push .tupleDecl components
  | .multiDecl decls => .node <$> Builder.push .multiDecl decls
  | .compound form children => .node <$> Builder.push (.compound form) children
  | .moduleDecl internal text stmts =>
    .node <$> Builder.pushNamed (.moduleDecl · internal) text stmts
  | .includeDecl text => .node <$> Builder.pushNamed .includeDecl text []
  | .link site body => do
    Builder.link site body
    return .done
  | .intern text => .name <$> Builder.name text
  | .internedCount => return .count (← get).names.size

/-- Runs one step on a builder. -/
def run (step : BuildStep) (builder : Builder) : Except BuildError BuildAnswer × Builder :=
  (ExceptT.run step.perform).run builder

/-- Runs steps from left to right, whether they succeed or not. -/
def runAll : List BuildStep → Builder → List (Except BuildError BuildAnswer) × Builder
  | [], builder => ([], builder)
  | step :: rest, builder =>
    let (outcome, builder) := step.run builder
    let (outcomes, builder) := runAll rest builder
    (outcome :: outcomes, builder)

end BuildStep

end Scoping
