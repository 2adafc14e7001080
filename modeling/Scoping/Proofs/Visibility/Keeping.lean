import Scoping.Proofs.Lookup.Keeping
import Scoping.Proofs.Visibility.Resolution

/-!
What resolving clauses does to a context, in terms of four kinds of steps: building
scopes, reporting errors, marking how far resolutions have come, and finding the automatic
module. Whatever sequences of such steps keep to, every resolution keeps to.
-/

namespace Scoping

open Resolve

/-- What has to be shown of a relation between contexts that the statements of a scope keep
to, if the resolutions on the way do. -/
structure Program.Allows (program : Program) (changes : Context → Context → Prop) : Prop where
  scopeOf : ∀ id, Keeps changes (program.scopeOf id)
  autoScope : Keeps changes program.autoScope
  report : ∀ error : Diagnostic, error.isError = true → Keeps changes (Resolve.report error)

/-- What has to be shown of a relation between contexts that resolutions keep to. -/
structure Program.Permits (program : Program) (changes : Context → Context → Prop) : Prop
    extends program.Allows changes where
  /-- How far resolutions have come is of no account. -/
  visibility : ∀ (context : Context) (visibility : Memo ScopeId (List Clause)),
    changes context { context with visibility }

/-- A search on behalf of a scope whose clauses are being worked out. -/
theorem Program.findWithin_keeps {program : Program} {changes : Context → Context → Prop}
    [IsPreorder Context changes] (hauto : Keeps changes program.autoScope)
    {inner : ScopeId → Resolve (Option (List Clause))}
    (hinner : ∀ other, Keeps changes (inner other)) (id : ScopeId) (clauses : List Clause)
    (config : LookupConfig) (scope : ScopeId) (name : Name) :
    Keeps changes (program.findWithin inner id clauses config scope name) := by
  refine (search_keeps hauto (fun other => ?_) config scope name []).map
  unfold viewWithin
  split
  · exact .pure _
  · exact (hinner other).bind fun _ => .pure _

namespace Program.Allows

variable {program : Program} {changes : Context → Context → Prop} [IsPreorder Context changes]
variable {find : Finder} {finds : List Clause → Finder} {stmt : Statement} {scope : ScopeId}
variable (hallows : program.Allows changes)
include hallows

/-- A step that is refused. -/
theorem refuse {α : Type} {error : Diagnostic} (herror : error.isError = true) (value : α) :
    Keeps changes (do Resolve.report error; return value) :=
  (hallows.report error herror).bind fun _ => .pure value

theorem splitRename (symbol : NodeId) : Keeps changes (program.splitRename symbol) := by
  unfold Program.splitRename
  split
  · split
    · exact .pure _
    · exact hallows.refuse rfl _
  · exact .pure _

theorem listedPair (entry : NodeId) : Keeps changes (program.listedPair entry) := by
  unfold Program.listedPair
  split
  · exact .pure _
  · exact hallows.refuse rfl _
  · split
    · exact hallows.refuse rfl _
    · exact hallows.refuse rfl _
    · exact .pure _
  · exact hallows.refuse rfl _

theorem listedPairs (entries : List NodeId) : Keeps changes (program.listedPairs entries) := by
  induction entries with
  | nil => exact .pure _
  | cons entry rest ih => exact (hallows.listedPair entry).bind fun pair => ih.bind fun _ => .pure _

theorem refuseRenames (entries : List NodeId) : Keeps changes (program.refuseRenames entries) := by
  induction entries with
  | nil => exact .pure _
  | cons entry rest ih =>
    rw [Program.refuseRenames]
    split
    · exact (hallows.report _ rfl).bind fun _ => ih
    · exact ih

section

variable (hfind : ∀ config scope name, Keeps changes (find config scope name))
include hfind

theorem checkName (target : ScopeId) (name : Name) (site : NodeId) :
    Keeps changes (program.checkName find stmt target name site) := by
  refine (hfind _ _ _).bind fun found => ?_
  split
  · exact hallows.report _ rfl
  · exact .pure _

theorem checkListed (target : ScopeId) (entries : List NodeId) :
    Keeps changes (program.checkListed find stmt target entries) := by
  induction entries with
  | nil => exact .pure _
  | cons entry rest ih =>
    rw [Program.checkListed]
    split
    · exact (hallows.checkName hfind target _ _).bind fun _ => ih
    · exact ih

theorem resolveSegment (config : LookupConfig) (scope : ScopeId) (name : Name) (site : NodeId) :
    Keeps changes (program.resolveSegment find stmt config scope name site) := by
  refine (hfind _ _ _).bind fun found => ?_
  split
  · exact hallows.refuse rfl _
  · split
    · exact (hallows.scopeOf _).map
    · exact hallows.refuse rfl _
  · exact hallows.refuse rfl _

theorem resolveHead (head : NodeId) :
    Keeps changes (program.resolveHead find stmt scope head) := by
  unfold Program.resolveHead
  split
  · exact hallows.refuse rfl _
  split
  · refine .get_bind fun context => ?_
    split
    · exact .pure _
    · exact hallows.refuse rfl _
  · exact (hallows.resolveSegment hfind _ scope _ head).bind fun _ => .pure _

theorem resolveFields (start : ScopeId × Name) (fields : List (NodeId × Name)) :
    Keeps changes (program.resolveFields find stmt start fields) := by
  induction fields generalizing start with
  | nil => exact .pure _
  | cons field rest ih =>
    refine (hallows.resolveSegment hfind _ _ _ _).bind fun inner? => ?_
    cases inner? with
    | none => exact .pure _
    | some inner => exact ih _

theorem resolvePath (expr : NodeId) :
    Keeps changes (program.resolvePath find stmt scope expr) := by
  refine (hallows.resolveHead hfind _).bind fun start? => ?_
  cases start? with
  | none => exact .pure _
  | some start => exact hallows.resolveFields hfind start _

theorem throughTarget (symbol : NodeId) {pathOf : NodeId → NodeId}
    {rest : NodeId → Option Name → ScopeId → Name → Resolve (List Clause)}
    (hrest : ∀ expr newName target name, Keeps changes (rest expr newName target name)) :
    Keeps changes (program.throughTarget find stmt scope symbol pathOf rest) := by
  refine (hallows.splitRename symbol).bind fun parts? => ?_
  cases parts? with
  | none => exact .pure _
  | some parts =>
    refine (hallows.resolvePath hfind _).bind fun reached? => ?_
    cases reached? with
    | none => exact .pure _
    | some reached => exact hrest _ _ _ _

end

section

variable (hfinds : ∀ clauses config scope name, Keeps changes (finds clauses config scope name))
include hfinds

theorem useClauses (isPrivate : Bool) (before : List Clause) (site symbol : NodeId)
    (limitation : Limitation) (limitations : List NodeId) :
    Keeps changes (program.useClauses finds scope isPrivate before site symbol limitation
      limitations) := by
  rw [useClauses_eq]
  split
  · exact hallows.refuse rfl _
  refine hallows.throughTarget (hfinds before) symbol fun expr newName target name => ?_
  dsimp only
  split
  · exact (hallows.refuseRenames limitations).bind fun _ =>
      (hallows.listedPairs limitations).bind fun _ => .pure _
  · exact (hallows.checkListed (hfinds _) _ limitations).bind fun _ =>
      (hallows.listedPairs limitations).bind fun _ => .pure _
  · exact .pure _
  · exact .pure _

theorem importClauses (isPrivate : Bool) (before : List Clause) (site symbol : NodeId)
    (limitation : Limitation) (limitations : List NodeId) :
    Keeps changes (program.importClauses finds scope isPrivate before site symbol limitation
      limitations) := by
  rw [importClauses_eq]
  split
  · exact hallows.refuse rfl _
  refine hallows.throughTarget (hfinds before) symbol fun expr newName target name => ?_
  split
  · exact (hallows.checkListed (hfinds _) _ limitations).bind fun _ =>
      (hallows.listedPairs limitations).bind fun _ => .pure _
  · exact (hallows.checkName (hfinds _) _ _ site).bind fun _ => .pure _
  · exact .pure _

theorem addClause (isPrivate : Bool) (before : List Clause) (site : NodeId) :
    Keeps changes (program.addClause finds stmt scope isPrivate before site) := by
  unfold Program.addClause
  split
  · cases stmt with
    | use => exact (hallows.useClauses hfinds isPrivate before site _ _ _).bind fun _ => .pure _
    | imports =>
      exact (hallows.importClauses hfinds isPrivate before site _ _ _).bind fun _ => .pure _
  · exact .pure _

omit hallows hfinds in
/-- The nodes of a list, one after another. -/
theorem foldlM {step : List Clause → NodeId → Resolve (List Clause)}
    (hstep : ∀ before node, Keeps changes (step before node)) (nodes : List NodeId)
    (before : List Clause) : Keeps changes (nodes.foldlM step before) := by
  induction nodes generalizing before with
  | nil => exact .pure before
  | cons node rest ih =>
    rw [List.foldlM_cons]
    exact (hstep before node).bind ih

theorem addStatement (before : List Clause) (node : NodeId) :
    Keeps changes (program.addStatement finds scope before node) := by
  unfold Program.addStatement
  split
  · exact foldlM (hallows.addClause hfinds _) _ before
  · exact foldlM (hallows.addClause hfinds _) _ before
  · exact .pure before

theorem resolveStatements (id : ScopeId) :
    Keeps changes (program.resolveStatements finds id) := by
  refine .scope_bind fun scope => ?_
  split
  · exact foldlM (hallows.addStatement hfinds) _ []
  · exact .pure []

end

end Program.Allows

namespace Program.Permits

variable {program : Program} {changes : Context → Context → Prop} [IsPreorder Context changes]
variable (hpermits : program.Permits changes)
include hpermits

theorem resolveOnce {inner : ScopeId → Resolve (Option (List Clause))}
    (hinner : ∀ other, Keeps changes (inner other)) (id : ScopeId) :
    Keeps changes (program.resolveOnce inner id) := by
  unfold Program.resolveOnce
  refine .scope_bind fun scope => ?_
  split
  · refine .get_bind fun context => ?_
    split
    · exact .pure _
    · exact .pure _
    refine Keeps.bind (.modify fun context => hpermits.visibility context _) fun _ => ?_
    have hfinds := findWithin_keeps hpermits.autoScope hinner id
    refine (hpermits.resolveStatements hfinds id).bind fun clauses =>
      Keeps.bind (.modify fun context => hpermits.visibility context _) fun _ => .pure _
  · exact .pure _

/-- Every resolution keeps to the relation, with those that it nests. -/
theorem resolveVisibility (fuel : Nat) (id : ScopeId) :
    Keeps changes (program.resolveVisibility fuel id) := by
  induction fuel generalizing id with
  | zero => exact fun _ _ _ => nofun
  | succ fuel ih => exact hpermits.resolveOnce ih id

end Program.Permits

end Scoping
