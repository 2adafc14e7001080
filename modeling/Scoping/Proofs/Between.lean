import Scoping.Proofs.Keeping
import Scoping.Proofs.Visibility.Keeping

/-!
What is true between questions on any tree, whether or not chains of parents end. The scope
of a node is a copy of what the node declares, and no resolution is open: one that ends
closes its own mark and leaves no other. So a question about the clauses of a scope with
statements is not turned away.
-/

namespace Scoping

open Context Resolve

/-- What has to be shown of a relation between contexts that building scopes keeps to. -/
structure Program.Erects (program : Program) (changes : Context → Context → Prop) : Prop where
  root : Keeps changes (addScope (.root program.builtins))
  inner : ∀ node enclosing, Keeps changes (addScope (program.scopeFor node enclosing))
  missing : ∀ id, Keeps changes (report (.missingBody id))
  /-- The tables that tell which scope was built for what are of no account. -/
  tables : ∀ context later : Context, later.scopes = context.scopes →
    later.visibility = context.visibility → later.diagnostics = context.diagnostics →
    changes context later

namespace Program.Erects

variable {program : Program} {changes : Context → Context → Prop} [IsPreorder Context changes]
variable (herects : program.Erects changes)
include herects

/-- A result is recorded in one of these tables. -/
theorem record {α : Type} (f : Context → Context) (hf : ∀ context,
    (f context).scopes = context.scopes ∧ (f context).visibility = context.visibility ∧
      (f context).diagnostics = context.diagnostics) (value : α) :
    Keeps changes (do modify f; return value) := by
  refine Keeps.bind (.modify fun context => ?_) fun _ => .pure value
  obtain ⟨hscopes, hvisibility, hdiagnostics⟩ := hf context
  exact herects.tables context (f context) hscopes hvisibility hdiagnostics

theorem rootScope : Keeps changes program.rootScope := by
  unfold Program.rootScope
  refine .get_bind fun context => ?_
  split
  · exact .pure _
  · exact herects.root.bind fun root => herects.record
      (fun context => { context with built := context.built.finish none root })
      (fun _ => ⟨rfl, rfl, rfl⟩) root

theorem standsFor (id : NodeId) : Keeps changes (program.standsFor id) := by
  unfold Program.standsFor
  split
  · split
    · exact .pure _
    · exact (herects.missing id).bind fun _ => .pure id
  · exact .pure _

theorem buildScope (node : NodeId) {around : Resolve ScopeId} (haround : Keeps changes around) :
    Keeps changes (program.buildScope node around) := by
  unfold Program.buildScope
  refine .get_bind fun context => ?_
  split
  · exact .pure _
  · refine haround.bind fun parent => .get_bind fun middle => ?_
    exact (herects.inner node _).bind fun scope => herects.record
      (fun context => { context with built := context.built.finish (some node) scope })
      (fun _ => ⟨rfl, rfl, rfl⟩) scope

theorem climbScopeOf (fuel : Nat) (id : NodeId) : Keeps changes (program.climbScopeOf fuel id) := by
  induction fuel generalizing id with
  | zero => exact fun _ _ _ => nofun
  | succ fuel ih =>
    have hrecord := fun scope => herects.record
      (fun context => { context with scopeOf := context.scopeOf.finish id scope })
      (fun _ => ⟨rfl, rfl, rfl⟩) scope
    rw [Program.climbScopeOf]
    refine .get_bind fun context => ?_
    split
    · exact .pure _
    · refine (herects.standsFor id).bind fun node => ?_
      dsimp only
      -- the climb goes on from the parent, whether or not a scope is built here
      split
      · refine (herects.buildScope node ?_).bind hrecord
        split
        · exact ih _
        · exact herects.rootScope
      · refine Keeps.bind ?_ hrecord
        split
        · exact ih _
        · exact herects.rootScope

theorem scopeOf (id : NodeId) : Keeps changes (program.scopeOf id) :=
  herects.climbScopeOf program.depth id

theorem autoScope : Keeps changes program.autoScope := by
  have hrecord := fun found => herects.record
    (fun context => { context with autoScope := some found }) (fun _ => ⟨rfl, rfl, rfl⟩) found
  unfold Program.autoScope
  refine .get_bind fun context => ?_
  split
  · exact .pure _
  dsimp only
  split
  · exact (herects.scopeOf _).map.bind hrecord
  · exact (Keeps.pure none).bind hrecord

/-- What building scopes keeps to, statements keep to if their errors do. -/
theorem allows (hreport : ∀ error : Diagnostic, error.isError = true →
    Keeps changes (Resolve.report error)) : program.Allows changes :=
  ⟨herects.scopeOf, herects.autoScope, hreport⟩

/-- What building scopes keeps to, questions keep to if the resolutions on the way do. -/
theorem admits (hvisibility : ∀ id, Keeps changes (program.visibility id)) :
    program.Admits changes where
  rootScope := herects.rootScope
  scopeOf := herects.scopeOf
  autoScope := herects.autoScope
  visibility := hvisibility
  others context later hscopes _ _ hvisibility hdiagnostics :=
    herects.tables context later hscopes hvisibility hdiagnostics

end Program.Erects

/-- What has to be shown of a relation between contexts that only matters where the table of
clauses changes. -/
structure Program.Brackets (program : Program) (changes : Context → Context → Prop) : Prop where
  works : ∀ context later : Context, later.visibility = context.visibility →
    changes context later
  /-- A resolution, from what it does between its two marks. -/
  resolution : ∀ {context later : Context} {id : ScopeId} {clauses : List Clause} (fuel : Nat),
    (context.scope id).hasImports = true → context.visibility.progress? id = none →
    program.resolveStatements (program.findWithin (program.resolveVisibility fuel) id) id
      (context.beginning id) = some (clauses, later) →
    changes (context.beginning id) later → changes context (later.finishing id clauses)

namespace Program.Brackets

variable {program : Program} {changes : Context → Context → Prop} [IsPreorder Context changes]
variable (hbrackets : program.Brackets changes)
include hbrackets

omit [IsPreorder Context changes] in
theorem erects : program.Erects changes where
  root context _ _ hrun := by
    cases hrun
    exact hbrackets.works context _ rfl
  inner _ _ context _ _ hrun := by
    cases hrun
    exact hbrackets.works context _ rfl
  missing _ := Keeps.modify fun context => hbrackets.works context _ rfl
  tables context later _ hvisibility _ := hbrackets.works context later hvisibility

theorem allows : program.Allows changes :=
  hbrackets.erects.allows fun _ _ => Keeps.modify fun context => hbrackets.works context _ rfl

/-- A resolution marks its scope, and is done with it when it ends; so do those that it
nests. -/
theorem resolveVisibility (fuel : Nat) (id : ScopeId) :
    Keeps changes (program.resolveVisibility fuel id) := by
  induction fuel generalizing id with
  | zero => exact fun _ _ _ => nofun
  | succ fuel ih =>
    intro context found last hrun
    rcases resolveOnce_cases hrun with
      ⟨rfl, -⟩ | ⟨himports, hnone, clauses, later, hstatements, -, rfl⟩
    · exact refl_of changes last
    · have hfind := findWithin_keeps hbrackets.allows.autoScope ih id
      exact hbrackets.resolution fuel himports hnone hstatements
        (hbrackets.allows.resolveStatements hfind id _ _ _ hstatements)

/-- What resolutions keep to in this way, questions keep to. -/
theorem admits : program.Admits changes :=
  hbrackets.erects.admits (hbrackets.resolveVisibility program.depth)

end Program.Brackets

namespace Context

/-- Whether the scopes of nodes are as the nodes have them. -/
def Copied (program : Program) (context : Context) : Prop :=
  ∀ scope ∈ context.scopes, ∀ owner, scope.owner = some owner →
    ∃ enclosing, scope = program.scopeFor owner enclosing

/-- A step after which the scopes of nodes are so if they were. -/
def Copies (program : Program) (context later : Context) : Prop :=
  context.Copied program → later.Copied program

instance copies_isPreorder (program : Program) : IsPreorder Context (Copies program) where
  refl _ hcopied := hcopied
  trans _ _ _ hfirst hsecond hcopied := hsecond (hfirst hcopied)

/-- A step after which the same resolutions are open as before, and those that had ended still
have their clauses. -/
structure Balances (context later : Context) : Prop where
  running : ∀ id, later.Running id ↔ context.Running id
  finished : ∀ id clauses, context.visibility.get? id = some clauses →
    later.visibility.get? id = some clauses

instance balances_isPreorder : IsPreorder Context Balances where
  refl _ := ⟨fun _ => .rfl, fun _ _ hget => hget⟩
  trans _ _ _ hfirst hsecond := ⟨fun id => (hsecond.running id).trans (hfirst.running id),
    fun id clauses hget => hsecond.finished id clauses (hfirst.finished id clauses hget)⟩

variable {context later : Context}

theorem copies_of_scopes {program : Program} (hscopes : later.scopes = context.scopes) :
    context.Copies program later := by
  intro hcopied
  rwa [Copied, hscopes]

theorem addScope_copies {program : Program} {added : Scope}
    (hadded : ∀ owner, added.owner = some owner →
      ∃ enclosing, added = program.scopeFor owner enclosing) :
    Keeps (Copies program) (addScope added) := by
  intro context id later hrun hcopied scope hscope owner howner
  cases hrun
  rcases Array.mem_push.mp hscope with hold | rfl
  · exact hcopied scope hold owner howner
  · exact hadded owner howner

theorem balances_of_visibility (hvisibility : later.visibility = context.visibility) :
    context.Balances later := by
  refine ⟨fun id => ?_, fun id clauses hget => ?_⟩
  · rw [Running, Running, hvisibility]
  · rwa [hvisibility]

theorem running_finishing (context : Context) (id : ScopeId) (clauses : List Clause)
    (other : ScopeId) :
    (context.finishing id clauses).Running other ↔ other ≠ id ∧ context.Running other := by
  by_cases heq : other = id
  · subst heq
    simp [Running, Context.finishing, Memo.progress?_finish_self]
  · simp [Running, Context.finishing, Memo.progress?_finish_of_ne _ heq, heq]

/-- A resolution that ends closes the mark that it began with. -/
theorem Balances.finishing {id : ScopeId} (hnone : context.visibility.progress? id = none)
    (hbalances : (context.beginning id).Balances later) (clauses : List Clause) :
    context.Balances (later.finishing id clauses) := by
  have hidle : ¬ context.Running id := by simp [Running, hnone]
  refine ⟨fun other => ?_, fun other before hget => ?_⟩
  · rw [running_finishing, hbalances.running, running_beginning hnone, and_or_left,
      or_iff_right not_and_self, and_iff_right_iff_imp]
    rintro hrunning rfl
    exact hidle hrunning
  · have hne : other ≠ id := by
      rintro rfl
      rw [Memo.get?, hnone] at hget
      cases hget
    rw [Context.finishing, Memo.get?_finish_of_ne _ hne]
    refine hbalances.finished other before ?_
    rwa [beginning, Memo.get?_begin]

end Context

namespace Program

variable {program : Program} {context : Context}

theorem erects_copies (program : Program) : program.Erects (Copies program) where
  root := addScope_copies nofun
  inner _ enclosing := addScope_copies fun _ howner =>
    ⟨enclosing, congrArg (program.scopeFor · enclosing) (Option.some.inj howner)⟩
  missing _ := Keeps.modify fun _ => copies_of_scopes rfl
  tables _ _ hscopes _ _ := copies_of_scopes hscopes

theorem permits_copies (program : Program) : program.Permits (Copies program) where
  toAllows := (erects_copies program).allows fun _ _ => Keeps.modify fun _ => copies_of_scopes rfl
  visibility _ _ := copies_of_scopes rfl

theorem admits_copies (program : Program) : program.Admits (Copies program) :=
  (erects_copies program).admits ((permits_copies program).resolveVisibility program.depth)

/-- The scope of a node is read off the node. -/
theorem Reachable.eq_scopeFor (hreachable : program.Reachable context) {id : ScopeId}
    {owner : NodeId} (howned : context.OwnedBy id (some owner)) :
    ∃ enclosing, context.scope id = program.scopeFor owner enclosing := by
  have hcopied := (admits_copies program).reaches hreachable (fun _ hscope => nomatch hscope)
  have hmem : context.scope id ∈ context.scopes := Array.mem_of_getElem? howned.1.scope?
  exact hcopied _ hmem owner howned.2

theorem brackets_balances (program : Program) : program.Brackets Balances where
  works _ _ := balances_of_visibility
  resolution _ _ hnone _ hbalances := hbalances.finishing hnone _

theorem Reachable.idle (hreachable : program.Reachable context) (id : ScopeId) :
    ¬ context.Running id := fun hrunning =>
  nomatch (((brackets_balances program).admits.reaches hreachable).running id).mp hrunning

/-- A question about the clauses of a scope with statements that has an answer is answered
with clauses, and they are on record. -/
theorem get?_of_visibility (hreachable : program.Reachable context) {id : ScopeId}
    (himports : (context.scope id).hasImports = true) {found : Option (List Clause)}
    {later : Context} (hrun : program.visibility id context = some (found, later)) :
    ∃ clauses, found = some clauses ∧ later.visibility.get? id = some clauses := by
  change program.resolveOnce (program.resolveVisibility (program.tree.size + 1)) id context = _
    at hrun
  rcases resolveOnce_cases hrun with ⟨rfl, hknown⟩ | ⟨-, -, clauses, middle, -, rfl, rfl⟩
  · obtain ⟨progress, hprogress, rfl⟩ := hknown himports
    cases progress with
    | running => exact absurd hprogress (hreachable.idle id)
    | done clauses => exact ⟨clauses, rfl, Memo.get?_eq_some_iff.mpr hprogress⟩
  · exact ⟨clauses, rfl, Memo.get?_finish_self _ _ _⟩

end Program

end Scoping
