import Mathlib.Logic.Relation
import Scoping.Proofs.Asking
import Scoping.Proofs.Between

/-!
The marks of resolutions that are under way. A resolution marks its scope, works out its
statements, which may nest other resolutions, and ends by putting its clauses in the place of
the mark. So at any time the marked scopes are those on the call stack, each there once; no
resolution begins for a scope that is on it or has its clauses; and the statements of a scope
are worked out at most once for as long as nothing is forgotten.
-/

namespace Scoping

open Context Resolve

namespace Context

/-- Whether a resolution of a scope was begun, so that its clauses are known or on the way. -/
def Begun (context : Context) (id : ScopeId) : Prop :=
  (context.visibility.progress? id).isSome = true

variable {context later : Context} {id : ScopeId}

theorem not_begun (hnone : context.visibility.progress? id = none) : ¬ context.Begun id := by
  rw [Begun, hnone]
  nofun

theorem Running.begun (hrunning : context.Running id) : context.Begun id := by
  rw [Begun, hrunning, Option.isSome_some]

theorem begun_of_visibility (hvisibility : later.visibility = context.visibility) :
    later.Begun id ↔ context.Begun id := by
  rw [Begun, Begun, hvisibility]

/-- Between resolutions, the scopes for which one was begun are those with clauses. -/
theorem begun_iff_of_not_running (hidle : ¬ context.Running id) :
    context.Begun id ↔ (context.visibility.get? id).isSome = true := by
  rw [Running] at hidle
  rw [Begun, Memo.get?]
  cases hprogress : context.visibility.progress? id with
  | none => rfl
  | some progress =>
    cases progress with
    | running => exact absurd hprogress hidle
    | done clauses => rfl

theorem Balances.begun (hbalances : context.Balances later) (hbegun : context.Begun id) :
    later.Begun id := by
  by_cases hrunning : context.Running id
  · exact ((hbalances.running id).mpr hrunning).begun
  · obtain ⟨clauses, hget⟩ :=
      Option.isSome_iff_exists.mp ((begun_iff_of_not_running hrunning).mp hbegun)
    have hdone := Memo.get?_eq_some_iff.mp (hbalances.finished id clauses hget)
    rw [Begun, hdone, Option.isSome_some]

theorem begun_beginning (hnone : context.visibility.progress? id = none) (other : ScopeId) :
    (context.beginning id).Begun other ↔ other = id ∨ context.Begun other := by
  by_cases heq : other = id
  · subst heq
    simp [Begun, beginning, Memo.progress?_begin_self hnone]
  · simp [Begun, beginning, Memo.progress?_begin_of_ne _ heq, heq]

theorem begun_finishing (context : Context) (id : ScopeId) (clauses : List Clause)
    (other : ScopeId) :
    (context.finishing id clauses).Begun other ↔ other = id ∨ context.Begun other := by
  by_cases heq : other = id
  · subst heq
    simp [Begun, finishing, Memo.progress?_finish_self]
  · simp [Begun, finishing, Memo.progress?_finish_of_ne _ heq, heq]

end Context

/-- A resolution that is under way: its scope, how deep it may nest others, and what was known
when it was asked for. -/
structure Frame where
  id : ScopeId
  fuel : Nat
  start : Context

/-- How far a computation has come. -/
structure Stage where
  context : Context
  /-- The resolutions that are under way, the innermost one first. -/
  stack : List Frame
  /-- The scopes for which a resolution was begun, the last one first. -/
  begun : List ScopeId

namespace Stage

variable {program : Program} {stage later : Stage}

/-- Nothing is known, and nothing is under way. -/
def initial : Stage := ⟨.empty, [], []⟩

/-- The scopes on the call stack. -/
def active (stage : Stage) : List ScopeId := stage.stack.map Frame.id

/-- What can happen next. -/
inductive Step (program : Program) : Stage → Stage → Prop
  /-- Something is worked out that has no part in the table of clauses. -/
  | works {context later : Context} {stack : List Frame} {begun : List ScopeId}
    (hvisibility : later.visibility = context.visibility) :
    Step program ⟨context, stack, begun⟩ ⟨later, stack, begun⟩
  /-- A resolution begins, of a scope with statements of which nothing is known. -/
  | begins {context : Context} {stack : List Frame} {begun : List ScopeId} {id : ScopeId}
    (fuel : Nat) (himports : (context.scope id).hasImports = true)
    (hnone : context.visibility.progress? id = none) :
    Step program ⟨context, stack, begun⟩
      ⟨context.beginning id, ⟨id, fuel, context⟩ :: stack, id :: begun⟩
  /-- The innermost resolution ends, with what its statements come to in the context in which
  it began. -/
  | ends {context : Context} {frame : Frame} {stack : List Frame} {begun : List ScopeId}
    {clauses : List Clause}
    (hstatements : program.resolveStatements
      (program.findWithin (program.resolveVisibility frame.fuel) frame.id) frame.id
      (frame.start.beginning frame.id) = some (clauses, context)) :
    Step program ⟨context, frame :: stack, begun⟩
      ⟨context.finishing frame.id clauses, stack, begun⟩

/-- Any number of steps. -/
def Run (program : Program) : Stage → Stage → Prop := Relation.ReflTransGen (Step program)

/-- Whether the marks are those of the call stack, on which no scope is twice, and the scopes
that are marked or have clauses are those for which a resolution was begun, none of them
twice. -/
structure Marked (stage : Stage) : Prop where
  running : ∀ id, stage.context.Running id ↔ id ∈ stage.active
  active_nodup : stage.active.Nodup
  begun : ∀ id, stage.context.Begun id ↔ id ∈ stage.begun
  begun_nodup : stage.begun.Nodup

theorem marked_initial : initial.Marked where
  running _ := ⟨nofun, nofun⟩
  active_nodup := .nil
  begun _ := ⟨nofun, nofun⟩
  begun_nodup := .nil

/-- A step keeps the marks in line with the call stack: a resolution that begins is new to both,
and one that ends takes away the mark of the innermost scope. -/
theorem Step.marked (hstep : Step program stage later) (hmarked : stage.Marked) :
    later.Marked := by
  cases hstep with
  | works hvisibility =>
    exact ⟨fun id => ((balances_of_visibility hvisibility).running id).trans (hmarked.running id),
      hmarked.active_nodup, fun id => (begun_of_visibility hvisibility).trans (hmarked.begun id),
      hmarked.begun_nodup⟩
  | @begins context stack begun id fuel himports hnone =>
    have hnew : ¬ context.Begun id := not_begun hnone
    refine ⟨fun other => ?_, List.nodup_cons.mpr ⟨fun hmem => ?_, hmarked.active_nodup⟩,
      fun other => ?_, List.nodup_cons.mpr ⟨fun hmem => ?_, hmarked.begun_nodup⟩⟩
    · rw [running_beginning hnone, hmarked.running other]
      exact List.mem_cons.symm
    · exact hnew ((hmarked.running id).mpr hmem).begun
    · rw [begun_beginning hnone, hmarked.begun other]
      exact List.mem_cons.symm
    · exact hnew ((hmarked.begun id).mpr hmem)
  | @ends context frame stack begun clauses hstatements =>
    obtain ⟨htop, hrest⟩ := List.nodup_cons.mp hmarked.active_nodup
    have hrunning : context.Running frame.id := (hmarked.running _).mpr List.mem_cons_self
    refine ⟨fun other => ?_, hrest, fun other => ?_, hmarked.begun_nodup⟩
    · rw [running_finishing, hmarked.running other]
      refine ⟨fun ⟨hne, hmem⟩ => List.mem_of_ne_of_mem hne hmem, fun hmem => ?_⟩
      exact ⟨ne_of_mem_of_not_mem hmem htop, List.mem_cons_of_mem _ hmem⟩
    · rw [begun_finishing, hmarked.begun other, or_iff_right_iff_imp]
      rintro rfl
      exact (hmarked.begun _).mp hrunning.begun

theorem Run.marked (hrun : Run program stage later) (hmarked : stage.Marked) : later.Marked := by
  induction hrun with
  | refl => exact hmarked
  | tail _ hstep ih => exact hstep.marked ih

/-- No step changes clauses that are there: the only one to write any puts them in the place of
a mark. -/
theorem Step.finished (hstep : Step program stage later) (hmarked : stage.Marked) {id : ScopeId}
    {clauses : List Clause} (hget : stage.context.visibility.get? id = some clauses) :
    later.context.visibility.get? id = some clauses := by
  cases hstep with
  | works hvisibility => exact hvisibility ▸ hget
  | begins => exact (Memo.get?_begin ..).trans hget
  | @ends context frame stack begun found hstatements =>
    have hrunning : context.Running frame.id := (hmarked.running _).mpr List.mem_cons_self
    have hne : id ≠ frame.id := by
      rintro rfl
      have hdone := Memo.get?_eq_some_iff.mp hget
      rw [hrunning] at hdone
      cases hdone
    exact (Memo.get?_finish_of_ne _ hne found).trans hget

theorem Run.finished (hrun : Run program stage later) (hmarked : stage.Marked) {id : ScopeId}
    {clauses : List Clause} (hget : stage.context.visibility.get? id = some clauses) :
    later.context.visibility.get? id = some clauses := by
  induction hrun with
  | refl => exact hget
  | tail hrun hstep ih => exact hstep.finished (Run.marked hrun hmarked) ih

end Stage

namespace Context

/-- Whether a computation comes about by steps that leave behind the call stack that they find. -/
def Nests (program : Program) (context later : Context) : Prop :=
  ∀ stack begun, ∃ more,
    Stage.Run program ⟨context, stack, begun⟩ ⟨later, stack, more ++ begun⟩

instance nests_isPreorder (program : Program) : IsPreorder Context (Nests program) where
  refl _ _ _ := ⟨[], .refl⟩
  trans _ _ _ hfirst hsecond stack begun := by
    obtain ⟨more, hmore⟩ := hfirst stack begun
    obtain ⟨others, hothers⟩ := hsecond stack (more ++ begun)
    refine ⟨others ++ more, hmore.trans ?_⟩
    rwa [List.append_assoc]

end Context

namespace Program

variable {program : Program} {context : Context}

theorem brackets_nests (program : Program) : program.Brackets (Nests program) where
  works _ _ hvisibility _ _ := ⟨[], .single (.works hvisibility)⟩
  resolution {context later id clauses} fuel himports hnone hstatements hinside stack begun := by
    obtain ⟨more, hmore⟩ := hinside (⟨id, fuel, context⟩ :: stack) (id :: begun)
    refine ⟨more ++ [id], ?_⟩
    rw [List.append_assoc, List.singleton_append]
    exact ((Relation.ReflTransGen.single (.begins fuel himports hnone)).trans hmore).tail
      (.ends hstatements)

end Program

namespace Session

/-- Whether the same resolutions are under way in a later state of a session. -/
def Balances (session later : Session) : Prop := session.context.Balances later.context

instance balances_isPreorder : IsPreorder Session Balances where
  refl session := refl_of Context.Balances session.context
  trans _ _ _ := trans_of Context.Balances

theorem admits_balances (texts : List String) :
    Asking.Admits texts Context.Balances Balances where
  program program := (Program.brackets_balances program).admits
  context _ _ hbalances := hbalances
  names session _ _ := refl_of Context.Balances session.context

theorem balances_askAll {session reached : Session} {queries : List Query}
    {replies : List Reply} (hqueries : ∀ query ∈ queries, query.startsOver = false)
    (hasked : session.askAll queries = some (replies, reached)) : session.Balances reached := by
  induction queries generalizing session replies with
  | nil =>
    cases hasked
    exact refl_of Balances reached
  | cons query rest ih =>
    obtain ⟨hquery, hrest⟩ := List.forall_mem_cons.mp hqueries
    obtain ⟨reply, middle, others, hask, hlast⟩ := exists_of_askAll_cons hasked
    exact trans_of Balances ((admits_balances query.texts).ask hquery hask) (ih hrest hlast)

/-- No resolution is under way between queries, answered or refused. -/
theorem idle_askAll {session reached : Session} {history : List Query} {replies : List Reply}
    (hidle : ∀ id, ¬ session.context.Running id)
    (hasked : session.askAll history = some (replies, reached)) (id : ScopeId) :
    ¬ reached.context.Running id := by
  induction history generalizing session replies with
  | nil =>
    cases hasked
    exact hidle id
  | cons query rest ih =>
    obtain ⟨reply, middle, others, hask, hrest⟩ := exists_of_askAll_cons hasked
    refine ih (fun other hrunning => ?_) hrest
    cases hquery : query.startsOver with
    | false =>
      have hbalances := (admits_balances query.texts).ask hquery hask
      exact hidle other ((hbalances.running other).mp hrunning)
    | true =>
      rw [context_of_startsOver hquery hask] at hrunning
      cases hrunning

end Session

namespace Program

variable {program : Program} {context : Context}

/-- What asking for the clauses of a scope comes to, where resolutions nest `fuel` deep. -/
structure Called (program : Program) (fuel : Nat) (id : ScopeId) (context : Context)
    (found : Option (List Clause)) (later : Context) : Prop where
  /-- The same scopes are marked on return, and finished entries stay. -/
  balances : context.Balances later
  /-- No resolution begins for a scope that is marked or finished. -/
  turned : context.Begun id → later = context
  /-- One that begins has the statements worked out with one more mark, its own, and ends by
  writing over that mark. -/
  resolved : (context.scope id).hasImports = true → ¬ context.Begun id →
    ∃ clauses middle,
      program.resolveStatements (program.findWithin (program.resolveVisibility fuel) id) id
        (context.beginning id) = some (clauses, middle) ∧
      (∀ other, middle.Running other ↔ other = id ∨ context.Running other) ∧
      found = some clauses ∧ later = middle.finishing id clauses
  /-- Whatever is on the call stack stays there. -/
  nests : context.Nests program later

theorem called_of_resolveVisibility {fuel : Nat} {id : ScopeId}
    {found : Option (List Clause)} {later : Context}
    (hrun : program.resolveVisibility (fuel + 1) id context = some (found, later)) :
    program.Called fuel id context found later := by
  have hbalances := brackets_balances program
  refine ⟨hbalances.resolveVisibility _ id context found later hrun, fun hbegun => ?_,
    fun himports hnew => ?_, (brackets_nests program).resolveVisibility _ id _ _ _ hrun⟩
  · rcases resolveOnce_cases hrun with ⟨heq, -⟩ | ⟨-, hnone, -⟩
    · exact heq
    · exact absurd hbegun (not_begun hnone)
  · rcases resolveOnce_cases hrun with
      ⟨-, hknown⟩ | ⟨-, hnone, clauses, middle, hstatements, hfound, hlater⟩
    · obtain ⟨progress, hprogress, -⟩ := hknown himports
      exact absurd (Option.isSome_iff_exists.mpr ⟨progress, hprogress⟩) hnew
    · have hfind := findWithin_keeps hbalances.allows.autoScope
        (hbalances.resolveVisibility fuel) id
      have hmiddle := hbalances.allows.resolveStatements hfind id _ _ _ hstatements
      exact ⟨clauses, middle, hstatements,
        fun other => (hmiddle.running other).trans (running_beginning hnone other), hfound, hlater⟩

/-- The marks of resolutions under way follow the call stack. Whatever a program is asked for
and in whatever context, each call for the clauses of a scope, nested or not, returns with the
marks that it found and with all finished entries in place, and it begins no resolution of a
scope that is marked or finished. Questions leave the marks alone as well; on a finished tree
whose chains of parents end, the valid ones are answered. So between the queries of a session,
answered or refused, there is no mark, and a scope that was resolved once is not resolved again
until the session starts over. All that is known has come about by steps, at each of which the
marks are those of the call stack and no scope was begun twice. -/
theorem marks_follow_stack :
    (∀ (program : Program) fuel id context found later,
        program.resolveVisibility (fuel + 1) id context = some (found, later) →
        program.Called fuel id context found later) ∧
      (∀ (program : Program) request context response later,
        program.respond request context = some (response, later) → context.Balances later) ∧
      (∀ program : Program, program.tree.Finished → program.tree.Grounded →
        ∀ context request, program.Reachable context → request.Valid program context →
        ∃ response later, program.respond request context = some (response, later) ∧
          ∀ id, ¬ later.Running id) ∧
      (∀ tree config names history past reached,
        (Session.start tree config names).askAll history = some (past, reached) →
        (∀ id, ¬ reached.context.Running id) ∧
        ∀ id, reached.context.Begun id → ∀ queries replies last,
          (∀ query ∈ queries, query.startsOver = false) →
          reached.askAll queries = some (replies, last) → ∀ fuel found later,
          last.program.resolveVisibility (fuel + 1) id last.context = some (found, later) →
          later = last.context) ∧
      (∀ (program : Program) context, program.Reachable context → ∃ begun,
        Stage.Run program .initial ⟨context, [], begun⟩ ∧ begun.Nodup ∧
          ∀ id, id ∈ begun ↔ (context.visibility.get? id).isSome = true) ∧
      ∀ (program : Program) stage, Stage.Run program .initial stage → stage.Marked ∧
        ∀ later, Stage.Run program stage later → ∀ id clauses,
          stage.context.visibility.get? id = some clauses →
          later.context.visibility.get? id = some clauses := by
  refine ⟨fun program fuel id context found later => called_of_resolveVisibility,
    fun program request => (brackets_balances program).admits.respond request,
    fun program hfinished hgrounded context request hreachable hvalid => ?_,
    fun tree config names history past reached hasked => ⟨?_, ?_⟩,
    fun program context hreachable => ?_, fun program stage hrun => ?_⟩
  · have hforest : program.tree.IsForest := hfinished.isForest hgrounded
    obtain ⟨response, later, hrun, -⟩ := respond_ends hforest (serves_sound hforest)
      (hreachable.settled hforest).sound hvalid
    exact ⟨response, later, hrun, Reachable.idle (hreachable.asked hvalid hrun)⟩
  · exact Session.idle_askAll (settled_empty (Session.start tree config names).program).idle hasked
  · intro id hbegun queries replies last hqueries hlast fuel found later hrun
    have hbalances := Session.balances_askAll hqueries hlast
    exact (called_of_resolveVisibility hrun).turned (Balances.begun hbalances hbegun)
  · obtain ⟨begun, hrun⟩ := (brackets_nests program).admits.reaches hreachable [] []
    rw [List.append_nil] at hrun
    have hmarked := hrun.marked Stage.marked_initial
    exact ⟨begun, hrun, hmarked.begun_nodup, fun id => (hmarked.begun id).symm.trans
      (begun_iff_of_not_running (hreachable.idle id))⟩
  · have hmarked := hrun.marked Stage.marked_initial
    exact ⟨hmarked, fun later hlater id clauses => hlater.finished hmarked⟩

/-- A module `A` that uses its own variable by way of a module `B`, which exposes all of `A`. -/
def circularUseTree : Tree := .ofSteps
  [.identifier "B", .identifier "x", .clause ⟨0⟩ .only [⟨1⟩], .useStmt .unstated [⟨2⟩],
    .variableDecl "x" none, .moduleDecl false "A" [⟨3⟩, ⟨4⟩],
    .identifier "A", .clause ⟨6⟩ .unlimited [], .useStmt .exposed [⟨7⟩],
    .moduleDecl false "B" [⟨8⟩]]

def circularUse : Session := Session.fresh circularUseTree {}

/-- What is known once the scopes of the two modules are asked for. -/
def circularUseBuilt : Context :=
  (circularUse.program.askAll [.scopeOf ⟨5⟩, .scopeOf ⟨9⟩] .empty).getD .empty

/-- What is known once the clauses of the first module are asked for as well. -/
def circularUseResolved : Context :=
  (circularUse.program.askAll [.scopeOf ⟨5⟩, .scopeOf ⟨9⟩, .visibility ⟨1⟩] .empty).getD .empty

/-- Where the first module is marked, the second one is resolved and leaves that mark alone. So it
is when the clauses of the first one are asked for: both modules are resolved, each once. No mark
is left when the question is answered, nor in a session that asks it after starting over. -/
theorem circularUse_marks_follow_stack :
    (∃ found later,
        circularUse.program.resolveVisibility 11 ⟨2⟩ (circularUseBuilt.beginning ⟨1⟩) =
          some (found, later) ∧
        found.isSome = true ∧ later.Running ⟨1⟩ ∧ ¬ later.Running ⟨2⟩) ∧
      (∃ begun, Stage.Run circularUse.program .initial ⟨circularUseResolved, [], begun⟩ ∧
        begun.Nodup ∧ ⟨1⟩ ∈ begun ∧ ⟨2⟩ ∈ begun) ∧
      (∃ response later,
        circularUse.program.respond (.visibility ⟨1⟩) circularUseBuilt = some (response, later) ∧
          ∀ id, ¬ later.Running id) ∧
      ∃ past reached, circularUse.askAll
          [.rootScope, .scope (.handle ⟨5⟩), .invalidate, .visibility (.node ⟨5⟩)] =
            some (past, reached) ∧
          reached.context.Begun ⟨2⟩ ∧ ∀ id, ¬ reached.context.Running id := by
  obtain ⟨hcalled, -, hanswered, hasked, hbetween, -⟩ := marks_follow_stack
  refine ⟨?_, ?_, ?_, ?_⟩
  · have hends : (circularUse.program.resolveVisibility 11 ⟨2⟩
        (circularUseBuilt.beginning ⟨1⟩)).isSome = true := by decide +kernel
    obtain ⟨⟨found, later⟩, hrun⟩ := Option.isSome_iff_exists.mp hends
    have hsecond := hcalled _ 10 ⟨2⟩ (circularUseBuilt.beginning ⟨1⟩) found later hrun
    obtain ⟨clauses, -, -, -, hfound, -⟩ := hsecond.resolved (by decide +kernel)
      (not_begun (by decide +kernel))
    refine ⟨found, later, hrun, hfound ▸ rfl, (hsecond.balances.running _).mpr (by decide +kernel),
      fun hrunning => ?_⟩
    exact absurd ((hsecond.balances.running _).mp hrunning) (by decide +kernel)
  · have hreachable : circularUse.program.Reachable circularUseResolved := Reaches.askAll .refl
      (show circularUse.program.askAll [.scopeOf ⟨5⟩, .scopeOf ⟨9⟩, .visibility ⟨1⟩] .empty =
        some circularUseResolved by decide +kernel)
    obtain ⟨begun, hrun, hnodup, hbegun⟩ := hbetween _ _ hreachable
    exact ⟨begun, hrun, hnodup, (hbegun _).mpr (by decide +kernel),
      (hbegun _).mpr (by decide +kernel)⟩
  · have hreachable : circularUse.program.Reachable circularUseBuilt := Reaches.askAll .refl
      (show circularUse.program.askAll [.scopeOf ⟨5⟩, .scopeOf ⟨9⟩] .empty =
        some circularUseBuilt by decide +kernel)
    exact hanswered _ (Tree.finished_ofSteps (by decide +kernel)) (by decide +kernel) _ _ hreachable
      (show circularUseBuilt.Has ⟨1⟩ by decide +kernel)
  · have hends : ((circularUse.askAll [.rootScope, .scope (.handle ⟨5⟩), .invalidate,
        .visibility (.node ⟨5⟩)]).map fun result =>
          (result.2.context.visibility.progress? ⟨2⟩).isSome) = some true := by decide +kernel
    obtain ⟨⟨past, reached⟩, hrun, hbegun⟩ := Option.map_eq_some_iff.mp hends
    have hidle := hasked circularUseTree {} circularUseTree.names _ past reached hrun
    exact ⟨past, reached, hrun, hbegun, hidle.1⟩

end Program

end Scoping
