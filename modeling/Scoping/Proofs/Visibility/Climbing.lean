import Mathlib.Logic.Relation
import Scoping.Proofs.Visibility.Resolution

/-!
Climbing towards a scope ends: every climb starts from another scope, and there
are finitely many of those. A climb that meets its goal has come to it by scopes
around those it was in, and by scopes that are used as a whole. If the goal is not
met, the climbs have been through all that these lead to.
-/

namespace Scoping

open Context Resolve

variable {program : Program} {keeps : Context → Prop} {context : Context}

namespace Context

/-- Whether a scope uses another as a whole. -/
inductive Uses (context : Context) : ScopeId → ScopeId → Prop
  | whole {id : ScopeId} {clause : Clause} (hclause : clause ∈ context.clausesAt id)
    (hkind : clause.kind = .allContents) : Uses context id clause.target

/-- One step of a climb: out to a scope around, or into one that is used as a whole. -/
inductive Climbs (context : Context) : ScopeId → ScopeId → Prop
  | around {id outer : ScopeId} (houter : outer ∈ (context.scope id).enclosing) :
    Climbs context id outer
  | uses {id target : ScopeId} (huses : context.Uses id target) : Climbs context id target

/-- Whether a climb from one scope can come to another. -/
def Sees (context : Context) : ScopeId → ScopeId → Prop := Relation.ReflTransGen context.Climbs

/-- Whether a climb from one scope cannot come to another, now or later: there is a region
around its beginning that none leaves, and the other scope lies outside. -/
def Bars (keeps : Context → Prop) (context : Context) (start goal : ScopeId) : Prop :=
  ∃ region : ScopeId → Prop, region start ∧ ¬ region goal ∧
    ∀ final, context.Grows final → keeps final →
      ∀ id target, region id → final.Climbs id target → region target

theorem Bars.of_grows {later : Context} {start goal : ScopeId}
    (hbars : context.Bars keeps start goal) (hgrows : context.Grows later) :
    later.Bars keeps start goal := by
  obtain ⟨region, hstart, hgoal, hclosed⟩ := hbars
  exact ⟨region, hstart, hgoal, fun final hfinal => hclosed final (hgrows.trans hfinal)⟩

theorem Bars.not_sees {start goal : ScopeId} (hbars : context.Bars keeps start goal)
    (hkeeps : keeps context) : ¬ context.Sees start goal := by
  obtain ⟨region, hstart, hgoal, hclosed⟩ := hbars
  intro hsees
  have hstays : ∀ {target}, context.Sees start target → region target := by
    intro target hpath
    induction hpath with
    | refl => exact hstart
    | tail _ hclimbs ih => exact hclosed context (.refl context) hkeeps _ _ ih hclimbs
  exact hgoal (hstays hsees)

theorem Grows.climbs {later : Context} (hgrows : context.Grows later) {id target : ScopeId}
    (hclimbs : context.Climbs id target) : later.Climbs id target := by
  cases hclimbs with
  | around houter => exact .around (by rwa [hgrows.scope (has_of_mem_enclosing houter)])
  | uses huses =>
    obtain ⟨hclause, hkind⟩ := huses
    rw [← hgrows.clausesAt_of_mem hclause] at hclause
    exact .uses (.whole hclause hkind)

theorem Grows.sees {later : Context} (hgrows : context.Grows later) {id target : ScopeId}
    (hsees : context.Sees id target) : later.Sees id target :=
  Relation.ReflTransGen.mono (fun _ _ => hgrows.climbs) _ _ hsees

theorem sees_of_mem_outward {id outer : ScopeId} (houter : outer ∈ context.outward id) :
    context.Sees id outer := by
  rcases List.mem_cons.mp houter with rfl | hmore
  · exact .refl
  · exact .single (.around hmore)

end Context

namespace Context

/-- Whether the climbs begun between two moments have been in vain: none of the scopes on
their way is the goal, and each of the scopes used there has been climbed from as well. -/
def Exhausted (context : Context) (goal : ScopeId) (before after : List ScopeId) : Prop :=
  ∀ id ∈ after, id ∉ before → context.Has id ∧ ∀ outer ∈ context.outward id,
    outer ≠ goal ∧ ∀ target, context.Uses outer target → target ∈ after

theorem Exhausted.refl (context : Context) (goal : ScopeId) (entered : List ScopeId) :
    context.Exhausted goal entered entered :=
  fun _ hid hnew => absurd hid hnew

theorem Exhausted.trans {goal : ScopeId} {before middle after : List ScopeId}
    (hfirst : context.Exhausted goal before middle) (hsubset : middle ⊆ after)
    (hsecond : context.Exhausted goal middle after) : context.Exhausted goal before after := by
  intro id hid hnew
  by_cases hmiddle : id ∈ middle
  · obtain ⟨hhas, hway⟩ := hfirst id hmiddle hnew
    exact ⟨hhas, fun outer houter =>
      (hway outer houter).imp_right fun hused target huses => hsubset (hused target huses)⟩
  · exact hsecond id hid hmiddle

/-- What the answer of a climb to a goal tells, and of any part of it: a yes is true, and
after a no the climbs begun on the way have been in vain. -/
structure Outcome (keeps : Context → Prop) (goal : ScopeId) (entered : List ScopeId)
    (yes : Context → Prop) (no : Context → List ScopeId → Prop) (result : Bool × List ScopeId)
    (later : Context) : Prop where
  subset : entered ⊆ result.2
  met : result.1 = true → yes later
  missed : result.1 = false → ∀ final, later.Grows final → keeps final →
    final.Exhausted goal entered result.2 ∧ no final result.2

theorem Outcome.mono {goal : ScopeId} {entered : List ScopeId} {yes yes' : Context → Prop}
    {no no' : Context → List ScopeId → Prop} {result : Bool × List ScopeId}
    (houtcome : Outcome keeps goal entered yes no result context)
    (hyes : yes context → yes' context)
    (hno : ∀ final, context.Grows final → keeps final → no final result.2 → no' final result.2) :
    Outcome keeps goal entered yes' no' result context where
  subset := houtcome.subset
  met htrue := hyes (houtcome.met htrue)
  missed hfalse final hfinal hkept :=
    (houtcome.missed hfalse final hfinal hkept).imp_right (hno final hfinal hkept)

end Context

/-- A search for an answer by yes or no ends when it ends for each candidate. The answer is
yes for one of them only, and it is no for each of them otherwise. -/
theorem Search.anyM_ends {α : Type} {test : α → Search Bool} {goal : ScopeId}
    {yes : α → Context → Prop} {no : α → Context → List ScopeId → Prop}
    {entered : List ScopeId} {candidates : List α} (hkeeps : keeps context)
    (hno : ∀ candidate final marks more, marks ⊆ more → no candidate final marks →
      no candidate final more)
    (htest : ∀ candidate ∈ candidates, ∀ further later, entered ⊆ further → context.Grows later →
      keeps later → Ends (Resolving keeps) (test candidate further) later
        (Outcome keeps goal further (yes candidate) (no candidate))) :
    Ends (Resolving keeps) (candidates.anyM test entered) context
      (Outcome keeps goal entered (fun last => ∃ candidate ∈ candidates, yes candidate last)
        fun final marks => ∀ candidate ∈ candidates, no candidate final marks) := by
  induction candidates generalizing context entered with
  | nil => exact .same hkeeps ⟨List.Subset.refl _, nofun, fun _ final _ _ => ⟨.refl _ _ _, nofun⟩⟩
  | cons candidate rest ih =>
    obtain ⟨hfirst, hothers⟩ := List.forall_mem_cons.mp htest
    rw [List.anyM, bind_run]
    apply (hfirst entered context (List.Subset.refl _) (.refl _) hkeeps).bind
    rintro ⟨answer, further⟩ later hchanges houtcome
    cases answer with
    | true =>
      exact .same hchanges.2
        ⟨houtcome.subset, fun _ => ⟨candidate, List.mem_cons_self, houtcome.met rfl⟩, nofun⟩
    | false =>
      refine (ih hchanges.2 fun other hother more last hmore hlast => ?_).mono ?_
      · exact hothers other hother more last (List.Subset.trans houtcome.subset hmore)
          (hchanges.1.toGrows.trans hlast)
      · intro result last hlast hrest
        refine ⟨List.Subset.trans houtcome.subset hrest.subset, fun htrue => ?_,
          fun hfalse final hfinal hkept => ?_⟩
        · obtain ⟨other, hother, hyes⟩ := hrest.met htrue
          exact ⟨other, List.mem_cons_of_mem _ hother, hyes⟩
        · obtain ⟨hexhausted, hmissed⟩ := hrest.missed hfalse final hfinal hkept
          obtain ⟨hbefore, hmiss⟩ :=
            houtcome.missed rfl final (hlast.1.toGrows.trans hfinal) hkept
          exact ⟨hbefore.trans hrest.subset hexhausted,
            List.forall_mem_cons.mpr ⟨hno _ _ _ _ hrest.subset hmiss, hmissed⟩⟩

namespace Program

/-- What a climb tries at a scope on its way: whether the scope is the goal, and a
climb from each scope that it uses as a whole. -/
def tryScope (program : Program) (goal : ScopeId) (fuel : Nat) (id : ScopeId) : Search Bool := do
  if id = goal then return true
  let used := (← program.clausesOf id).filter fun clause => clause.kind = .allContents
  used.anyM fun clause => program.climbTo goal fuel clause.target

theorem climbTo_run (goal start : ScopeId) (fuel : Nat) (entered : List ScopeId) :
    program.climbTo goal (fuel + 1) start entered =
      if start ∈ entered then pure (false, entered)
      else get >>= fun context =>
        (context.outward start).anyM (program.tryScope goal fuel) (start :: entered) := by
  rw [climbTo]
  by_cases hseen : start ∈ entered
  · rw [if_pos hseen]
    change (if entered.contains start = true then _ else _ : Search Bool) entered = _
    rw [if_pos (List.contains_iff_mem.mpr hseen)]
    rfl
  · rw [if_neg hseen]
    change (if entered.contains start = true then _ else _ : Search Bool) entered = _
    rw [if_neg (mt List.contains_iff_mem.mp hseen)]
    rfl

theorem tryScope_run (goal id : ScopeId) (fuel : Nat) (entered : List ScopeId) :
    program.tryScope goal fuel id entered =
      if id = goal then pure (true, entered)
      else program.clausesOf id >>= fun clauses =>
        (clauses.filter fun clause => clause.kind = .allContents).anyM
          (fun clause => program.climbTo goal fuel clause.target) entered := by
  unfold tryScope
  by_cases hgoal : id = goal
  · rw [if_pos hgoal, if_pos hgoal]
    rfl
  · rw [if_neg hgoal, if_neg hgoal, ← Search.lift_bind_run]

/-- Trying a scope ends when climbing from those that it uses does. -/
theorem tryScope_ends (hserves : program.Serves keeps) {goal id : ScopeId} {fuel : Nat}
    {entered : List ScopeId} (hkeeps : keeps context) (hid : context.Has id)
    (hclimb : ∀ target further later, entered ⊆ further → context.Grows later → keeps later →
      later.Has target → Ends (Resolving keeps) (program.climbTo goal fuel target further) later
        (Outcome keeps goal further (·.Sees target goal) fun _ marks => target ∈ marks)) :
    Ends (Resolving keeps) (program.tryScope goal fuel id entered) context
      (Outcome keeps goal entered (·.Sees id goal) fun final marks =>
        id ≠ goal ∧ ∀ target, final.Uses id target → target ∈ marks) := by
  rw [tryScope_run]
  split
  · next hgoal => exact .same hkeeps ⟨List.Subset.refl _, fun _ => hgoal ▸ .refl, nofun⟩
  next hne =>
  refine (clausesOf_shows hserves context id (.refl _) hkeeps hid).bind
    fun clauses middle hchanges hclauses => ?_
  have hused : Ends (Resolving keeps)
      ((clauses.filter fun clause => clause.kind = .allContents).anyM
        (fun clause => program.climbTo goal fuel clause.target) entered) middle
      (Outcome keeps goal entered
        (fun last => ∃ clause ∈ clauses.filter fun clause => clause.kind = .allContents,
          last.Sees id goal)
        fun _ marks => ∀ clause ∈ clauses.filter fun clause => clause.kind = .allContents,
          clause.target ∈ marks) := by
    refine Search.anyM_ends hchanges.2 (fun _ _ _ _ hsubset hmem => hsubset hmem)
      fun clause hclause further later hfurther hgrows hkept => ?_
    obtain ⟨hmem, hkind⟩ := List.mem_filter.mp hclause
    refine (hclimb clause.target further later hfurther (hchanges.1.toGrows.trans hgrows) hkept
      (hgrows.has (hclauses.1 clause hmem))).mono fun result last hlast houtcome => ?_
    have hsame : last.clausesAt id = clauses :=
      hclauses.2 last (hgrows.trans hlast.1.toGrows) hlast.2
    have hclause : clause ∈ last.clausesAt id := hsame ▸ hmem
    exact houtcome.mono (.head (.uses (.whole hclause (of_decide_eq_true hkind))))
      fun _ _ _ htarget => htarget
  refine hused.mono fun result last hlast houtcome =>
    houtcome.mono (fun ⟨_, _, hsees⟩ => hsees) fun final hfinal hkept htargets => ⟨hne, ?_⟩
  rintro _ ⟨hclause, hkind⟩
  have hsame : final.clausesAt id = clauses :=
    hclauses.2 final (hlast.1.toGrows.trans hfinal) hkept
  exact htargets _ (List.mem_filter.mpr ⟨hsame ▸ hclause, decide_eq_true hkind⟩)

/-- A climb ends while the scopes left to start from are fewer than the fuel. It meets its
goal only if it can come to it; otherwise all climbs that it has led to are in vain. -/
theorem climbTo_ends (hserves : program.Serves keeps) {goal start : ScopeId} {fuel : Nat}
    {entered : List ScopeId} (hkeeps : keeps context) (hstart : context.Has start)
    (hfuel : program.unentered entered < fuel) :
    Ends (Resolving keeps) (program.climbTo goal fuel start entered) context
      (Outcome keeps goal entered (·.Sees start goal) fun _ marks => start ∈ marks) := by
  induction fuel generalizing context start entered with
  | zero => exact absurd hfuel (Nat.not_lt_zero _)
  | succ fuel ih =>
    rw [climbTo_run]
    by_cases hseen : start ∈ entered
    · rw [if_pos hseen]
      exact .same hkeeps ⟨List.Subset.refl _, nofun, fun _ _ _ _ => ⟨.refl _ _ _, hseen⟩⟩
    rw [if_neg hseen]
    apply Ends.get_bind
    have hsound := hserves.sound _ hkeeps
    have hless := hsound.unentered_cons_lt hstart hseen
    have hall : Ends (Resolving keeps)
        ((context.outward start).anyM (program.tryScope goal fuel) (start :: entered)) context
        (Outcome keeps goal (start :: entered)
          (fun later => ∃ id ∈ context.outward start, later.Sees id goal)
          fun final marks => ∀ id ∈ context.outward start,
            id ≠ goal ∧ ∀ target, final.Uses id target → target ∈ marks) := by
      refine Search.anyM_ends hkeeps
        (fun _ _ _ _ hsubset hmiss => hmiss.imp_right fun hused target huses =>
          hsubset (hused target huses))
        fun id hid further later hfurther hgrows hlater => ?_
      have hfound := hgrows.has (hsound.has_of_outward hstart hid)
      refine tryScope_ends hserves hlater hfound fun target more last hmore _ hkept htarget => ?_
      have hle := program.unentered_le_of_subset (List.Subset.trans hfurther hmore)
      exact ih hkept htarget (by omega)
    refine hall.mono fun result later hchanges houtcome =>
      ⟨List.Subset.trans (List.subset_cons_self _ _) houtcome.subset, fun htrue => ?_,
        fun hfalse final hfinal hkept => ?_⟩
    · obtain ⟨id, hid, hsees⟩ := houtcome.met htrue
      rw [← hchanges.1.toGrows.outward hstart] at hid
      exact (sees_of_mem_outward hid).trans hsees
    · obtain ⟨hexhausted, hway⟩ := houtcome.missed hfalse final hfinal hkept
      have hgrows := hchanges.1.toGrows.trans hfinal
      have hmarked := houtcome.subset List.mem_cons_self
      -- the scope that the climb started from is dealt with by the climb itself
      refine ⟨fun id hid hnew => ?_, hmarked⟩
      by_cases heq : id = start
      · subst heq
        rw [hgrows.outward hstart]
        exact ⟨hgrows.has hstart, hway⟩
      · exact hexhausted id hid (by simp [heq, hnew])

/-- Whether a scope is wholly visible is decided: if so, a climb can come to it, and if
not, none can. -/
theorem seesWhole_decides (hserves : program.Serves keeps) {start : ScopeId}
    (hkeeps : keeps context) (hstart : context.Has start) (goal : ScopeId) :
    Ends (Resolving keeps) (program.seesWhole goal start) context fun answer later =>
      (answer = true → later.Sees start goal) ∧ (answer = false → later.Bars keeps start goal) := by
  refine .map (fun later hchanges => ⟨.refl later, hchanges.2⟩)
    ((climbTo_ends hserves hkeeps hstart (program.unentered_lt [])).mono ?_)
  rintro ⟨answer, marks⟩ later hchanges houtcome
  refine ⟨houtcome.met, fun hfalse => ?_⟩
  have hexhausted := fun final hfinal hkept => (houtcome.missed hfalse final hfinal hkept).1
  obtain ⟨hnow, hmarked⟩ := houtcome.missed hfalse later (.refl later) hchanges.2
  refine ⟨fun id => ∃ first ∈ marks, id ∈ later.outward first, ⟨start, hmarked, List.mem_cons_self⟩,
    ?_, ?_⟩
  · rintro ⟨first, hfirst, hgoal⟩
    exact ((hnow first hfirst List.not_mem_nil).2 goal hgoal).1 rfl
  rintro final hfinal hkept id target ⟨first, hfirst, hid⟩ hclimbs
  have hhas := (hnow first hfirst List.not_mem_nil).1
  have hsound := hserves.sound _ hchanges.2
  cases hclimbs with
  | around houter =>
    rw [hfinal.scope (hsound.has_of_outward hhas hid)] at houter
    obtain ⟨before, after, houtward⟩ := List.append_of_mem hid
    have hrest := hsound.outward_of_append hhas houtward
    refine ⟨first, hfirst, ?_⟩
    rw [houtward, ← hrest]
    exact List.mem_append_right _ (List.mem_cons_of_mem _ houter)
  | uses huses =>
    rw [← hfinal.outward hhas] at hid
    have htarget := ((hexhausted final hfinal hkept first hfirst List.not_mem_nil).2 id hid).2
      target huses
    exact ⟨target, htarget, List.mem_cons_self⟩

/-- Only a scope that a climb can come to is wholly visible. -/
theorem seesWhole_ends (hserves : program.Serves keeps) {goal start : ScopeId}
    (hkeeps : keeps context) (hstart : context.Has start) :
    Ends (Resolving keeps) (program.seesWhole goal start) context
      fun answer later => answer = true → later.Sees start goal :=
  (seesWhole_decides hserves hkeeps hstart goal).mono fun _ _ _ => And.left

end Program

end Scoping
