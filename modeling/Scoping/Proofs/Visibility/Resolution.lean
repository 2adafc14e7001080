import Scoping.Proofs.Context.Yields
import Scoping.Proofs.Lookup.Search
import Scoping.Proofs.Visibility.Resolver

/-!
Resolutions nest, but not for ever: each marks a scope that was not marked, so
they are never nested deeper than there are scopes. A resolution that comes back
to a marked scope sees none of its clauses and goes on.
-/

namespace Scoping

open Context Resolve

namespace Program

variable {program : Program} {keeps : Context → Prop} {context : Context} {id : ScopeId}

/-- The clauses that a search sees while those of a scope are being resolved. -/
def viewWithin (inner : ScopeId → Resolve (Option (List Clause))) (id : ScopeId)
    (clauses : List Clause) : ClauseView :=
  fun other => if other = id then pure clauses else return (← inner other).getD []

/-- How names are found while the clauses of a scope are being resolved. -/
def findWithin (program : Program) (inner : ScopeId → Resolve (Option (List Clause)))
    (id : ScopeId) (clauses : List Clause) : Finder :=
  fun config scope name => (program.search (viewWithin inner id clauses) config scope name).run' []

/-- What a request for the clauses of a scope ends with: those in the table, and
there are some unless the scope has no statements or its resolution is open. -/
def Answers (id : ScopeId) (found : Option (List Clause)) (later : Context) : Prop :=
  found = later.visibility.get? id ∧
    ((later.scope id).hasImports = true → (later.visibility.progress? id).isSome = true)

theorem Answers.allFit {found : Option (List Clause)} (hanswers : Answers id found context)
    (hsound : context.Sound program) : context.AllFit (found.getD []) := by
  cases hfound : found with
  | none => simp [AllFit]
  | some clauses =>
    have hknown := hanswers.1.symm.trans hfound
    exact hsound.fits id clauses hknown

/-- Only a scope without statements is left unmarked. -/
theorem Answers.hasImports_eq_false {found : Option (List Clause)}
    (hanswers : Answers id found context) (hprogress : context.visibility.progress? id = none) :
    (context.scope id).hasImports = false := by
  by_contra himports
  simpa [hprogress] using hanswers.2 (Bool.not_eq_false _ ▸ himports)

/-- An answer is final. -/
theorem Answers.clausesAt {found : Option (List Clause)} {final : Context}
    (hanswers : Answers id found context) (hid : context.Has id) (hgrows : context.Grows final)
    (hfinal : final.Sound program) : final.clausesAt id = found.getD [] := by
  rw [hanswers.1, Context.clausesAt]
  cases hprogress : context.visibility.progress? id with
  | none =>
    have hlater : final.visibility.progress? id = none := by
      by_contra hasked
      obtain ⟨-, himports⟩ := hfinal.asked id (Option.isSome_iff_ne_none.mpr hasked)
      rw [hgrows.scope hid, hanswers.hasImports_eq_false hprogress] at himports
      cases himports
    rw [Memo.get?, Memo.get?, hprogress, hlater]
  | some progress =>
    have hlater := hgrows.visibility id progress hprogress
    rw [Memo.get?, Memo.get?, hprogress, hlater]

/-- Unless its resolution is open, a scope has a list of clauses, be it empty, exactly
when it has statements. -/
theorem Answers.isSome_eq {found : Option (List Clause)} (hanswers : Answers id found context)
    (hsound : context.Sound program) (hidle : ¬ context.Running id) :
    found.isSome = (context.scope id).hasImports := by
  rw [hanswers.1, Memo.get?]
  cases hprogress : context.visibility.progress? id with
  | none =>
    rw [hanswers.hasImports_eq_false hprogress]
    rfl
  | some progress =>
    rw [(hsound.asked id (by rw [hprogress]; rfl)).2]
    cases progress with
    | running => exact absurd hprogress hidle
    | done clauses => rfl

theorem viewWithin_shows {inner : ScopeId → Resolve (Option (List Clause))} {clauses : List Clause}
    (hupholds : program.Upholds keeps) (hfits : context.AllFit clauses)
    (hinner : ∀ later other, context.Grows later → keeps later → later.Has other → other ≠ id →
      Ends (Resolving keeps) (inner other) later (Answers other)) :
    (viewWithin inner id clauses).Shows keeps (fun final => program.world
      (fun other => if other = id then clauses else final.clausesAt other) final) context := by
  intro later other hgrows hkeeps hother
  unfold viewWithin
  split
  · exact .same hkeeps ⟨fun clause hclause => (hgrows.fits (hfits clause hclause)).target,
      fun _ _ _ => if_pos ‹_›⟩
  · next hne =>
    refine (hinner later other hgrows hkeeps hother hne).bind fun found last hchanges hanswers => ?_
    have hfits := hanswers.allFit (hupholds.sound _ hchanges.2)
    refine .same hchanges.2 ⟨fun clause hclause => (hfits clause hclause).target, ?_⟩
    intro final hfinal hkept
    apply (if_neg hne).trans
    exact hanswers.clausesAt (hchanges.1.toGrows.has hother) hfinal (hupholds.sound _ hkept)

theorem findWithin_total {inner : ScopeId → Resolve (Option (List Clause))} {clauses : List Clause}
    (hforest : program.tree.IsForest) (hupholds : program.Upholds keeps)
    (hfits : context.AllFit clauses)
    (hinner : ∀ later other, context.Grows later → keeps later → later.Has other → other ≠ id →
      Ends (Resolving keeps) (inner other) later (Answers other)) :
    (program.findWithin inner id clauses).Total keeps context := by
  intro config scope name later hgrows hkeeps hscope
  have hshows := shows_mono (viewWithin_shows hupholds hfits hinner) hgrows
  have hsees := portrays_world hupholds
    fun final other => if other = id then clauses else final.clausesAt other
  exact .map (fun last hlast => ⟨.refl last, hlast.2⟩)
    ((search_ends hforest hupholds hsees hshows hkeeps hscope).mono fun _ _ _ _ => trivial)

/-- A request for the clauses of a scope without statements. -/
theorem resolveOnce_of_hasImports_eq_false {inner : ScopeId → Resolve (Option (List Clause))}
    (himports : (context.scope id).hasImports = false) :
    program.resolveOnce inner id context = some (none, context) := by
  unfold resolveOnce
  refine bind_eq_some_iff.mpr ⟨_, _, rfl, ?_⟩
  rw [himports]
  rfl

/-- A request for clauses that are known, or being resolved. -/
theorem resolveOnce_of_progress? {inner : ScopeId → Resolve (Option (List Clause))}
    (himports : (context.scope id).hasImports = true) {progress : Progress (List Clause)}
    (hprogress : context.visibility.progress? id = some progress) :
    program.resolveOnce inner id context = some (progress.value?, context) := by
  unfold resolveOnce
  refine bind_eq_some_iff.mpr ⟨_, _, rfl, ?_⟩
  rw [if_pos himports]
  refine bind_eq_some_iff.mpr ⟨_, _, rfl, ?_⟩
  rw [hprogress]
  cases progress <;> rfl

/-- A request for clauses that nobody has asked for before comes down to the statements of
the scope, between two marks. -/
theorem resolveOnce_eq_map {inner : ScopeId → Resolve (Option (List Clause))}
    (himports : (context.scope id).hasImports = true)
    (hnone : context.visibility.progress? id = none) :
    program.resolveOnce inner id context =
      (program.resolveStatements (program.findWithin inner id) id (context.beginning id)).map
        fun result => (some result.1, result.2.finishing id result.1) := by
  unfold resolveOnce
  refine (run_bind (show Resolve.scope id context = some (context.scope id, context) from rfl)).trans ?_
  rw [if_pos himports]
  refine (run_bind (show (get : Resolve Context) context = some (context, context) from rfl)).trans ?_
  rw [hnone]
  have hmark : (modify fun context => { context with visibility := context.visibility.begin id } :
      Resolve PUnit) context = some (⟨⟩, context.beginning id) := rfl
  refine (run_bind hmark).trans ?_
  exact (Option.map_eq_bind).symm

theorem resolveOnce_of_unasked {inner : ScopeId → Resolve (Option (List Clause))}
    (himports : (context.scope id).hasImports = true)
    (hnone : context.visibility.progress? id = none) {clauses : List Clause} {later : Context}
    (hrun : program.resolveStatements (program.findWithin inner id) id (context.beginning id) =
      some (clauses, later)) :
    program.resolveOnce inner id context = some (some clauses, later.finishing id clauses) := by
  rw [resolveOnce_eq_map himports hnone, hrun, Option.map_some]

/-- What a request for clauses does, if it ends: nothing, when there are no statements or they
were asked for before, or it resolves the statements between two marks. -/
theorem resolveOnce_cases {inner : ScopeId → Resolve (Option (List Clause))}
    {found : Option (List Clause)} {later : Context}
    (hrun : program.resolveOnce inner id context = some (found, later)) :
    (later = context ∧ ((context.scope id).hasImports = true →
      ∃ progress, context.visibility.progress? id = some progress ∧ found = progress.value?)) ∨
    ((context.scope id).hasImports = true ∧ context.visibility.progress? id = none ∧
      ∃ clauses middle, program.resolveStatements (program.findWithin inner id) id
          (context.beginning id) = some (clauses, middle) ∧
        found = some clauses ∧ later = middle.finishing id clauses) := by
  cases himports : (context.scope id).hasImports with
  | false =>
    rw [resolveOnce_of_hasImports_eq_false himports] at hrun
    cases hrun
    exact .inl ⟨rfl, nofun⟩
  | true =>
    cases hprogress : context.visibility.progress? id with
    | some progress =>
      rw [resolveOnce_of_progress? himports hprogress] at hrun
      cases hrun
      exact .inl ⟨rfl, fun _ => ⟨progress, rfl, rfl⟩⟩
    | none =>
      rw [resolveOnce_eq_map himports hprogress] at hrun
      obtain ⟨⟨clauses, middle⟩, hstatements, hlast⟩ := Option.map_eq_some_iff.mp hrun
      cases hlast
      exact .inr ⟨rfl, rfl, clauses, middle, hstatements, rfl, rfl⟩

/-- A request for the clauses of a scope, given how its statements are resolved. -/
theorem resolveOnce_ends {inner : ScopeId → Resolve (Option (List Clause))}
    (hupholds : program.Upholds keeps) (hkeeps : keeps context)
    (hstatements : (context.scope id).hasImports = true →
      context.visibility.progress? id = none →
      Ends Resolves (program.resolveStatements (program.findWithin inner id) id)
        (context.beginning id) fun clauses later => keeps (later.finishing id clauses)) :
    Ends (Resolving keeps) (program.resolveOnce inner id) context (Answers id) := by
  cases himports : (context.scope id).hasImports with
  | false =>
    refine ⟨none, context, resolveOnce_of_hasImports_eq_false himports, ⟨.refl context, hkeeps⟩, ?_,
      by simp [himports]⟩
    cases hasked : context.visibility.get? id with
    | none => rfl
    | some clauses =>
      rw [Memo.get?_eq_some_iff] at hasked
      obtain ⟨-, hsome⟩ := (hupholds.sound _ hkeeps).asked id (by rw [hasked]; rfl)
      rw [himports] at hsome
      cases hsome
  | true =>
    cases hprogress : context.visibility.progress? id with
    | some progress =>
      refine ⟨progress.value?, context, resolveOnce_of_progress? himports hprogress,
        ⟨.refl context, hkeeps⟩, ?_, fun _ => by rw [hprogress]; rfl⟩
      rw [Memo.get?, hprogress, Option.bind_some]
    | none =>
      obtain ⟨clauses, later, hrun, hresolves, hkept⟩ := hstatements himports hprogress
      refine ⟨some clauses, later.finishing id clauses, resolveOnce_of_unasked himports hprogress hrun,
        ⟨.of_beginning hprogress hresolves, hkept⟩, (Memo.get?_finish_self _ _ _).symm, fun _ => ?_⟩
      rw [finishing, Memo.progress?_finish_self]
      rfl

/-- What the clauses that a resolution ends with have to do with the statements of its scope. -/
structure Stated (program : Program) (find : List Clause → Finder) (context : Context)
    (id : ScopeId) (clauses : List Clause) : Prop where
  fits : context.AllFit clauses
  made : ∀ owner, (context.scope id).owner = some owner →
    program.MadeOf (program.tree.writtenClauses owner) clauses
  come : ∀ owner, (context.scope id).owner = some owner →
    program.AllCome find context id (program.tree.writtenClauses owner) clauses

/-- Between its two marks, a resolution needs the clauses of other scopes only, and makes
clauses of what is written. -/
theorem statementsWithin_ends {inner : ScopeId → Resolve (Option (List Clause))}
    (hforest : program.tree.IsForest) (hupholds : program.Upholds keeps) (hkeeps : keeps context)
    (hid : context.Has id)
    (hinner : ∀ later other, context.Grows later → keeps later → later.Has other → other ≠ id →
      Ends (Resolving keeps) (inner other) later (Answers other)) :
    Ends (Resolving keeps) (program.resolveStatements (program.findWithin inner id) id) context
      fun clauses later => program.Stated (program.findWithin inner id) later id clauses := by
  have hfind : ∀ clauses later, context.Grows later → later.AllFit clauses →
      (program.findWithin inner id clauses).Total keeps later :=
    fun clauses later hgrows hfits => findWithin_total hforest hupholds hfits
      fun last other hmore => hinner last other (hgrows.trans hmore)
  refine (resolveStatements_ends hforest hupholds hkeeps hfind hid).run.mono
    fun clauses later hchanges ⟨hrun, hcome⟩ => ?_
  have hscope := hchanges.1.toGrows.scope hid
  refine ⟨hcome.allFit hforest, fun owner howner => ?_, fun owner howner => ?_⟩
  · rw [hscope] at howner
    exact madeOf_of_resolveStatements hrun howner
  · rw [hscope] at howner
    rwa [howner] at hcome

/-- A property of contexts that is kept up by marking scopes and by recording what the
resolution of their statements ends with. -/
structure Records (program : Program) (keeps : Context → Prop) : Prop
    extends program.Upholds keeps where
  beginning : ∀ {context id}, keeps context → context.Has id →
    (context.scope id).hasImports = true → keeps (context.beginning id)
  finishing : ∀ {context id clauses} fuel, keeps context → context.Has id →
    (context.scope id).hasImports = true →
    program.Stated (program.findWithin (program.resolveVisibility fuel) id) context id clauses →
    keeps (context.finishing id clauses)

theorem records_sound (program : Program) : program.Records (Context.Sound program) where
  toUpholds := program.upholds_sound
  beginning := Context.Sound.beginning
  finishing _ hsound hid himports hstated :=
    hsound.finishing hid himports hstated.fits hstated.made

/-- Requests for clauses end while the scopes that are not marked are fewer than
the fuel. -/
theorem Records.resolveVisibility (hforest : program.tree.IsForest)
    (hrecords : program.Records keeps) {fuel : Nat} (hkeeps : keeps context) (hid : context.Has id)
    (hfuel : context.idle program < fuel) :
    Ends (Resolving keeps) (program.resolveVisibility fuel id) context (Answers id) := by
  induction fuel generalizing context id with
  | zero => exact absurd hfuel (Nat.not_lt_zero _)
  | succ fuel ih =>
    refine resolveOnce_ends hrecords.toUpholds hkeeps fun himports hnone => ?_
    have hbegun : keeps (context.beginning id) := hrecords.beginning hkeeps hid himports
    have hless := (hrecords.sound _ hkeeps).idle_beginning_lt hid hnone
    have hinner : ∀ later other, (context.beginning id).Grows later → keeps later →
        later.Has other → other ≠ id →
        Ends (Resolving keeps) (program.resolveVisibility fuel other) later (Answers other) := by
      intro later other hgrows hlater hother _
      refine ih hlater hother ?_
      rw [idle_congr hgrows.running_iff]
      omega
    obtain ⟨clauses, later, hrun, hchanges, hstated⟩ := statementsWithin_ends hforest
      hrecords.toUpholds hbegun (show (context.beginning id).Has id from hid) hinner
    have hscope : later.scope id = context.scope id :=
      hchanges.1.toGrows.scope (show (context.beginning id).Has id from hid)
    exact ⟨clauses, later, hrun, hchanges.1, hrecords.finishing fuel hchanges.2
      (hchanges.1.toGrows.has hid) (by rw [hscope, himports]) hstated⟩

theorem resolveVisibility_ends (hforest : program.tree.IsForest) {fuel : Nat}
    (hsound : context.Sound program) (hid : context.Has id)
    (hfuel : context.idle program < fuel) :
    Ends (Resolving (Context.Sound program)) (program.resolveVisibility fuel id) context
      (Answers id) :=
  program.records_sound.resolveVisibility hforest hsound hid hfuel

/-- Every scope has its clauses worked out when they are asked for. -/
theorem visibility_ends (hforest : program.tree.IsForest) (hsound : context.Sound program)
    (hid : context.Has id) :
    Ends (Resolving (Context.Sound program)) (program.visibility id) context (Answers id) :=
  resolveVisibility_ends hforest hsound hid (context.idle_lt program)

/-- Clauses that have been worked out are given as they are. -/
theorem visibility_of_get? (hsound : context.Sound program) {clauses : List Clause}
    (hknown : context.visibility.get? id = some clauses) :
    program.visibility id context = some (some clauses, context) := by
  rw [Memo.get?_eq_some_iff] at hknown
  exact resolveOnce_of_progress? (hsound.asked id (by rw [hknown]; rfl)).2 hknown

/-- A scope without statements has no clauses to be worked out. -/
theorem visibility_of_hasImports_eq_false (himports : (context.scope id).hasImports = false) :
    program.visibility id context = some (none, context) :=
  resolveOnce_of_hasImports_eq_false himports

theorem visibility_of_mem_clausesAt (hsound : context.Sound program) {clause : Clause}
    (hclause : clause ∈ context.clausesAt id) :
    program.visibility id context = some (some (context.clausesAt id), context) :=
  visibility_of_get? hsound (get?_of_mem_clausesAt hclause)

/-- What a search reads in a context once all it needs has been worked out. -/
noncomputable def atRest (program : Program) (context : Context) : World :=
  program.world context.clausesAt context

/-- A property that is kept up by a request for clauses, where nothing else is
being resolved. -/
structure Serves (program : Program) (keeps : Context → Prop) : Prop
    extends program.Upholds keeps where
  visibility : ∀ {context id}, keeps context → context.Has id →
    Ends (Resolving keeps) (program.visibility id) context (Answers id)

theorem Records.serves (hforest : program.tree.IsForest) (hrecords : program.Records keeps) :
    program.Serves keeps :=
  ⟨hrecords.toUpholds, fun hkeeps hid =>
    hrecords.resolveVisibility hforest hkeeps hid (Context.idle_lt program _)⟩

theorem serves_sound (hforest : program.tree.IsForest) : program.Serves (Context.Sound program) :=
  program.records_sound.serves hforest

theorem clausesOf_shows (hserves : program.Serves keeps) :
    ClauseView.Shows keeps program.atRest context program.clausesOf := by
  intro later other _ hkeeps hother
  refine (hserves.visibility hkeeps hother).bind fun found last hchanges hanswers => ?_
  have hfits := hanswers.allFit (hserves.sound _ hchanges.2)
  refine .same hchanges.2 ⟨fun clause hclause => (hfits clause hclause).target,
    fun final hfinal hkept => ?_⟩
  exact hanswers.clausesAt (hchanges.1.toGrows.has hother) hfinal (hserves.sound _ hkept)

end Program

end Scoping
