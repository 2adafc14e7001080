import Scoping.Proofs.Context.Resolving
import Scoping.Proofs.Lookup.Walk

/-!
Searches end, and yield what a walk through the finished context yields. A search
may resolve clauses and build scopes on its way; whatever it has read stays as it
was read, so any later context serves to describe it.
-/

namespace Scoping

open Context Resolve

/-- A reading of contexts as worlds that agrees with what they have worked out. -/
structure Portrays (keeps : Context → Prop) (sees : Context → World) : Prop where
  scope : ∀ context, (sees context).scope = context.scope
  auto : ∀ context found, keeps context → context.autoScope = some found →
    (sees context).auto = found

theorem Portrays.scope_of_grows {keeps : Context → Prop} {sees : Context → World}
    (hsees : Portrays keeps sees) {context final : Context} (hgrows : context.Grows final)
    {id : ScopeId} (hid : context.Has id) : (sees final).scope id = context.scope id := by
  rw [hsees.scope, hgrows.scope hid]

open Classical in
/-- What a search reads in a context, given the clauses that it sees. The automatic
module counts whether or not it has been asked for. -/
noncomputable def Program.world (program : Program) (clauses : ScopeId → List Clause)
    (context : Context) : World where
  scope := context.scope
  clauses := clauses
  auto := if hauto : ∃ id, context.IsAuto program (some id) then some hauto.choose else none

theorem Program.world_auto_iff {program : Program} {clauses : ScopeId → List Clause}
    {context : Context} (hsound : context.Sound program) {id : ScopeId} :
    (program.world clauses context).auto = some id ↔ context.IsAuto program (some id) := by
  unfold world
  split
  · next hauto =>
    constructor
    · intro hid
      exact Option.some.inj hid ▸ hauto.choose_spec
    · exact hsound.eq_of_isAuto hauto.choose_spec
  · next hnone =>
    exact ⟨nofun, fun hid => absurd ⟨id, hid⟩ hnone⟩

theorem Program.portrays_world {program : Program} {keeps : Context → Prop}
    (hupholds : program.Upholds keeps) (clauses : Context → ScopeId → List Clause) :
    Portrays keeps fun context => program.world (clauses context) context where
  scope _ := rfl
  auto context found hkeeps hfound := by
    have hsound := hupholds.sound context hkeeps
    have hauto := hsound.autoScope found hfound
    cases found with
    | some id => exact (world_auto_iff hsound).mpr hauto
    | none =>
      rw [Option.eq_none_iff_forall_ne_some]
      intro id hid
      cases hsound.eq_of_isAuto hauto ((world_auto_iff hsound).mp hid)

/-- The number of scopes that could still be entered. -/
def Program.unentered (program : Program) (entered : List ScopeId) : Nat :=
  ((Finset.range (program.tree.size + 1)).filter fun index => (⟨index⟩ : ScopeId) ∉ entered).card

theorem Program.unentered_lt (program : Program) (entered : List ScopeId) :
    program.unentered entered < program.depth := by
  have hle := Finset.card_filter_le (Finset.range (program.tree.size + 1))
    fun index => (⟨index⟩ : ScopeId) ∉ entered
  rw [Finset.card_range] at hle
  exact Nat.lt_succ_of_le hle

theorem Program.unentered_le_of_subset (program : Program) {entered more : List ScopeId}
    (hsubset : entered ⊆ more) : program.unentered more ≤ program.unentered entered := by
  refine Finset.card_le_card fun index hindex => ?_
  rw [Finset.mem_filter] at hindex ⊢
  exact ⟨hindex.1, fun hmem => hindex.2 (hsubset hmem)⟩

/-- Entering a scope leaves fewer to enter. -/
theorem Context.Sound.unentered_cons_lt {program : Program} {context : Context}
    (hsound : context.Sound program) {id : ScopeId} {entered : List ScopeId}
    (hid : context.Has id) (hnew : id ∉ entered) :
    program.unentered (id :: entered) < program.unentered entered := by
  refine Finset.card_lt_card ((Finset.ssubset_iff_of_subset ?_).mpr ⟨id.index, ?_, ?_⟩)
  · intro index hindex
    rw [Finset.mem_filter] at hindex ⊢
    exact ⟨hindex.1, fun hmem => hindex.2 (List.mem_cons_of_mem _ hmem)⟩
  · rw [Finset.mem_filter, Finset.mem_range]
    exact ⟨Nat.lt_of_lt_of_le hid hsound.scopes_size_le, hnew⟩
  · rw [Finset.mem_filter]
    exact fun hindex => hindex.2 List.mem_cons_self

/-- A lookup climbs to a scope when no module stands before it. -/
theorem Context.mem_upToModule_iff {context : Context} {ids : List ScopeId} {outer : ScopeId} :
    outer ∈ context.upToModule ids ↔ ∃ before after, ids = before ++ outer :: after ∧
      ∀ inner ∈ before, (context.scope inner).isModule = false := by
  induction ids with
  | nil => simp [upToModule]
  | cons first rest ih =>
    unfold upToModule
    split
    · next hmodule =>
      rw [List.mem_singleton]
      constructor
      · rintro rfl
        exact ⟨[], rest, rfl, List.forall_mem_nil _⟩
      · rintro ⟨before, after, heq, hbefore⟩
        cases before with
        | nil => exact (List.cons.inj heq).1.symm
        | cons inner before =>
          obtain ⟨rfl, -⟩ := List.cons.inj heq
          simp [hbefore first List.mem_cons_self] at hmodule
    · next hmodule =>
      rw [List.mem_cons, ih]
      constructor
      · rintro (rfl | ⟨before, after, rfl, hbefore⟩)
        · exact ⟨[], rest, rfl, List.forall_mem_nil _⟩
        · exact ⟨first :: before, after, rfl,
            List.forall_mem_cons.mpr ⟨Bool.eq_false_of_not_eq_true hmodule, hbefore⟩⟩
      · rintro ⟨before, after, heq, hbefore⟩
        cases before with
        | nil => exact .inl (List.cons.inj heq).1.symm
        | cons inner before =>
          obtain ⟨rfl, rfl⟩ := List.cons.inj heq
          exact .inr ⟨before, after, rfl, (List.forall_mem_cons.mp hbefore).2⟩

theorem Context.mem_of_mem_upToModule {context : Context} {id : ScopeId} {ids : List ScopeId}
    (hmem : id ∈ context.upToModule ids) : id ∈ ids := by
  obtain ⟨before, after, rfl, -⟩ := mem_upToModule_iff.mp hmem
  exact List.mem_append_right _ List.mem_cons_self

/-- The scope furthest out is the root scope. -/
theorem Context.Sound.ownedBy_of_getLast? {program : Program} {context : Context}
    (hsound : context.Sound program) {id outer : ScopeId} (hid : context.Has id)
    (hlast : (context.scope id).enclosing.getLast? = some outer) : context.OwnedBy outer none := by
  have hends := hsound.getLast?_outward hid
  rw [outward] at hends
  cases henclosing : (context.scope id).enclosing with
  | nil =>
    rw [henclosing] at hlast
    cases hlast
  | cons first rest =>
    rw [henclosing] at hlast hends
    rw [List.getLast?_cons_cons] at hends
    obtain rfl := Option.some.inj (hlast.symm.trans hends)
    exact hsound.root_of_has hid

theorem Context.upToModule_congr {context later : Context} {ids : List ScopeId}
    (hids : ∀ id ∈ ids, later.scope id = context.scope id) :
    later.upToModule ids = context.upToModule ids := by
  induction ids with
  | nil => rfl
  | cons id rest ih =>
    obtain ⟨hid, hrest⟩ := List.forall_mem_cons.mp hids
    rw [upToModule, upToModule, hid, ih hrest]

theorem Context.mem_enclosing_of_mem_climb {context : Context} {id outer : ScopeId}
    (hmem : outer ∈ context.climb id) : outer ∈ (context.scope id).enclosing := by
  rcases List.mem_append.mp hmem with hnear | hroot
  · exact mem_of_mem_upToModule hnear
  · exact List.mem_of_mem_getLast? (Option.mem_toList.mp hroot)

theorem Context.Sound.has_of_climb {program : Program} {context : Context}
    (hsound : context.Sound program) {id outer : ScopeId} (hid : context.Has id)
    (hmem : outer ∈ context.climb id) : context.Has outer :=
  hsound.has_of_enclosing hid (mem_enclosing_of_mem_climb hmem)

theorem Context.Sound.climb_of_grows {program : Program} {context later : Context}
    (hsound : context.Sound program) {id : ScopeId} (hid : context.Has id)
    (hgrows : context.Grows later) : later.climb id = context.climb id := by
  rw [climb, climb, hgrows.scope hid]
  congr 1
  exact upToModule_congr fun outer houter => hgrows.scope (hsound.has_of_enclosing hid houter)

section

variable {program : Program} {keeps : Context → Prop} {base context : Context}
variable {sees : Context → World} {innermost : Bool}
variable {entered : List ScopeId}

/-- A view that ends, and that shows the clauses that any later context has for
the scope according to `sees`. -/
def ClauseView.Shows (keeps : Context → Prop) (sees : Context → World)
    (base : Context) (view : ClauseView) : Prop :=
  ∀ context id, base.Grows context → keeps context → context.Has id →
    Ends (Resolving keeps) (view id) context fun clauses later =>
      (∀ clause ∈ clauses, later.Has clause.target) ∧
        ∀ final, later.Grows final → keeps final → (sees final).clauses id = clauses

/-- A search that ends, from any scopes entered beyond the given ones, and that
yields what a walk from the given sources yields in any later context. -/
def Search.Covers (keeps : Context → Prop) (sees : Context → World)
    (innermost : Bool) (base : Context) (entered : List ScopeId)
    (search : Search (List Overloads)) (sources : World → List Source) : Prop :=
  ∀ context further, base.Grows context → keeps context → entered ⊆ further →
    Ends (Resolving keeps) (search further) context fun result later =>
      further ⊆ result.2 ∧ ∀ final, later.Grows final → keeps final →
        (sees final).Yields innermost further
          (sources (sees final)) result.1 result.2

namespace Search

theorem bind_run {α β : Type} (first : Search α) (next : α → Search β)
    (entered : List ScopeId) :
    (first >>= next) entered = first entered >>= fun result => next result.1 result.2 := rfl

/-- A sequence of searches has a result exactly when its steps have, one after the other. -/
theorem bind_run_eq_some_iff {α β : Type} {first : Search α} {next : α → Search β}
    {entered : List ScopeId} {context : Context} {result : (β × List ScopeId) × Context} :
    (first >>= next) entered context = some result ↔ ∃ value further later,
      first entered context = some ((value, further), later) ∧
        next value further later = some result := by
  rw [bind_run, bind_eq_some_iff]
  constructor
  · rintro ⟨⟨value, further⟩, later, hfirst, hnext⟩
    exact ⟨value, further, later, hfirst, hnext⟩
  · rintro ⟨value, further, later, hfirst, hnext⟩
    exact ⟨(value, further), later, hfirst, hnext⟩

theorem lift_bind_run {α β : Type} (first : Resolve α) (next : α → Search β)
    (entered : List ScopeId) :
    ((liftM first : Search α) >>= next) entered = first >>= fun value => next value entered := by
  rw [bind_run]
  change (first >>= fun value => pure (value, entered)) >>= _ = _
  rw [bind_assoc]
  rfl

theorem get_bind_run {β : Type} (next : Context → Search β) (entered : List ScopeId) :
    ((getThe Context : Search Context) >>= next) entered =
      get >>= fun context => next context entered := rfl

theorem enter_run (id : ScopeId) (inside : Search (List Overloads)) (entered : List ScopeId) :
    enter id inside entered =
      if id ∈ entered then pure ([], entered) else inside (id :: entered) := by
  unfold enter
  by_cases hid : id ∈ entered
  · rw [if_pos hid]
    change (if entered.contains id = true then _ else _ : Search _) entered = _
    rw [if_pos (List.contains_iff_mem.mpr hid)]
    rfl
  · rw [if_neg hid]
    change (if entered.contains id = true then _ else _ : Search _) entered = _
    rw [if_neg (mt List.contains_iff_mem.mp hid)]
    rfl

theorem covers_nothing : Covers keeps sees innermost base entered (return []) fun _ => [] :=
  fun _ _ _ hkeeps _ =>
    .same hkeeps ⟨List.Subset.refl _, fun _ _ _ => .nil⟩

theorem enter_covers {id : ScopeId} {name : Name} {decls imports : Bool}
    {inside : Search (List Overloads)}
    (hinside : ∀ further, entered ⊆ further → id ∉ further →
      Covers keeps sees innermost base (id :: further) inside
        fun world => world.sources decls imports id name) :
    Covers keeps sees innermost base entered (enter id inside)
      fun _ => [.scope decls imports id name] := by
  intro context further hgrows hkeeps hsubset
  rw [enter_run]
  split
  · next hid => exact .same hkeeps ⟨List.Subset.refl _, fun _ _ _ => .seen hid⟩
  · next hid =>
    apply (hinside further hsubset hid context _ hgrows hkeeps (List.Subset.refl _)).mono
    rintro ⟨found, last⟩ later - ⟨hlast, hyields⟩
    refine ⟨List.Subset.trans (List.subset_cons_self _ _) hlast, fun final hfinal hkept => ?_⟩
    apply World.Yields.enter hid
    rw [List.append_nil]
    exact hyields final hfinal hkept

/-- Sources that are each searched are searched when joined. -/
theorem collect_covers {searches : List (Search (List Overloads))}
    {sources : List (World → List Source)}
    (hall : List.Forall₂ (Covers keeps sees innermost base entered) searches sources) :
    Covers keeps sees innermost base entered (collect innermost searches)
      fun world => sources.flatMap fun source => source world := by
  induction hall with
  | nil => exact covers_nothing
  | @cons search source searches sources hfirst hrest ih =>
    intro context further hgrows hkeeps hsubset
    rw [collect, bind_run]
    apply (hfirst context further hgrows hkeeps hsubset).bind
    rintro ⟨found, middle⟩ later hchanges ⟨hmiddle, hyields⟩
    dsimp only
    split
    · next hstop =>
      exact .same hchanges.2 ⟨hmiddle, fun final hfinal hkept =>
        (hyields final hfinal hkept).stop hstop⟩
    · next hgoes =>
      have hlater : base.Grows later := hgrows.trans hchanges.1.toGrows
      have hreached : entered ⊆ middle := List.Subset.trans hsubset hmiddle
      rw [bind_run]
      apply (ih later middle hlater hchanges.2 hreached).bind
      rintro ⟨more, last⟩ final hmore ⟨hlast, hothers⟩
      refine .same hmore.2 ⟨List.Subset.trans hmiddle hlast, fun final hfinal hkept => ?_⟩
      exact (hyields final (hmore.1.toGrows.trans hfinal) hkept).append hgoes
        (hothers final hfinal hkept)

theorem gate_covers {search : Search (List Overloads)} {sources : World → List Source}
    (condition : Bool) (hcovers : Covers keeps sees innermost base entered search sources) :
    Covers keeps sees innermost base entered (gate condition search)
      fun world => if condition then sources world else [] := by
  cases condition with
  | false => exact covers_nothing
  | true => exact hcovers

theorem declarations_covers (hsees : Portrays keeps sees) {id : ScopeId} {name : Name}
    (hid : base.Has id) :
    Covers keeps sees innermost base entered (declarations id name)
      fun world => ((world.scope id).lookup name).map .set := by
  intro context further hgrows hkeeps hsubset
  refine .same hkeeps ⟨List.Subset.refl _, fun final hfinal _ => ?_⟩
  have hscope := hsees.scope_of_grows hfinal (hgrows.has hid)
  simp only [hscope, Scope.lookup]
  cases (context.scope id).declared.get? name with
  | none => exact .nil
  | some overloads => exact .set

/-- What clauses yield, given what the contents of their targets yield. -/
theorem throughClauses_ends (hsees : Portrays keeps sees)
    {contents : ScopeId → Name → Search (List Overloads)} {name : Name}
    {clauses : List Clause} {further : List ScopeId}
    (hcontents : ∀ later target actual, base.Grows later → later.Has target →
      Covers keeps sees innermost later entered (contents target actual)
        fun _ => [.scope true true target actual])
    (hgrows : base.Grows context) (hkeeps : keeps context) (hsubset : entered ⊆ further)
    (htargets : ∀ clause ∈ clauses, context.Has clause.target) :
    Ends (Resolving keeps) (throughClauses innermost contents name clauses further) context
      fun result later => further ⊆ result.2 ∧ ∀ final, later.Grows final → keeps final →
        let led := (sees final).through name clauses
        result.1.1 = (led.1 || (innermost && !result.1.2.isEmpty)) ∧
          (sees final).Yields innermost further led.2 result.1.2 result.2 := by
  induction clauses generalizing context further with
  | nil => exact .same hkeeps ⟨List.Subset.refl _, fun _ _ _ => ⟨by simp [World.through], .nil⟩⟩
  | cons clause rest ih =>
    obtain ⟨htarget, hothers⟩ := List.forall_mem_cons.mp htargets
    rw [throughClauses]
    cases hroute : clause.route name with
    | blocked =>
      simp only [World.through, hroute]
      exact ih hgrows hkeeps hsubset hothers
    | symbol =>
      simp only [World.through, hroute]
      rw [lift_bind_run]
      apply Ends.scope_bind
      cases howner : (context.scope clause.target).owner with
      | none =>
        refine (ih hgrows hkeeps hsubset hothers).mono fun result later hchanges hpost => ?_
        refine ⟨hpost.1, fun final hfinal hkept => ?_⟩
        have hworld : ((sees final).scope clause.target).owner = none := by
          rw [hsees.scope_of_grows (hchanges.1.toGrows.trans hfinal) htarget, howner]
        simpa only [hworld] using hpost.2 final hfinal hkept
      | some owner =>
        refine .same hkeeps ⟨List.Subset.refl _, fun final hfinal hkept => ?_⟩
        have hworld : ((sees final).scope clause.target).owner = some owner := by
          rw [hsees.scope_of_grows hfinal htarget, howner]
        simp only [hworld]
        exact ⟨rfl, .set⟩
    | contents actual =>
      simp only [World.through, hroute]
      rw [bind_run]
      refine (hcontents context clause.target actual hgrows htarget context further
        (.refl _) hkeeps hsubset).bind ?_
      rintro ⟨found, middle⟩ later hchanges ⟨hmiddle, hyields⟩
      dsimp only
      split
      · next hstop =>
        refine .same hchanges.2 ⟨hmiddle, fun final hfinal hkept => ⟨by simp [hstop], ?_⟩⟩
        exact (hyields final hfinal hkept).stop hstop
      · next hgoes =>
        rw [bind_run]
        refine (ih (hgrows.trans hchanges.1.toGrows) hchanges.2
          (List.Subset.trans hsubset hmiddle) fun other hother =>
            hchanges.1.toGrows.has (hothers other hother)).bind ?_
        rintro ⟨⟨closed, more⟩, last⟩ final hmore ⟨hlast, hpost⟩
        refine .same hmore.2 ⟨List.Subset.trans hmiddle hlast, fun final hfinal hkept => ?_⟩
        obtain ⟨hclosed, hothers⟩ := hpost final hfinal hkept
        refine ⟨?_, (hyields final (hmore.1.toGrows.trans hfinal) hkept).append hgoes hothers⟩
        cases innermost with
        | false => simpa using hclosed
        | true =>
          obtain rfl : found = [] := by simpa using hgoes
          simpa using hclosed

end Search

namespace Program

variable {view : ClauseView}

theorem shows_mono {later : Context} (hshows : view.Shows keeps sees base)
    (hgrows : base.Grows later) : view.Shows keeps sees later :=
  fun context id hmore => hshows context id (hgrows.trans hmore)

/-- What the automatic module brings into a scope. -/
def searchAuto (program : Program) (contents : ScopeId → Name → Search (List Overloads))
    (id : ScopeId) (name : Name) : Search (List Overloads) := do
  unless (← Resolve.scope id).autoUses do return []
  match ← program.autoScope with
  | some auto => contents auto name
  | none => return []

/-- The automatic module is asked last, and only if no clause ended the search. -/
theorem searchImports_eq (contents : ScopeId → Name → Search (List Overloads)) (id : ScopeId)
    (name : Name) :
    program.searchImports view innermost contents id name = (do
      let (closed, found) ← Search.throughClauses innermost contents name (← view id)
      if closed then return found
      return found ++ (← program.searchAuto contents id name)) := by
  rw [searchImports]
  refine bind_congr fun clauses => bind_congr fun ⟨closed, found⟩ => ?_
  cases closed with
  | true => rfl
  | false =>
    simp only [searchAuto, Bool.false_eq_true, if_false, bind_assoc]
    refine bind_congr fun scope => ?_
    cases scope.autoUses with
    | false => simp
    | true =>
      simp only [if_true, bind_assoc]
      refine bind_congr fun auto => ?_
      cases auto with
      | none => simp
      | some auto => rfl

theorem searchAuto_covers (hforest : program.tree.IsForest) (hupholds : program.Upholds keeps)
    (hsees : Portrays keeps sees) {contents : ScopeId → Name → Search (List Overloads)}
    {id : ScopeId} {name : Name}
    (hcontents : ∀ later target actual, base.Grows later → later.Has target →
      Search.Covers keeps sees innermost later entered (contents target actual)
        fun _ => [.scope true true target actual])
    (hid : base.Has id) :
    Search.Covers keeps sees innermost base entered (program.searchAuto contents id name)
      fun world => world.autoSources id name := by
  intro context further hgrows hkeeps hsubset
  have hscope : ∀ final, context.Grows final → (sees final).scope id = context.scope id :=
    fun final hfinal => hsees.scope_of_grows hfinal (hgrows.has hid)
  rw [searchAuto, Search.lift_bind_run]
  apply Ends.scope_bind
  cases hauto : (context.scope id).autoUses with
  | false =>
    refine .same hkeeps ⟨List.Subset.refl _, fun final hfinal _ => ?_⟩
    simp only [World.autoSources, hscope final hfinal, hauto, Bool.false_eq_true, if_false]
    exact .nil
  | true =>
    simp only [if_true]
    rw [Search.lift_bind_run]
    have hends := autoScope_ends hforest (hupholds.sound _ hkeeps)
    apply (hends.resolving hupholds hkeeps).bind
    rintro auto last hlast hknown
    have hsources : ∀ final, last.Grows final → keeps final → (sees final).autoSources id name =
        (auto.map fun auto => .scope true true auto name).toList := by
      intro final hfinal hkept
      rw [World.autoSources, hscope final (hlast.1.toGrows.trans hfinal), hauto, if_pos rfl,
        hsees.auto final auto hkept (hfinal.autoScope auto hknown)]
    cases auto with
    | none =>
      refine .same hlast.2 ⟨List.Subset.refl _, fun final hfinal hkept => ?_⟩
      rw [hsources final hfinal hkept]
      exact .nil
    | some auto =>
      have hhas : last.Has auto := by
        obtain ⟨node, owner, -, -, howned⟩ := (hupholds.sound _ hlast.2).autoScope _ hknown
        exact howned.1
      refine (hcontents last auto name (hgrows.trans hlast.1.toGrows) hhas last further
        (.refl _) hlast.2 hsubset).mono ?_
      rintro result later hchanges ⟨hentered, hyields⟩
      refine ⟨hentered, fun final hfinal hkept => ?_⟩
      rw [hsources final (hchanges.1.toGrows.trans hfinal) hkept]
      exact hyields final hfinal hkept

theorem searchImports_covers (hforest : program.tree.IsForest) (hupholds : program.Upholds keeps)
    (hsees : Portrays keeps sees) {contents : ScopeId → Name → Search (List Overloads)}
    {id : ScopeId} {name : Name} (hview : view.Shows keeps sees base)
    (hcontents : ∀ later target actual, base.Grows later → later.Has target →
      Search.Covers keeps sees innermost later entered (contents target actual)
        fun _ => [.scope true true target actual])
    (hid : base.Has id) :
    Search.Covers keeps sees innermost base entered
      (program.searchImports view innermost contents id name)
      fun world => world.imports id name := by
  intro context further hgrows hkeeps hsubset
  rw [searchImports_eq, Search.lift_bind_run]
  apply (hview context id hgrows hkeeps (hgrows.has hid)).bind
  rintro clauses middle hchanges ⟨htargets, hclauses⟩
  have hmiddle : base.Grows middle := hgrows.trans hchanges.1.toGrows
  rw [Search.bind_run]
  apply (Search.throughClauses_ends hsees hcontents hmiddle hchanges.2 hsubset htargets).bind
  rintro ⟨⟨closed, found⟩, reached⟩ later hmore ⟨hreached, hled⟩
  replace hled : ∀ final, later.Grows final → keeps final →
      let led := (sees final).through name ((sees final).clauses id)
      closed = (led.1 || (innermost && !found.isEmpty)) ∧
        (sees final).Yields innermost further led.2 found reached := by
    intro final hfinal hkept
    rw [hclauses final (hmore.1.toGrows.trans hfinal) hkept]
    exact hled final hfinal hkept
  cases closed with
  | true =>
    refine .same hmore.2 ⟨hreached, fun final hfinal hkept => ?_⟩
    obtain ⟨hclosed, hyields⟩ := hled final hfinal hkept
    dsimp only
    cases hthrough : ((sees final).through name ((sees final).clauses id)).1 with
    | true =>
      rw [World.imports_of_closed _ hthrough]
      exact hyields
    | false =>
      rw [World.imports_of_open _ hthrough]
      rw [hthrough, Bool.false_or] at hclosed
      exact hyields.stop hclosed.symm
  | false =>
    have hlater : base.Grows later := hmiddle.trans hmore.1.toGrows
    have hauto : Search.Covers keeps sees innermost base entered
        (program.searchAuto contents id name) fun world => world.autoSources id name :=
      searchAuto_covers hforest hupholds hsees hcontents hid
    simp only [Bool.false_eq_true, if_false]
    rw [Search.bind_run]
    apply (hauto later reached hlater hmore.2 (List.Subset.trans hsubset hreached)).bind
    rintro ⟨more, last⟩ final hlast ⟨hentered, hmore⟩
    refine .same hlast.2 ⟨List.Subset.trans hreached hentered, fun final' hfinal hkept => ?_⟩
    obtain ⟨hclosed, hyields⟩ := hled final' (hlast.1.toGrows.trans hfinal) hkept
    obtain ⟨hthrough, hgoes⟩ := Bool.or_eq_false_iff.mp hclosed.symm
    rw [World.imports_of_open _ hthrough]
    exact hyields.append (by rw [hgoes]; exact Bool.false_ne_true) (hmore final' hfinal hkept)

/-- One level of a search ends when the scopes left to enter are fewer than its
fuel. -/
theorem searchLevel_covers (hforest : program.tree.IsForest) (hupholds : program.Upholds keeps)
    (hsees : Portrays keeps sees)
    {fuel : Nat} {decls imports : Bool} {id : ScopeId} {name : Name}
    (hview : view.Shows keeps sees base) (hid : base.Has id)
    (hfuel : program.unentered entered < fuel) :
    Search.Covers keeps sees innermost base entered
      (program.searchLevel view innermost fuel decls imports id name)
      fun world => world.sources decls imports id name := by
  induction fuel generalizing base entered decls imports id name with
  | zero => exact absurd hfuel (Nat.not_lt_zero _)
  | succ fuel ih =>
    have hcontents : ∀ later target actual, base.Grows later → later.Has target →
        Search.Covers keeps sees innermost later entered
          (Search.enter target (program.searchLevel view innermost fuel true true target actual))
          fun _ => [.scope true true target actual] := by
      intro later target actual hlater htarget context further hgrows hkeeps hsubset
      have henter : Search.Covers keeps sees innermost context further
          (Search.enter target (program.searchLevel view innermost fuel true true target actual))
          fun _ => [.scope true true target actual] := by
        refine Search.enter_covers fun more hmore hnew => ?_
        have hless := (hupholds.sound _ hkeeps).unentered_cons_lt (hgrows.has htarget) hnew
        have hle := program.unentered_le_of_subset (List.Subset.trans hsubset hmore)
        exact ih (shows_mono hview (hlater.trans hgrows)) (hgrows.has htarget) (by omega)
      exact henter context further (.refl _) hkeeps (List.Subset.refl _)
    have hdecls : Search.Covers keeps sees innermost base entered (Search.declarations id name)
        fun world => ((world.scope id).lookup name).map .set := Search.declarations_covers hsees hid
    have himports : Search.Covers keeps sees innermost base entered
        (program.searchImports view innermost (fun target actual =>
          Search.enter target (program.searchLevel view innermost fuel true true target actual))
          id name)
        fun world => world.imports id name :=
      searchImports_covers hforest hupholds hsees hview hcontents hid
    have hsources := Search.collect_covers (.cons (Search.gate_covers decls hdecls)
      (.cons (Search.gate_covers imports himports) .nil))
    simpa only [searchLevel, World.sources, List.flatMap_cons, List.flatMap_nil,
      List.append_nil] using hsources

theorem searchToplevel_covers (name : Name) :
    Search.Covers keeps sees innermost base entered (program.searchToplevel name)
      fun _ => (program.tree.toplevel? name).toList.map fun id => .set (.single (.node id)) := by
  intro context further hgrows hkeeps hsubset
  unfold searchToplevel
  cases program.tree.toplevel? name with
  | none => exact .same hkeeps ⟨List.Subset.refl _, fun _ _ _ => .nil⟩
  | some id => exact .same hkeeps ⟨List.Subset.refl _, fun _ _ _ => .set⟩

/-- Where a search leads after its first scope: the scopes around it, then the
top-level modules. -/
def beyond (program : Program) (config : LookupConfig) (around : List ScopeId) (name : Name) :
    List Source :=
  ((if config.parents then around else []).map fun outer =>
    .scope true config.imports outer name) ++
  if config.toplevel then
    (program.tree.toplevel? name).toList.map fun id => .set (.single (.node id))
  else []

/-- A search from a scope that was entered before yields nothing. Any other search
ends, and yields what a walk yields from the scope on through those around it. -/
theorem search_ends (hforest : program.tree.IsForest) (hupholds : program.Upholds keeps)
    (hsees : Portrays keeps sees) {config : LookupConfig} {id : ScopeId} {name : Name}
    (hview : view.Shows keeps sees context) (hkeeps : keeps context) (hid : context.Has id) :
    Ends (Resolving keeps) (program.search view config id name entered) context
      fun result later => entered ⊆ result.2 ∧ ∀ final, later.Grows final → keeps final →
        (sees final).Yields config.innermost entered
          (if id ∈ entered then []
            else .scope config.decls config.imports id name ::
              program.beyond config (context.climb id) name) result.1 result.2 := by
  unfold search
  rw [Search.enter_run]
  split
  · exact .same hkeeps ⟨List.Subset.refl _, fun _ _ _ => .nil⟩
  · next hnew =>
    have hlevel : Search.Covers keeps sees config.innermost context (id :: entered)
        (program.searchLevel view config.innermost program.depth config.decls config.imports id
          name)
        fun world => world.sources config.decls config.imports id name :=
      searchLevel_covers hforest hupholds hsees hview hid (program.unentered_lt _)
    have houter : ∀ outer ∈ if config.parents then context.climb id else [],
        Search.Covers keeps sees config.innermost context (id :: entered)
          (Search.enter outer
            (program.searchLevel view config.innermost program.depth true config.imports outer
              name))
          fun _ => [.scope true config.imports outer name] := by
      intro outer houter
      have hmem : outer ∈ context.climb id := by
        split at houter
        · exact houter
        · cases houter
      refine Search.enter_covers fun further _ _ => ?_
      exact searchLevel_covers hforest hupholds hsees hview
        ((hupholds.sound _ hkeeps).has_of_climb hid hmem) (program.unentered_lt _)
    have htop : Search.Covers keeps sees config.innermost context (id :: entered)
        (Search.gate config.toplevel (program.searchToplevel name))
        fun _ => if config.toplevel then
          (program.tree.toplevel? name).toList.map fun id => .set (.single (.node id)) else [] :=
      Search.gate_covers config.toplevel (searchToplevel_covers name)
    have haround := List.forall₂_map_left_iff.mpr (List.forall₂_map_right_iff.mpr
      (List.forall₂_same.mpr houter))
    have hall := Search.collect_covers
      (.cons hlevel (List.rel_append haround (.cons htop .nil)))
    apply (hall context (id :: entered) (.refl _) hkeeps (List.Subset.refl _)).mono
    rintro ⟨found, last⟩ later - ⟨hlast, hyields⟩
    refine ⟨List.Subset.trans (List.subset_cons_self _ _) hlast, fun final hfinal hkept => ?_⟩
    apply World.Yields.enter hnew
    simpa [beyond, List.flatMap_map, ← List.map_eq_flatMap] using hyields final hfinal hkept

end Program

end

end Scoping
