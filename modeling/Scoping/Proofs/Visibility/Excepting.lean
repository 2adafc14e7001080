import Scoping.Proofs.Gathering
import Scoping.Proofs.Visibility.Parts

/-!
What an `except` hides. Every entry of its list that is no plain identifier is refused with
an error, and most are then left out. A rename of identifiers is refused as well, but it
stays on the list, and hides the name that it would make visible.
-/

namespace Scoping

open Context Resolve

namespace Clause

variable {clause : Clause} {name : Name}

theorem actual?_isSome_iff :
    (clause.actual? name).isSome = true ↔ ∃ actual, (actual, name) ∈ clause.names := by
  simp [actual?]

theorem route_of_contentsExcept (hkind : clause.kind = .contentsExcept) :
    clause.route name = if (clause.actual? name).isSome then .blocked else .contents name := by
  rw [route, hkind]
  cases clause.actual? name <;> rfl

end Clause

namespace Tree

variable {tree : Tree} {entries : List NodeId} {entry : NodeId} {name : Name}

/-- What an entry takes out of sight that is on the list of an `except`. -/
inductive Hides (tree : Tree) (entry : NodeId) (name : Name) : Prop
  | identifier (hkind : tree.kind? entry = some (.identifier name))
  | renamed {symbol renamed : NodeId} {actual : Name}
    (hkind : tree.kind? entry = some (.rename symbol renamed))
    (hactual : tree.identifier? symbol = some actual) (hname : tree.identifier? renamed = some name)

theorem hides_iff : tree.Hides entry name ↔ ∃ actual, tree.listed? entry = some (actual, name) := by
  constructor
  · rintro (hkind | @⟨symbol, renamed, actual, hkind, hactual, hname⟩)
    · exact ⟨name, by rw [listed?, hkind]⟩
    · exact ⟨actual, by simp [listed?, hkind, hactual, hname]⟩
  · rintro ⟨actual, hlisted⟩
    unfold listed? at hlisted
    split at hlisted
    · next hkind =>
      cases hlisted
      exact .identifier hkind
    · next hkind =>
      obtain ⟨actual', hactual, hlisted⟩ := Option.bind_eq_some_iff.mp hlisted
      obtain ⟨name', hname, hpair⟩ := Option.map_eq_some_iff.mp hlisted
      cases hpair
      exact .renamed hkind hactual hname
    · cases hlisted

/-- The names on a list are those that some entry of it hides. -/
theorem exists_mem_listed_iff :
    (∃ actual, (actual, name) ∈ tree.listed entries) ↔ ∃ entry ∈ entries, tree.Hides entry name := by
  simp only [listed, List.mem_filterMap, hides_iff]
  constructor
  · rintro ⟨actual, entry, hentry, hlisted⟩
    exact ⟨entry, hentry, actual, hlisted⟩
  · rintro ⟨entry, hentry, actual, hlisted⟩
    exact ⟨actual, entry, hentry, hlisted⟩

/-- An error about a list is about an entry that is no plain identifier. -/
theorem exists_faulty_of_mem_exceptFaults {error : Diagnostic}
    (herror : error ∈ tree.exceptFaults entries) :
    ∃ entry ∈ entries, tree.identifier? entry = none ∧ error.node ∈ tree.entryNodes entry := by
  rcases List.mem_append.mp herror with hrename | hpair
  · obtain ⟨entry, hentry, hfault⟩ := List.mem_filterMap.mp hrename
    have hnode := (tree.map_node_renameFault? entry).symm.trans (congrArg _ hfault)
    refine ⟨entry, hentry, ?_, mem_entryNodes_of_renameSite? hnode⟩
    unfold renameFault? at hfault
    split at hfault
    · next htag =>
      unfold identifier?
      split
      · next hkind =>
        rw [tag?_of_kind? hkind] at htag
        cases htag
      · rfl
    · cases hfault
  · obtain ⟨entry, hentry, hfault⟩ := List.mem_filterMap.mp hpair
    have hnode := (tree.map_node_pairFault? entry).symm.trans (congrArg _ hfault)
    refine ⟨entry, hentry, ?_, mem_entryNodes_of_pairSite? hnode⟩
    unfold identifier?
    split
    · next hkind =>
      rw [pairFault?, hkind] at hfault
      cases hfault
    · rfl

/-- An entry of another form than a plain identifier is refused. -/
theorem unsupported_mem_exceptFaults (hentry : entry ∈ entries)
    (hother : tree.identifier? entry = none) :
    ∃ message, .unsupported entry message ∈ tree.exceptFaults entries := by
  have hfault : ∃ message, tree.renameFault? entry = some (.unsupported entry message) ∨
      tree.pairFault? entry = some (.unsupported entry message) := by
    cases hkind : tree.kind? entry with
    | none => exact ⟨_, .inr (by rw [pairFault?, hkind])⟩
    | some kind =>
      cases kind with
      | identifier name => simp [identifier?, hkind] at hother
      | rename symbol renamed => exact ⟨_, .inl (if_pos (tag?_of_kind? hkind))⟩
      | _ => exact ⟨_, .inr (by rw [pairFault?, hkind])⟩
  obtain ⟨message, hfault | hfault⟩ := hfault
  · exact ⟨message, List.mem_append_left _ (List.mem_filterMap.mpr ⟨entry, hentry, hfault⟩)⟩
  · exact ⟨message, List.mem_append_right _ (List.mem_filterMap.mpr ⟨entry, hentry, hfault⟩)⟩

end Tree

namespace Program

variable {program : Program} {context : Context} {id : ScopeId} {name : Name}

/-- What an `except` makes of the contents of its target, and what is reported about its
list. -/
structure Excepts (program : Program) (context : Context) (written : WrittenClause)
    (clause : Clause) : Prop where
  kind : clause.kind = .contentsExcept
  /-- The clause knows the names that an entry hides, and no others. -/
  hidden : ∀ name, (clause.actual? name).isSome = true ↔
    ∃ entry ∈ written.limitations, program.tree.Hides entry name
  /-- Every other name stands for what it is declared as in the target. -/
  visible : ∀ name, (∀ entry ∈ written.limitations, ¬ program.tree.Hides entry name) →
    clause.route name = .contents name
  /-- Every entry that is no plain identifier has an error. -/
  refused : ∀ entry ∈ written.limitations, program.tree.identifier? entry = none →
    ∃ message, .unsupported entry message ∈ context.errors
  /-- A plain identifier has none. -/
  accepted : ∀ entry ∈ written.limitations, (program.tree.identifier? entry).isSome = true →
    ∀ error ∈ context.errors, error.node ≠ entry

/-- What a `use` with an `except` comes to. -/
inductive Excepting (program : Program) (context : Context) (written : WrittenClause) :
    List Clause → Prop
  /-- Where there is no target, that is all that is reported about the clause. -/
  | refused {error : Diagnostic}
    (herrors : context.errorsWithin program.tree written.site = [error])
    (hanchored : program.tree.Anchors written error.node) : Excepting program context written []
  | brought {target : ScopeId} {itself clause : Clause}
    (hmade : program.made written target = some [itself, clause])
    (hitself : itself.target = target ∧ itself.kind = .symbolOnly) (htarget : clause.target = target)
    (hexcepts : program.Excepts context written clause) :
    Excepting program context written [itself, clause]

theorem names_of_made_except {written : WrittenClause} {target : ScopeId} {itself clause : Clause}
    (hstmt : written.stmt = .use) (hexcept : written.limitation = .except)
    (hmade : program.made written target = some [itself, clause]) :
    clause.names = program.tree.listed written.limitations := by
  obtain ⟨stmt, access, site, symbol, limitation, limitations⟩ := written
  cases hstmt
  cases hexcept
  unfold made at hmade
  obtain ⟨⟨expr, newName⟩, -, hmade⟩ := Option.bind_eq_some_iff.mp hmade
  obtain ⟨last, -, hmade⟩ := Option.bind_eq_some_iff.mp hmade
  cases hmade
  rfl

/-- A clause that lists what its entries stand for hides what they hide. -/
theorem excepts_of_names (hfinished : program.tree.Finished) {owner : NodeId}
    {written : WrittenClause} (hmem : written ∈ program.tree.writtenClauses owner) {clause : Clause}
    (hkind : clause.kind = .contentsExcept)
    (hnames : clause.names = program.tree.listed written.limitations)
    (herrors : context.errorsWithin program.tree written.site =
      program.tree.exceptFaults written.limitations) : program.Excepts context written clause := by
  have hhidden : ∀ name, (clause.actual? name).isSome = true ↔
      ∃ entry ∈ written.limitations, program.tree.Hides entry name := fun name => by
    rw [Clause.actual?_isSome_iff, hnames, Tree.exists_mem_listed_iff]
  refine ⟨hkind, hhidden, fun name hvisible => ?_, fun entry hentry hother => ?_,
    fun entry hentry hplain error herror hnode => ?_⟩
  · rw [Clause.route_of_contentsExcept hkind, if_neg]
    rw [hhidden]
    rintro ⟨entry, hentry, hhides⟩
    exact hvisible entry hentry hhides
  · obtain ⟨message, hfault⟩ := Tree.unsupported_mem_exceptFaults hentry hother
    exact ⟨message, (mem_errorsWithin_iff.mp (herrors ▸ hfault)).1⟩
  · -- an error at the entry would be about an entry of another form, and no two share a node
    have hwithin : error ∈ context.errorsWithin program.tree written.site :=
      mem_errorsWithin_iff.mpr ⟨herror, hnode ▸ Tree.within_limitation hmem hentry⟩
    rw [herrors] at hwithin
    obtain ⟨faulty, hfaulty, hother, hmem'⟩ := Tree.exists_faulty_of_mem_exceptFaults hwithin
    obtain ⟨-, -, -, -, hclause⟩ := Tree.exists_statement hmem
    have hoperand : ∀ {entry}, entry ∈ written.limitations →
        entry ∈ program.tree.operandsOf written.site := fun hentry => by
      rw [Tree.operandsOf_eq hclause]
      exact List.mem_cons_of_mem _ hentry
    obtain rfl := hfinished.wellFormed.eq_of_mem_entryNodes (Tree.isSite_of_mem hmem)
      (hoperand hentry) (hoperand hfaulty) (hnode ▸ List.mem_cons_self) hmem'
    rw [hother] at hplain
    cases hplain

theorem excepting_of_settles (hfinished : program.tree.Finished) {owner : NodeId}
    {clauses : List Clause} {written : WrittenClause} {part : List Clause}
    (hmem : written ∈ program.tree.writtenClauses owner)
    (hsettles : context.Settles program clauses written part) (hstmt : written.stmt = .use)
    (hexcept : written.limitation = .except) : program.Excepting context written part := by
  obtain ⟨hcontributes, hexplained⟩ := hsettles.accounts
  rcases hcontributes with rfl | ⟨target, hmade⟩
  · obtain ⟨error, herrors, hanchored⟩ := hexplained.refused rfl
    exact .refused herrors hanchored
  · have herrors := hexplained.excepted hstmt hexcept (ne_nil_of_made hmade)
    cases shape_of_made hmade with
    | imports himports =>
      rw [hstmt] at himports
      cases himports
    | use _ hitself hcontents =>
      obtain ⟨htarget, hkind⟩ := hcontents
      rw [hexcept] at hkind
      exact .brought hmade hitself htarget (excepts_of_names hfinished hmem
        (Option.some.inj hkind).symm (names_of_made_except hstmt hexcept hmade) herrors)

/-- Whenever the clauses of a scope are asked for, each `use` with an `except` in its owner
comes to a clause for the name of its target and one for the contents, if it has a target.
The latter hides a name if an entry of the list is that identifier, or a rename of
identifiers to that name. All entries but the plain identifiers have errors, and every
name that is not hidden leads to what the target declares. -/
theorem visibility_excepts {tree : Tree} (hfinished : tree.Finished) (hgrounded : tree.Grounded)
    (htree : program.tree = tree) (hreachable : program.Reachable context)
    (hid : context.Has id) :
    ∃ found later, program.visibility id context = some (found, later) ∧
      ∀ owner, later.OwnedBy id (some owner) → ∃ parts, found.getD [] = parts.flatten ∧
        List.Forall₂ (fun written part => written.stmt = .use → written.limitation = .except →
          program.Excepting later written part) (tree.writtenClauses owner) parts := by
  subst htree
  obtain ⟨found, later, hrun, -, hsettles⟩ :=
    hreachable.visibility_settles hfinished (hfinished.isForest hgrounded) hid
  refine ⟨found, later, hrun, fun owner howned => ?_⟩
  obtain ⟨parts, hparts, hflatten⟩ := hsettles owner howned
  exact ⟨parts, hflatten, ((List.forall₂_and_left _ _).mpr ⟨fun _ hmem => hmem, hparts⟩).imp
    fun written part ⟨hmem, hpart⟩ => excepting_of_settles hfinished hmem hpart⟩

/-- A module with three variables, and a user of all of it except a rename of the first
to the name of the second, the third, and a field access. -/
def renamedExcept : Program :=
  (Session.fresh (.ofSteps
    [.variableDecl "x" none, .variableDecl "y" none, .variableDecl "z" none,
      .moduleDecl false "M" [⟨0⟩, ⟨1⟩, ⟨2⟩], .identifier "M", .identifier "x", .identifier "y",
      .rename ⟨5⟩ ⟨6⟩, .identifier "z", .identifier "x", .dot ⟨9⟩ "y",
      .clause ⟨4⟩ .except [⟨7⟩, ⟨8⟩, ⟨10⟩], .useStmt .unstated [⟨11⟩],
      .moduleDecl false "User" [⟨12⟩]]) {}).program

/-- The name of a variable of the module. -/
def renamedExceptName (id : NodeId) : Name := (renamedExcept.tree.declName? id).getD .this

/-- The clause of the user, as it is written. -/
def renamedExceptClause : WrittenClause :=
  ⟨.use, .unstated, ⟨11⟩, ⟨4⟩, .except, [⟨7⟩, ⟨8⟩, ⟨10⟩]⟩

/-- What is known once the scope of the user is asked for. -/
def renamedExceptAsked : Context :=
  (renamedExcept.askAll [.scopeOf ⟨13⟩, .visibility ⟨1⟩] .empty).getD .empty

/-- What the clause makes of the name of the module. -/
def renamedExceptItself : Clause :=
  ⟨⟨2⟩, .symbolOnly, true, [(renamedExceptName ⟨3⟩, renamedExceptName ⟨3⟩)]⟩

/-- What the clause makes of the contents of the module. -/
def renamedExceptContents : Clause :=
  ⟨⟨2⟩, .contentsExcept, true, [(renamedExceptName ⟨0⟩, renamedExceptName ⟨1⟩),
    (renamedExceptName ⟨2⟩, renamedExceptName ⟨2⟩)]⟩

theorem renamedExcept_finished : renamedExcept.tree.Finished :=
  Tree.finished_ofSteps (by decide +kernel)

theorem renamedExcept_known :
    renamedExcept.tree.Grounded ∧
      renamedExcept.tree.writtenClauses ⟨13⟩ = [renamedExceptClause] ∧
      renamedExcept.askAll [.scopeOf ⟨13⟩, .visibility ⟨1⟩] .empty = some renamedExceptAsked ∧
      renamedExceptAsked.OwnedBy ⟨1⟩ (some ⟨13⟩) ∧ renamedExceptAsked.OwnedBy ⟨2⟩ (some ⟨3⟩) ∧
      renamedExcept.visibility ⟨1⟩ renamedExceptAsked =
        some (some [renamedExceptItself, renamedExceptContents], renamedExceptAsked) := by
  decide +kernel

/-- The third variable is hidden and the first is not, with an error about the rename and one
about the access, though none about the identifier. -/
theorem renamedExcept_visibility_excepts :
    ∃ found later itself clause,
      renamedExcept.visibility ⟨1⟩ renamedExceptAsked = some (found, later) ∧
      found.getD [] = [itself, clause] ∧
      renamedExcept.Excepts later renamedExceptClause clause ∧
      (clause.actual? (renamedExceptName ⟨2⟩)).isSome = true ∧
      clause.route (renamedExceptName ⟨0⟩) = .contents (renamedExceptName ⟨0⟩) := by
  obtain ⟨hgrounded, hwritten, hasked, howned, -, hvisibility⟩ := renamedExcept_known
  have hentries : renamedExcept.tree.kind? ⟨8⟩ = some (.identifier (renamedExceptName ⟨2⟩)) ∧
      ∀ entry ∈ renamedExceptClause.limitations,
        (renamedExcept.tree.listed? entry).map Prod.snd ≠ some (renamedExceptName ⟨0⟩) := by
    decide +kernel
  obtain ⟨found, later, hrun, hparts⟩ := visibility_excepts renamedExcept_finished hgrounded rfl
    (.askAll .refl hasked) howned.1
  obtain ⟨rfl, rfl⟩ := Prod.mk.inj (Option.some.inj (hvisibility.symm.trans hrun))
  obtain ⟨parts, hflatten, hexcepting⟩ := hparts ⟨13⟩ howned
  rw [hwritten] at hexcepting
  obtain ⟨part, hpart, rfl⟩ := forall₂_singleton_left_iff.mp hexcepting
  cases hpart rfl rfl with
  | refused => cases hflatten
  | @brought target itself clause _ _ _ hexcepts =>
    refine ⟨_, _, itself, clause, hrun, hflatten, hexcepts,
      (hexcepts.hidden _).mpr ⟨⟨8⟩, by decide, .identifier hentries.1⟩,
      hexcepts.visible _ fun entry hentry => ?_⟩
    rw [Tree.hides_iff]
    rintro ⟨actual, hlisted⟩
    exact hentries.2 entry hentry (by rw [hlisted]; rfl)

/-- No entry is the name of the second variable, which the module declares; the rename is
refused, and yet the variable cannot be found through the clause. -/
theorem renamedExcept_hides_unlisted :
    renamedExcept.tree.Finished ∧ renamedExcept.tree.Grounded ∧
      renamedExcept.Reachable renamedExceptAsked ∧
      renamedExceptAsked.OwnedBy ⟨1⟩ (some ⟨13⟩) ∧ renamedExceptAsked.OwnedBy ⟨2⟩ (some ⟨3⟩) ∧
      renamedExcept.tree.writtenClauses ⟨13⟩ = [renamedExceptClause] ∧
      renamedExcept.visibility ⟨1⟩ renamedExceptAsked =
        some (some [renamedExceptItself, renamedExceptContents], renamedExceptAsked) ∧
      (∀ entry ∈ renamedExceptClause.limitations,
        renamedExcept.tree.identifier? entry ≠ some (renamedExceptName ⟨1⟩)) ∧
      renamedExceptAsked.errors.map Diagnostic.node = [⟨7⟩, ⟨10⟩] ∧
      (renamedExceptContents.actual? (renamedExceptName ⟨1⟩)).isSome = true ∧
      (renamedExceptAsked.scope ⟨2⟩).declares (renamedExceptName ⟨1⟩) = true ∧
      (renamedExcept.lookup { imports := true } none ⟨1⟩ (renamedExceptName ⟨1⟩)
        renamedExceptAsked).map Prod.fst = some [] := by
  obtain ⟨hgrounded, hwritten, hasked, howned, htarget, hvisibility⟩ := renamedExcept_known
  refine ⟨renamedExcept_finished, hgrounded, .askAll .refl hasked, howned, htarget, hwritten,
    hvisibility, ?_⟩
  decide +kernel

end Program

end Scoping
