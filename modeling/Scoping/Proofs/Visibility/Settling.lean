import Scoping.Proofs.Keeping
import Scoping.Proofs.Visibility.Booking
import Scoping.Proofs.Visibility.Keeping

/-!
What a resolution settles. The clauses of a scope are worked out one by one; when a
clause has its turn nothing was reported about it yet, and nothing is reported about it
afterwards, neither by the clauses after it nor by the resolutions of other scopes.
-/

namespace Scoping

open Context Resolve

namespace Context

/-- Whether clauses of a scope are still to be worked out: the resolution of the scope is
open, and nothing was reported about any of them. -/
structure Due (program : Program) (id : ScopeId) (owner : NodeId)
    (due : List WrittenClause) (context : Context) : Prop where
  ledger : context.Ledger program
  running : context.Running id
  owned : context.OwnedBy id (some owner)
  subset : due ⊆ program.tree.writtenClauses owner
  nodup : (due.map WrittenClause.site).Nodup
  silent : ∀ written ∈ due, context.errorsWithin program.tree written.site = []

variable {program : Program} {context later : Context} {id : ScopeId} {owner : NodeId}
variable {due more : List WrittenClause}

theorem Due.pending (hdue : context.Due program id owner due)
    {written : WrittenClause} (hwritten : written ∈ due) :
    context.Pending program.tree written.site :=
  ⟨id, owner, hdue.running, hdue.owned, List.mem_map_of_mem (hdue.subset hwritten)⟩

theorem Due.left (hdue : context.Due program id owner (due ++ more)) :
    context.Due program id owner due :=
  { hdue with
    subset := (List.append_subset.mp hdue.subset).1
    nodup := (List.nodup_append.mp (List.map_append ▸ hdue.nodup)).1
    silent := fun written hwritten => hdue.silent written (List.mem_append_left _ hwritten) }

theorem Due.disjoint (hdue : context.Due program id owner (due ++ more)) :
    (due.map WrittenClause.site).Disjoint (more.map WrittenClause.site) :=
  List.disjoint_of_nodup_append (List.map_append ▸ hdue.nodup)

/-- Once the first clauses have had their turn, the others await theirs. -/
theorem Due.right (hdue : context.Due program id owner (due ++ more))
    (hsparing : program.Sparing (due.map WrittenClause.site) context later) :
    later.Due program id owner more where
  ledger := hsparing.ledger
  running := hsparing.progress id .running hdue.running
  owned := hdue.owned.of_prefix hsparing.scopes
  subset := (List.append_subset.mp hdue.subset).2
  nodup := (List.nodup_append.mp (List.map_append ▸ hdue.nodup)).2.1
  silent written hwritten := by
    have hmem := List.mem_append_right due hwritten
    rw [hsparing.errors _ (hdue.pending hmem).asked fun hsite =>
      hdue.disjoint hsite (List.mem_map_of_mem hwritten)]
    exact hdue.silent written hmem

end Context

namespace Program

variable {program : Program} {context later : Context} {id : ScopeId} {owner : NodeId}

section

variable (hfinished : program.tree.Finished) {written : WrittenClause}
variable (hmem : written ∈ program.tree.writtenClauses owner) {expr : NodeId}
variable (hexpr : program.targetExpr? written = some expr)
include hfinished hmem hexpr

/-- No error about a list, or at the clause itself, is at the head of the path. -/
theorem head_silent_of_explained {part : List Clause} {errors : List Diagnostic}
    (hexplained : program.tree.Explained written part errors) (hpart : part ≠ []) :
    ∀ error ∈ errors, error.node ≠ (program.tree.path expr).head := by
  intro error herror hsame
  obtain ⟨hsite, hentries⟩ := hfinished.off_list_of_within_symbol hmem
    (within_symbol_of_onChain hexpr (program.tree.path_onChain expr).1)
  rcases hexplained.listed hpart error herror with heq | ⟨entry, hentry, hnode⟩
  · exact hsite (hsame.symm.trans heq)
  · exact hentries entry hentry (hsame ▸ hnode)

variable {find : Finder}
variable (hfind : ∀ config scope name, Keeps program.Spares (find config scope name))
variable (hledger : context.Ledger program) (hpending : context.Pending program.tree written.site)
variable (hsilent : context.errorsWithin program.tree written.site = [])
include hfind hledger hpending hsilent

/-- A field that is refused is not the head, which is an identifier. -/
theorem head_silent_of_lost {start : ScopeId × Name} {name : Name}
    (hname : program.tree.identifier? (program.tree.path expr).head = some name)
    (hrun : program.resolveFields find written.stmt start (program.tree.path expr).fields context =
      some (none, later)) :
    ∀ error ∈ later.errorsWithin program.tree written.site,
      error.node ≠ (program.tree.path expr).head := by
  have hbooks : program.Books written.site (program.resolveFields find written.stmt start _)
      (Told fun id => ∃ field ∈ (program.tree.path expr).fields, id = field.1) :=
    resolveFields_books hfinished.wellFormed hfind hfinished start
      (fun field hfield =>
        within_site_of_onChain hmem hexpr ((program.tree.path_onChain expr).2 field hfield))
      fun field hfield => ⟨field, hfield, rfl⟩
  obtain ⟨-, errors, herrors, told, rfl, field, hfield, hnode⟩ :=
    hbooks context hledger hpending none later hrun
  intro error herror
  rw [herrors, hsilent, List.nil_append] at herror
  obtain rfl := List.mem_singleton.mp herror
  exact hnode ▸ Tree.head_not_field hname hfield

end

/-- What becomes of a clause whose path begins with `this` or `super`: an error at the head
can only be the one that tells that there is no module to begin with. -/
theorem Goes.departs (hfinished : program.tree.Finished) {find : Finder}
    (hfind : ∀ config scope name, Keeps program.Spares (find config scope name))
    {written : WrittenClause} (hmem : written ∈ program.tree.writtenClauses owner)
    (hledger : context.Ledger program) (hpending : context.Pending program.tree written.site)
    (hsilent : context.errorsWithin program.tree written.site = []) {part : List Clause}
    (hgoes : program.Goes find id written context part later)
    (hexplained : program.tree.Explained written part (later.errorsWithin program.tree written.site))
    {path : Path} {name : Name} (hsets : program.SetsOut written path name) :
    program.Departs find context id written path name part
      (later.errorsWithin program.tree written.site) := by
  have hpath := hsets.isPath
  rw [pathOf?_eq] at hpath
  obtain ⟨expr, hexpr, rfl⟩ := Option.map_eq_some_iff.mp hpath
  have hwithin := within_site_of_onChain hmem hexpr (program.tree.path_onChain expr).1
  have hfollows : ∀ {start}, context.outset? id name = some start →
      program.resolvePath find written.stmt id expr context =
        program.resolveFields find written.stmt (start, name) (program.tree.path expr).fields
          context :=
    fun hstart => resolvePath_of_outset hsets.isHead hsets.keyword hstart
  cases hgoes with
  | barred hbarred =>
    rcases hbarred with hnot | hnone
    · exact absurd hsets.admitted hnot
    · cases hexpr.symm.trans hnone
  | lost hexpr' hrun =>
    obtain rfl := Option.some.inj (hexpr.symm.trans hexpr')
    refine ⟨fun hnone => ?_, fun start hstart => ?_, fun start hstart => ?_⟩
    · rw [resolvePath_of_no_outset hsets.isHead hsets.keyword hnone] at hrun
      cases hrun
      refine ⟨rfl, ?_⟩
      rw [errorsWithin_reporting rfl hwithin, hsilent, List.nil_append]
    · rw [hfollows hstart] at hrun
      exact head_silent_of_lost hfinished hmem hexpr hfind hledger hpending hsilent hsets.isHead hrun
    · rw [hfollows hstart] at hrun
      exact ⟨none, later, hrun, fun _ => rfl, nofun⟩
  | @reached _ target last _ middle _ hexpr' hrun hmade =>
    obtain rfl := Option.some.inj (hexpr.symm.trans hexpr')
    refine ⟨fun hnone => ?_, fun start hstart => ?_, fun start hstart => ?_⟩
    · rw [resolvePath_of_no_outset hsets.isHead hsets.keyword hnone] at hrun
      cases hrun
    · exact head_silent_of_explained hfinished hmem hexpr hexplained (ne_nil_of_made hmade)
    · rw [hfollows hstart] at hrun
      refine ⟨some (target, last), middle, hrun, nofun, fun reached hreached => ?_⟩
      exact Option.some.inj hreached ▸ hmade

/-- A computation that adds to a list what clauses of a scope come to. -/
def Adds (program : Program) (id : ScopeId) (owner : NodeId) (due : List WrittenClause)
    (action : Resolve (List Clause)) (before : List Clause) : Prop :=
  ∀ context, context.Due program id owner due → action.Yields context fun clauses later =>
    program.Sparing (due.map WrittenClause.site) context later ∧
      ∃ parts, List.Forall₂ (later.Settles program clauses) due parts ∧
        clauses = before ++ parts.flatten

namespace Adds

variable {due more : List WrittenClause} {before : List Clause}

theorem pure (before : List Clause) : program.Adds id owner [] (Pure.pure before) before :=
  fun _ hdue => .pure ⟨.refl hdue.ledger, [], .nil, (List.append_nil _).symm⟩

/-- What came of the first clauses is not touched by the others. -/
theorem bind {first : Resolve (List Clause)} {next : List Clause → Resolve (List Clause)}
    (hfirst : program.Adds id owner due first before)
    (hnext : ∀ clauses, program.Adds id owner more (next clauses) clauses) :
    program.Adds id owner (due ++ more) (first >>= next) before := by
  intro context hdue
  refine (hfirst context hdue.left).bind ?_
  rintro _ later ⟨hsparing, parts, hparts, rfl⟩
  have hright := hdue.right hsparing
  refine (hnext _ later hright).mono ?_
  rintro _ last ⟨hmore, parts', hparts', rfl⟩
  refine ⟨?_, parts ++ parts', List.rel_append ?_ hparts', ?_⟩
  · rw [List.map_append]
    exact (hsparing.widen (List.subset_append_left _ _)).trans
      (hmore.widen (List.subset_append_right _ _))
  · refine settles_congr hparts hmore.scopes (List.prefix_append _ _) fun written hwritten => ?_
    exact hmore.errors _ (hsparing.asked (hdue.left.pending hwritten).asked)
      fun hsite => hdue.disjoint (List.mem_map_of_mem hwritten) hsite
  · rw [List.flatten_append, List.append_assoc]

/-- One clause, from what it comes to and what is reported about it meanwhile. -/
theorem of_books (hfinished : program.tree.Finished) {fuel : Nat}
    (hfind : ∀ config scope name, Keeps program.Spares
      (program.findWithin (program.resolveVisibility fuel) id before config scope name))
    {written : WrittenClause} {action : Resolve (List Clause)}
    (hgoes : ∀ {context part later}, action context = some (part, later) →
      program.Goes (program.findWithin (program.resolveVisibility fuel) id before) id written context
        part later)
    (hbooks : written ∈ program.tree.writtenClauses owner →
      program.Books written.site action (program.tree.Explained written)) :
    program.Adds id owner [written] (do return before ++ (← action)) before := by
  intro context hdue
  have hself := List.mem_singleton_self written
  have hmem := hdue.subset hself
  have hpending := hdue.pending hself
  have hone : action.Yields context fun part later =>
      program.Goes (program.findWithin (program.resolveVisibility fuel) id before) id written context
        part later ∧ program.Sparing [written.site] context later ∧
      ∃ errors, later.errorsWithin program.tree written.site =
        context.errorsWithin program.tree written.site ++ errors ∧
        program.tree.Explained written part errors :=
    fun part later hrun => ⟨hgoes hrun, hbooks hmem context hdue.ledger hpending part later hrun⟩
  refine hone.bind ?_
  rintro part later ⟨hgone, hsparing, errors, herrors, hexplained⟩
  rw [hdue.silent written hself, List.nil_append] at herrors
  subst herrors
  have hsettles : later.Settles program (before ++ part) written part :=
    { accounts := ⟨hgone.contributes, hexplained⟩
      departs := ⟨id, owner, fuel, context, before, hmem, hdue.owned, hsparing.scopes,
        List.prefix_append _ _, fun path name hsets => hgone.departs hfinished hfind hmem
          hdue.ledger hpending (hdue.silent written hself) hexplained hsets⟩ }
  exact .pure ⟨hsparing, [part], .cons hsettles .nil, by simp⟩

/-- The nodes of a list, one after another. -/
theorem foldlM {step : List Clause → NodeId → Resolve (List Clause)}
    {due : NodeId → List WrittenClause}
    (hstep : ∀ clauses node, program.Adds id owner (due node) (step clauses node) clauses)
    (nodes : List NodeId) (before : List Clause) :
    program.Adds id owner (nodes.flatMap due) (nodes.foldlM step before) before := by
  induction nodes generalizing before with
  | nil => exact .pure before
  | cons node rest ih =>
    rw [List.foldlM_cons, List.flatMap_cons]
    exact (hstep before node).bind fun clauses => ih clauses

end Adds

section

variable {fuel : Nat} (hfinished : program.tree.Finished)
variable (hfinds : ∀ clauses config scope name, Keeps program.Spares
  (program.findWithin (program.resolveVisibility fuel) id clauses config scope name))
include hfinished hfinds

theorem addClause_adds (stmt : Statement) (access : Access) (before : List Clause) (site : NodeId) :
    program.Adds id owner (program.tree.writtenClause? stmt access site).toList
      (program.addClause (program.findWithin (program.resolveVisibility fuel) id) stmt id
        access.isPrivate before site) before := by
  unfold addClause Tree.writtenClause?
  cases program.tree.kind? site with
  | none => exact .pure before
  | some kind =>
    cases kind with
    | clause symbol limitation limitations =>
      cases stmt with
      | use =>
        exact .of_books hfinished (hfinds before) (useClauses_goes _ id before)
          fun hmem => useClauses_books hfinished hfinds hmem access.isPrivate before
      | imports =>
        exact .of_books hfinished (hfinds before) (importClauses_goes _ id before)
          fun hmem => importClauses_books hfinished hfinds hmem access.isPrivate before
    | _ => exact .pure before

theorem addStatement_adds (before : List Clause) (node : NodeId) :
    program.Adds id owner (program.tree.clausesOfStatement node)
      (program.addStatement (program.findWithin (program.resolveVisibility fuel) id) id before node)
      before := by
  have hall : ∀ stmt access, program.Adds id owner
      ((program.tree.children node).filterMap (program.tree.writtenClause? stmt access))
      ((program.tree.children node).foldlM
        (program.addClause (program.findWithin (program.resolveVisibility fuel) id) stmt id
          access.isPrivate) before) before := by
    intro stmt access
    rw [List.filterMap_eq_flatMap_toList]
    exact .foldlM (addClause_adds hfinished hfinds stmt access) _ before
  unfold addStatement Tree.clausesOfStatement
  cases program.tree.kind? node with
  | none => exact .pure before
  | some kind =>
    cases kind with
    | useStmt access => exact hall .use access
    | importStmt access => exact hall .imports access
    | _ => exact .pure before

theorem resolveStatements_adds :
    program.Adds id owner (program.tree.writtenClauses owner)
      (program.resolveStatements (program.findWithin (program.resolveVisibility fuel) id) id) [] := by
  intro context hdue
  refine .scope_bind ?_
  rw [hdue.owned.2]
  exact Adds.foldlM (addStatement_adds hfinished hfinds) _ [] context hdue

end

/-- Nobody has asked for the clauses of a node whose scope was not asked for. -/
theorem not_asked (hformed : program.tree.WellFormed) (hgrounded : context.Grounded program)
    (hnone : context.visibility.progress? id = none) (howned : context.OwnedBy id (some owner))
    {written : WrittenClause} (hmem : written ∈ program.tree.writtenClauses owner) :
    ¬ context.Asked program.tree written.site := by
  rintro ⟨other, owner', hsome, howned', hsite⟩
  obtain ⟨written', hmem', hsame⟩ := List.mem_map.mp hsite
  obtain rfl := hformed.eq_of_site hmem' hmem hsame
  obtain rfl := hgrounded.eq_of_ownedBy howned' howned
  rw [hnone] at hsome
  cases hsome

/-- Opening the resolution of a scope. -/
theorem due_beginning (hformed : program.tree.WellFormed) (hledger : context.Ledger program)
    (hnone : context.visibility.progress? id = none) (howned : context.OwnedBy id (some owner)) :
    (context.beginning id).Due program id owner (program.tree.writtenClauses owner) where
  ledger := by
    refine hledger.withVisibility (fun other => Memo.isSome_progress?_begin)
      (fun other hsome => ?_) fun done clauses hclauses => ?_
    · rcases Memo.eq_or_isSome_progress?_of_begin hsome with rfl | hknown
      · exact ⟨owner, howned⟩
      · exact hledger.asked other hknown
    · rw [Memo.get?_begin] at hclauses
      exact hledger.settled done clauses hclauses
  running := Memo.progress?_begin_self hnone
  owned := howned
  subset := List.Subset.refl _
  nodup := hformed.nodup_sites owner
  silent written hmem := by
    refine errorsWithin_eq_nil_iff.mpr fun error herror hwithin => ?_
    obtain ⟨site, hasked, hwithin'⟩ := hledger.traced error herror
    obtain rfl := hwithin.unique hformed (Tree.isSite_of_mem hmem) hasked.isSite hwithin'
    exact not_asked hformed hledger.grounded hnone howned hmem hasked

/-- Closing the resolution of a scope. -/
theorem ledger_finishing (hledger : context.Ledger program)
    (howned : context.OwnedBy id (some owner)) {parts : List (List Clause)}
    (hparts : List.Forall₂ (context.Settles program parts.flatten)
      (program.tree.writtenClauses owner) parts) :
    (context.finishing id parts.flatten).Ledger program := by
  refine hledger.withVisibility (fun other hsome => ?_) (fun other hsome => ?_)
    fun done clauses hclauses => ?_
  · by_cases heq : other = id
    · rw [heq, Memo.progress?_finish_self]
      rfl
    · rwa [Memo.progress?_finish_of_ne _ heq]
  · rcases Memo.eq_or_isSome_progress?_of_finish hsome with rfl | hknown
    · exact ⟨owner, howned⟩
    · exact hledger.asked other hknown
  · rcases Memo.eq_or_get?_of_finish hclauses with ⟨rfl, rfl⟩ | hknown
    · exact ⟨owner, parts, howned, hparts, rfl⟩
    · exact hledger.settled done clauses hknown

/-- A resolution as a whole, from what it does between its two marks. -/
theorem sparing_finishing (hformed : program.tree.WellFormed) (hledger : context.Ledger program)
    (hnone : context.visibility.progress? id = none) (howned : context.OwnedBy id (some owner))
    (hsparing : program.Sparing ((program.tree.writtenClauses owner).map WrittenClause.site)
      (context.beginning id) later) {parts : List (List Clause)}
    (hparts : List.Forall₂ (later.Settles program parts.flatten)
      (program.tree.writtenClauses owner) parts) :
    program.Sparing [] context (later.finishing id parts.flatten) := by
  have hlater : later.OwnedBy id (some owner) := howned.of_prefix hsparing.scopes
  refine ⟨ledger_finishing hsparing.ledger hlater hparts, hsparing.scopes,
    fun other progress hother => ?_, fun site hasked _ => ?_⟩
  · have hne : other ≠ id := by
      rintro rfl
      simp [hnone] at hother
    rw [finishing, Memo.progress?_finish_of_ne _ hne]
    exact hsparing.progress other progress (Memo.progress?_begin_of_eq_some hother)
  · have hbegun : (context.beginning id).Asked program.tree site :=
      hasked.mono List.prefix_rfl fun other => Memo.isSome_progress?_begin
    refine hsparing.errors site hbegun fun hsite => ?_
    obtain ⟨written, hmem, rfl⟩ := List.mem_map.mp hsite
    exact not_asked hformed hledger.grounded hnone howned hmem hasked

/-- A resolution reports about the clauses of its scope, none of which was asked for
before. -/
theorem resolveOnce_spares (hfinished : program.tree.Finished) {fuel : Nat}
    (hinner : ∀ other, Keeps program.Spares (program.resolveVisibility fuel other)) (id : ScopeId) :
    Keeps program.Spares (program.resolveOnce (program.resolveVisibility fuel) id) := by
  intro context found last hrun hledger
  rcases resolveOnce_cases hrun with
    ⟨rfl, -⟩ | ⟨himports, hnone, clauses, later, hstatements, -, rfl⟩
  · exact .refl hledger
  · obtain ⟨owner, howned⟩ := hledger.grounded.exists_owner himports
    have hdue := due_beginning hfinished.wellFormed hledger hnone howned
    obtain ⟨hsparing, parts, hparts, rfl⟩ := resolveStatements_adds hfinished
      (findWithin_keeps (autoScope_spares hfinished) hinner id) _ hdue _ later hstatements
    exact sparing_finishing hfinished.wellFormed hledger hnone howned hsparing hparts

theorem resolveVisibility_spares (hfinished : program.tree.Finished) (fuel : Nat) (id : ScopeId) :
    Keeps program.Spares (program.resolveVisibility fuel id) := by
  induction fuel generalizing id with
  | zero => exact fun _ _ _ => nofun
  | succ fuel ih => exact resolveOnce_spares hfinished ih id

/-- What questions do to the log: nothing is reported twice. -/
theorem admits_spares (hfinished : program.tree.Finished) : program.Admits program.Spares where
  rootScope := rootScope_spares
  scopeOf := scopeOf_spares hfinished
  autoScope := autoScope_spares hfinished
  visibility := resolveVisibility_spares hfinished program.depth
  others context later hscopes hscopeOf hbuilt hvisibility hdiagnostics hledger := by
    refine sparing_of_same hledger (hledger.grounded.congr hscopes hscopeOf hbuilt)
      (hscopes ▸ List.prefix_rfl) hvisibility ?_
    rw [errors, errors, hdiagnostics]

theorem ledger_empty (program : Program) : Context.empty.Ledger program :=
  ⟨grounded_empty program, nofun, nofun, nofun⟩

/-- Between questions, or in the middle of one, the clauses and the log agree. -/
theorem Reachable.ledger (hfinished : program.tree.Finished)
    (hreachable : program.Reachable context) : context.Ledger program :=
  ((admits_spares hfinished).reaches hreachable (ledger_empty program)).ledger

end Program

end Scoping
