import Scoping.Proofs.Context.Grounding
import Scoping.Proofs.Lookup.Keeping
import Scoping.Proofs.Visibility.Departing
import Scoping.Proofs.Visibility.Entries

/-!
Who has reported what. Every error is about one clause, and it was reported when the
clauses of the scope that the clause belongs to were worked out. So working out the
clauses of other scopes on the way, in whatever order, touches nothing that was
reported about the clauses of a scope before.
-/

namespace Scoping

open Context Resolve

/-- What the errors about a clause tell. -/
structure Tree.Explained (tree : Tree) (written : WrittenClause) (part : List Clause)
    (errors : List Diagnostic) : Prop where
  /-- A clause without contribution has one error to show for it, at a node where a clause
  can be refused. -/
  refused : part = [] → ∃ error, errors = [error] ∧ tree.Anchors written error.node
  /-- No node has two errors. -/
  apart : (errors.map Diagnostic.node).Nodup
  /-- The errors about a clause with a contribution are about its list, or at the clause. -/
  listed : part ≠ [] → ∀ error ∈ errors,
    error.node = written.site ∨ ∃ entry ∈ written.limitations, error.node ∈ tree.entryNodes entry
  /-- The errors about an `except` are those about the forms of its entries. -/
  excepted : written.stmt = .use → written.limitation = .except → part ≠ [] →
    errors = tree.exceptFaults written.limitations

theorem Tree.Explained.of_refused {tree : Tree} {written : WrittenClause} {error : Diagnostic}
    (hanchored : tree.Anchors written error.node) : tree.Explained written [] [error] where
  refused _ := ⟨error, rfl, hanchored⟩
  apart := List.nodup_singleton _
  listed hne := absurd rfl hne
  excepted _ _ hne := absurd rfl hne

/-- What a clause comes to, together with the errors about it. -/
def Program.Accounts (program : Program) (written : WrittenClause) (part : List Clause)
    (errors : List Diagnostic) : Prop :=
  program.Contributes written part ∧ program.tree.Explained written part errors

namespace Context

open Classical in
/-- The errors reported about the clause at a site. -/
noncomputable def errorsWithin (context : Context) (tree : Tree) (site : NodeId) :
    List Diagnostic :=
  context.errors.filter fun error => tree.Within site error.node

theorem errorsWithin_eq_nil_iff {context : Context} {tree : Tree} {site : NodeId} :
    context.errorsWithin tree site = [] ↔ ∀ error ∈ context.errors, ¬ tree.Within site error.node := by
  simp [errorsWithin]

/-- Whether the clauses of the scope that a clause belongs to were ever asked for. -/
def Asked (context : Context) (tree : Tree) (site : NodeId) : Prop :=
  ∃ id owner, (context.visibility.progress? id).isSome = true ∧
    context.OwnedBy id (some owner) ∧ site ∈ (tree.writtenClauses owner).map WrittenClause.site

/-- Whether a clause belongs to a scope whose clauses are being worked out. -/
def Pending (context : Context) (tree : Tree) (site : NodeId) : Prop :=
  ∃ id owner, context.Running id ∧ context.OwnedBy id (some owner) ∧
    site ∈ (tree.writtenClauses owner).map WrittenClause.site

theorem Pending.asked {context : Context} {tree : Tree} {site : NodeId}
    (hpending : context.Pending tree site) : context.Asked tree site := by
  obtain ⟨id, owner, hrunning, howned, hsite⟩ := hpending
  refine ⟨id, owner, ?_, howned, hsite⟩
  rw [hrunning]
  rfl

/-- What a clause has come to among those of its scope, by what is reported about it so far. -/
structure Settles (program : Program) (context : Context) (clauses : List Clause)
    (written : WrittenClause) (part : List Clause) : Prop where
  accounts : program.Accounts written part (context.errorsWithin program.tree written.site)
  /-- When it had its turn, some clauses of its scope were there already. -/
  departs : ∃ id owner fuel before earlier, written ∈ program.tree.writtenClauses owner ∧
    before.OwnedBy id (some owner) ∧ before.scopes.toList <+: context.scopes.toList ∧
    earlier <+: clauses ∧ ∀ path name, program.SetsOut written path name →
      program.Departs (program.findWithin (program.resolveVisibility fuel) id earlier) before id
        written path name part (context.errorsWithin program.tree written.site)

/-- What clauses have come to is told by the errors about them. -/
theorem settles_congr {program : Program} {context later : Context} {due : List WrittenClause}
    {clauses more : List Clause} {parts : List (List Clause)}
    (hparts : List.Forall₂ (context.Settles program clauses) due parts)
    (hscopes : context.scopes.toList <+: later.scopes.toList) (hclauses : clauses <+: more)
    (hsame : ∀ written ∈ due, later.errorsWithin program.tree written.site =
      context.errorsWithin program.tree written.site) :
    List.Forall₂ (later.Settles program more) due parts := by
  refine ((List.forall₂_and_left _ _).mpr ⟨hsame, hparts⟩).imp ?_
  rintro written part ⟨herrors, haccounts, id, owner, fuel, before, earlier, hmem, howned, hbefore,
    hearlier, hdeparts⟩
  refine ⟨by rwa [herrors], id, owner, fuel, before, earlier, hmem, howned, hbefore.trans hscopes,
    hearlier.trans hclauses, ?_⟩
  rwa [herrors]

/-- What is true of the log and the clauses of any context. -/
structure Ledger (program : Program) (context : Context) : Prop where
  grounded : context.Grounded program
  asked : ∀ id, (context.visibility.progress? id).isSome = true →
    ∃ owner, context.OwnedBy id (some owner)
  /-- Every error is about a clause that was asked for. -/
  traced : ∀ error ∈ context.errors, ∃ site, context.Asked program.tree site ∧
    program.tree.Within site error.node
  settled : ∀ id clauses, context.visibility.get? id = some clauses →
    ∃ owner parts, context.OwnedBy id (some owner) ∧
      List.Forall₂ (context.Settles program clauses) (program.tree.writtenClauses owner) parts ∧
      clauses = parts.flatten

end Context

namespace Context

variable {program : Program} {context : Context}

theorem Asked.isSite {tree : Tree} {site : NodeId} (hasked : context.Asked tree site) :
    tree.IsSite site := by
  obtain ⟨_, _, _, _, hmem⟩ := hasked
  obtain ⟨written, hwritten, rfl⟩ := List.mem_map.mp hmem
  exact Tree.isSite_of_mem hwritten

/-- What was asked for is not forgotten. -/
theorem Asked.mono {later : Context} {tree : Tree} {site : NodeId}
    (hasked : context.Asked tree site) (hscopes : context.scopes.toList <+: later.scopes.toList)
    (hkept : ∀ id, (context.visibility.progress? id).isSome = true →
      (later.visibility.progress? id).isSome = true) : later.Asked tree site := by
  obtain ⟨id, owner, hsome, howned, hsite⟩ := hasked
  exact ⟨id, owner, hkept id hsome, howned.of_prefix hscopes, hsite⟩

/-- A step that changes the clauses alone. -/
theorem Ledger.withVisibility (hledger : context.Ledger program)
    {visibility : Memo ScopeId (List Clause)}
    (hkept : ∀ id, (context.visibility.progress? id).isSome = true →
      (visibility.progress? id).isSome = true)
    (hasked : ∀ id, (visibility.progress? id).isSome = true →
      ∃ owner, context.OwnedBy id (some owner))
    (hsettled : ∀ id clauses, visibility.get? id = some clauses →
      ∃ owner parts, context.OwnedBy id (some owner) ∧
        List.Forall₂ (context.Settles program clauses) (program.tree.writtenClauses owner) parts ∧
        clauses = parts.flatten) :
    Ledger program { context with visibility } := by
  refine ⟨hledger.grounded.congr rfl rfl rfl, hasked, fun error herror => ?_,
    fun id clauses hclauses => ?_⟩
  · obtain ⟨site, hsite, hwithin⟩ := hledger.traced error herror
    exact ⟨site, hsite.mono List.prefix_rfl hkept, hwithin⟩
  · obtain ⟨owner, parts, howned, hparts, hflatten⟩ := hsettled id clauses hclauses
    exact ⟨owner, parts, howned,
      settles_congr hparts List.prefix_rfl List.prefix_rfl fun _ _ => rfl, hflatten⟩

end Context

/-- What a step may change that reports about the clauses at the given sites only. -/
structure Program.Sparing (program : Program) (own : List NodeId) (context later : Context) :
    Prop where
  ledger : later.Ledger program
  scopes : context.scopes.toList <+: later.scopes.toList
  progress : ∀ id progress, context.visibility.progress? id = some progress →
    later.visibility.progress? id = some progress
  errors : ∀ site, context.Asked program.tree site → site ∉ own →
    later.errorsWithin program.tree site = context.errorsWithin program.tree site

/-- What a step may change that reports about no clause that was asked for before. -/
def Program.Spares (program : Program) (context later : Context) : Prop :=
  context.Ledger program → program.Sparing [] context later

namespace Program.Sparing

variable {program : Program} {own more : List NodeId} {context middle later : Context}
variable (hsparing : program.Sparing own context later)

theorem refl (hledger : context.Ledger program) : program.Sparing own context context :=
  ⟨hledger, List.prefix_rfl, fun _ _ hprogress => hprogress, fun _ _ _ => rfl⟩

include hsparing

theorem asked {site : NodeId} (hasked : context.Asked program.tree site) :
    later.Asked program.tree site := by
  refine hasked.mono hsparing.scopes fun id hsome => ?_
  obtain ⟨progress, hprogress⟩ := Option.isSome_iff_exists.mp hsome
  rw [hsparing.progress id progress hprogress]
  rfl

theorem pending {site : NodeId} (hpending : context.Pending program.tree site) :
    later.Pending program.tree site := by
  obtain ⟨id, owner, hrunning, howned, hsite⟩ := hpending
  exact ⟨id, owner, hsparing.progress id .running hrunning, howned.of_prefix hsparing.scopes, hsite⟩

theorem widen (hsubset : own ⊆ more) : program.Sparing more context later :=
  { hsparing with errors := fun site hasked hsite =>
      hsparing.errors site hasked fun hmem => hsite (hsubset hmem) }

omit hsparing in
theorem trans (hfirst : program.Sparing own context middle)
    (hsecond : program.Sparing own middle later) : program.Sparing own context later where
  ledger := hsecond.ledger
  scopes := hfirst.scopes.trans hsecond.scopes
  progress id progress hprogress := hsecond.progress id progress (hfirst.progress id progress hprogress)
  errors site hasked hsite :=
    (hsecond.errors site (hfirst.asked hasked) hsite).trans (hfirst.errors site hasked hsite)

end Program.Sparing

namespace Program

variable {program : Program} {context later : Context}

instance spares_isPreorder (program : Program) : IsPreorder Context program.Spares where
  refl _ hledger := .refl hledger
  trans _ _ _ hfirst hsecond hledger :=
    (hfirst hledger).trans (hsecond (hfirst hledger).ledger)

/-- A step that reports no error and asks for no clauses. -/
theorem sparing_of_same {own : List NodeId} (hledger : context.Ledger program)
    (hgrounded : later.Grounded program)
    (hscopes : context.scopes.toList <+: later.scopes.toList)
    (hvisibility : later.visibility = context.visibility) (herrors : later.errors = context.errors) :
    program.Sparing own context later := by
  have hwithin : ∀ site,
      later.errorsWithin program.tree site = context.errorsWithin program.tree site := by
    intro site
    rw [errorsWithin, errorsWithin, herrors]
  refine ⟨⟨hgrounded, fun id hsome => ?_, fun error herror => ?_, fun id clauses hclauses => ?_⟩,
    hscopes, fun id progress hprogress => hvisibility ▸ hprogress, fun site _ _ => hwithin site⟩
  · obtain ⟨owner, howned⟩ := hledger.asked id (hvisibility ▸ hsome)
    exact ⟨owner, howned.of_prefix hscopes⟩
  · obtain ⟨site, hsite, hwithin⟩ := hledger.traced error (herrors ▸ herror)
    exact ⟨site, hsite.mono hscopes fun id hsome => hvisibility ▸ hsome, hwithin⟩
  · obtain ⟨owner, parts, howned, hparts, hflatten⟩ :=
      hledger.settled id clauses (hvisibility ▸ hclauses)
    exact ⟨owner, parts, howned.of_prefix hscopes,
      settles_congr hparts hscopes List.prefix_rfl fun _ _ => hwithin _, hflatten⟩

theorem Grounding.sparing {steps : Nat} (hgrounding : program.Grounding steps context later)
    (hledger : context.Ledger program) : program.Sparing [] context later :=
  sparing_of_same hledger hgrounding.grounded hgrounding.scopes hgrounding.visibility
    hgrounding.errors

theorem rootScope_spares : Keeps program.Spares program.rootScope := by
  intro context root later hrun hledger
  exact (rootScope_yields hledger.grounded 0 root later hrun).1.sparing hledger

theorem scopeOf_spares (hfinished : program.tree.Finished) (id : NodeId) :
    Keeps program.Spares (program.scopeOf id) := by
  intro context scope later hrun hledger
  obtain ⟨⟨steps, hends⟩, hgrounding⟩ :=
    climbScopeOf_yields hfinished program.depth id hledger.grounded scope later hrun
  exact (hgrounding steps hends).sparing hledger

theorem autoScope_spares (hfinished : program.tree.Finished) :
    Keeps program.Spares program.autoScope := by
  have hrecord : ∀ found : Option ScopeId, Keeps program.Spares (do
      modify fun context => { context with autoScope := some found }
      return found) := fun found =>
    Keeps.bind (.modify fun context hledger => sparing_of_same hledger
      (hledger.grounded.congr rfl rfl rfl) List.prefix_rfl rfl rfl) fun _ => .pure _
  unfold autoScope
  refine .get_bind fun context => ?_
  split
  · exact .pure _
  dsimp only
  split
  · exact (scopeOf_spares hfinished _).map.bind hrecord
  · exact (Keeps.pure none).bind hrecord

end Program

end Scoping
