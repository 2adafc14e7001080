import Scoping.Proofs.Request
import Scoping.Proofs.Visibility.Mirrors

/-!
Clauses worked out afresh: with nothing remembered, so that nothing depends on what
was asked before. Every scope that a search comes through has its clauses worked out
again, the scope being resolved excepted, which shows those found so far. This need
not end, and what it ends with need not be what is recorded where a resolution came
back to a scope that waited for it; but where it ends, it is what is recorded.
-/

namespace Scoping

open Context Resolve

namespace Program

variable {program : Program} {keeps : Context → Prop} {context left right : Context}

/-- The clauses of a scope, worked out afresh, with resolutions nested at most `fuel`
deep. -/
def clausesAfresh (program : Program) : Nat → ScopeId → Resolve (List Clause)
  | 0, _ => failure
  | fuel + 1, id => do
    if (← Resolve.scope id).hasImports then
      program.resolveStatements
        (program.findWithin (fun other => some <$> program.clausesAfresh fuel other) id) id
    else return []

theorem clausesAfresh_succ (fuel : Nat) (id : ScopeId) (context : Context) :
    program.clausesAfresh (fuel + 1) id context =
      if (context.scope id).hasImports then
        program.resolveStatements
          (program.findWithin (fun other => some <$> program.clausesAfresh fuel other) id) id
          context
      else some ([], context) := by
  rw [clausesAfresh]
  change (if (context.scope id).hasImports = true then _ else _ : Resolve (List Clause)) context = _
  split <;> rfl

/-- What is worked out afresh depends neither on the context nor on the fuel, as
long as there is enough. -/
theorem clausesAfresh_mirrors (hforest : program.tree.IsForest) {fuel fuel' : Nat}
    (hfuel : fuel ≤ fuel') {id id' : ScopeId} (hid : left.SameScope right id id') :
    program.Mirrors (fun _ => Context.Sound program) left right (program.clausesAfresh fuel id)
      (program.clausesAfresh fuel' id')
      fun clauses last clauses' last' => last.SameClauses last' clauses clauses' := by
  induction fuel generalizing left right fuel' id id' with
  | zero =>
    intro _ _ _ _ _ _ _ _ hrun
    cases hrun
  | succ fuel ih =>
    cases fuel' with
    | zero => exact absurd hfuel (Nat.not_succ_le_zero fuel)
    | succ fuel' =>
      have hcouples := program.upholds_sound.couples
      apply (scope_mirrors hcouples hid).bind
      rintro scope middle _ middle' hmiddle hmiddle' ⟨enclosing, rfl⟩
      dsimp only
      split
      · exact statementsWithin_mirrors hcouples (hid.mono hmiddle hmiddle') hforest
          ⟨fun _ _ _ _ _ _ hother _ => .map (ih (Nat.le_of_succ_le_succ hfuel) hother),
            fun _ _ _ hsound hspare => absurd hspare hsound.not_spare⟩
      · exact .pure fun _ _ _ _ => .nil

/-- Whether the clauses of the scope of an owner can be worked out afresh, with
resolutions nested at most `fuel` deep. -/
def EndsAfresh (program : Program) (fuel : Nat) (owner : Option NodeId) : Prop :=
  ∃ left id clauses last, left.Sound program ∧ left.OwnedBy id owner ∧
    program.clausesAfresh fuel id left = some (clauses, last)

/-- Whether clauses say what is worked out afresh for the scope of an owner, if
that ends. -/
def AgreesAfresh (program : Program) (context : Context) (owner : Option NodeId)
    (clauses : List Clause) : Prop :=
  ∀ fuel left id found last, left.Sound program → left.OwnedBy id owner →
    program.clausesAfresh fuel id left = some (found, last) →
    last.SameClauses context found clauses

theorem AgreesAfresh.mono {later : Context} {owner : Option NodeId} {clauses : List Clause}
    (hagrees : program.AgreesAfresh context owner clauses) (hgrows : context.Grows later) :
    program.AgreesAfresh later owner clauses :=
  fun fuel left id found last hsound howned hrun =>
    (hagrees fuel left id found last hsound howned hrun).mono (.refl _) hgrows

theorem AgreesAfresh.congr {later : Context} {owner : Option NodeId} {clauses : List Clause}
    (hagrees : program.AgreesAfresh context owner clauses)
    (hscopes : later.scopes = context.scopes) : program.AgreesAfresh later owner clauses :=
  fun fuel left id found last hsound howned hrun =>
    (hagrees fuel left id found last hsound howned hrun).congr hscopes

/-- One way of working out clauses afresh is as good as any other. -/
theorem agreesAfresh_of_run (hforest : program.tree.IsForest) {fuel : Nat} {id : ScopeId}
    {owner : Option NodeId} {last : Context} {found clauses : List Clause}
    (hsound : left.Sound program) (howned : left.OwnedBy id owner)
    (hrun : program.clausesAfresh fuel id left = some (found, last))
    (hsame : last.SameClauses context found clauses) :
    program.AgreesAfresh context owner clauses := by
  intro fuel' left' id' found' last' hsound' howned' hrun'
  rcases Nat.le_total fuel fuel' with hle | hle
  · obtain ⟨-, hagain⟩ := clausesAfresh_mirrors hforest hle ⟨owner, howned, howned'⟩ left left'
      (.refl _) hsound (.refl _) hsound' found last hrun
    exact (hagain.of_run hrun').2.symm.trans hsame
  · obtain ⟨-, hagain⟩ := clausesAfresh_mirrors hforest hle ⟨owner, howned', howned⟩ left' left
      (.refl _) hsound' (.refl _) hsound found' last' hrun'
    exact (hagain.of_run hrun).2.trans hsame

/-- A request for clauses mirrors working them out afresh, if its answer agrees where
that ends. -/
theorem request_mirrors (hforest : program.tree.IsForest) {fuel : Nat} {id id' : ScopeId}
    {request : Resolve (Option (List Clause))} (hsame : left.SameScope right id id')
    (hrequest : ∀ right' owner, right.Grows right' → keeps right' → right'.OwnedBy id' owner →
      program.EndsAfresh fuel owner → Ends (Resolving keeps) request right'
        fun found later => program.AgreesAfresh later owner (found.getD [])) :
    program.Mirrors (fun _ => keeps) left right (program.clausesAfresh fuel id) request
      fun clauses last found last' => last.SameClauses last' clauses (found.getD []) := by
  intro start start' hstart hsound hstart' hkeeps clauses last hrun
  obtain ⟨owner, howned, howned'⟩ := hsame.mono hstart hstart'
  have hbuilding := (clausesAfresh_mirrors hforest le_rfl (.refl howned.1) start start (.refl _)
    hsound (.refl _) hsound clauses last hrun).1
  refine ⟨hbuilding, (hrequest start' owner hstart' hkeeps howned'
    ⟨start, id, clauses, last, hsound, howned, hrun⟩).mono fun found later _ hagrees => ?_⟩
  exact hagrees fuel start id clauses last hsound howned hrun

end Program

/-- A context whose recorded clauses say what is worked out afresh. -/
structure Context.Faithful (program : Program) (context : Context) : Prop where
  sound : context.Sound program
  agrees : ∀ id clauses, context.visibility.get? id = some clauses →
    program.AgreesAfresh context (context.scope id).owner clauses

namespace Context.Faithful

variable {program : Program} {context : Context} {id : ScopeId}
variable (hfaithful : context.Faithful program)
include hfaithful

theorem beginning (hid : context.Has id) (himports : (context.scope id).hasImports = true) :
    (context.beginning id).Faithful program := by
  refine ⟨hfaithful.sound.beginning hid himports, fun other clauses hclauses => ?_⟩
  rw [Context.beginning, Memo.get?_begin] at hclauses
  exact (hfaithful.agrees other clauses hclauses).congr rfl

theorem finishing {clauses : List Clause} (hid : context.Has id)
    (himports : (context.scope id).hasImports = true) (hfits : context.AllFit clauses)
    (hmade : ∀ owner, (context.scope id).owner = some owner →
      program.MadeOf (program.tree.writtenClauses owner) clauses)
    (hagrees : program.AgreesAfresh context (context.scope id).owner clauses) :
    (context.finishing id clauses).Faithful program := by
  refine ⟨hfaithful.sound.finishing hid himports hfits hmade, fun other found hfound => ?_⟩
  rcases Memo.eq_or_get?_of_finish hfound with ⟨rfl, rfl⟩ | hknown
  · exact hagrees.congr rfl
  · exact (hfaithful.agrees other found hknown).congr rfl

end Context.Faithful

namespace Program

variable {program : Program} {context : Context} {id : ScopeId}

theorem upholds_faithful (program : Program) : program.Upholds (Context.Faithful program) where
  sound _ hfaithful := hfaithful.sound
  growing context later hfaithful hgrows hlater hsame := by
    refine ⟨hlater, fun id clauses hclauses => ?_⟩
    rw [hsame] at hclauses
    have hknown := Memo.get?_eq_some_iff.mp hclauses
    have hid := (hfaithful.sound.asked id (by rw [hknown]; rfl)).1
    rw [hgrows.scope hid]
    exact (hfaithful.agrees id clauses hclauses).mono hgrows

/-- Whether the resolutions that are open can wait for a scope: each of them, if it
can be worked out afresh, takes deeper nesting than the scope does. -/
def Awaits (program : Program) (context : Context) (owner : Option NodeId) : Prop :=
  ∀ other, context.Running other → ∀ fuel, program.EndsAfresh fuel (context.scope other).owner →
    ∃ less < fuel, program.EndsAfresh less owner

/-- A scope that waits for itself cannot be worked out afresh. -/
theorem Awaits.not_endsAfresh (hawaits : program.Awaits context (context.scope id).owner)
    (hrunning : context.Running id) (fuel : Nat) :
    ¬ program.EndsAfresh fuel (context.scope id).owner := by
  induction fuel using Nat.strong_induction_on with
  | _ fuel ih =>
    intro hends
    obtain ⟨less, hless, hends'⟩ := hawaits id hrunning fuel hends
    exact ih less hless hends'

/-- The answer to a request for clauses is what is worked out afresh. -/
theorem Answers.agreesAfresh {found : Option (List Clause)} (hanswers : Answers id found context)
    (hfaithful : context.Faithful program) (hid : context.Has id)
    (hawaits : program.Awaits context (context.scope id).owner) :
    program.AgreesAfresh context (context.scope id).owner (found.getD []) := by
  cases hfound : found with
  | some clauses => exact hfaithful.agrees id clauses (hanswers.1.symm.trans hfound)
  | none =>
    intro fuel left id' clauses last hsound howned hrun
    have hsame : left.SameScope context id' id := ⟨_, howned, hid, rfl⟩
    have hnone : (context.scope id).hasImports = false := by
      by_contra himports
      obtain ⟨progress, hprogress⟩ :=
        Option.isSome_iff_exists.mp (hanswers.2 (Bool.not_eq_false _ ▸ himports))
      cases progress with
      | running =>
        exact hawaits.not_endsAfresh hprogress fuel ⟨left, id', _, _, hsound, howned, hrun⟩
      | done clauses =>
        have hknown := Memo.get?_eq_some_iff.mpr hprogress
        rw [← hanswers.1, hfound] at hknown
        cases hknown
    cases fuel with
    | zero => cases hrun
    | succ fuel =>
      rw [clausesAfresh_succ, hsame.hasImports_eq hsound hfaithful.sound, hnone,
        if_neg Bool.false_ne_true] at hrun
      obtain ⟨rfl, rfl⟩ := Prod.mk.inj (Option.some.inj hrun)
      exact .nil

/-- A scope that one being resolved comes to is one that all open resolutions can
wait for. -/
theorem Awaits.inner {later : Context} {other : ScopeId} (bound : Nat)
    (hawaits : program.Awaits context (context.scope id).owner)
    (hsound : context.Sound program) (hid : context.Has id)
    (hnone : context.visibility.progress? id = none)
    (hleast : ∀ fuel, program.EndsAfresh fuel (context.scope id).owner → bound < fuel)
    (hother : ∀ fuel, program.EndsAfresh fuel (context.scope id).owner →
      program.EndsAfresh bound (later.scope other).owner)
    (hgrows : (context.beginning id).Grows later) :
    program.Awaits later (later.scope other).owner := by
  intro waiting hwaiting fuel hends
  rw [hgrows.running_iff, running_beginning hnone] at hwaiting
  rcases hwaiting with rfl | hwaiting
  · rw [hgrows.scope (show (context.beginning waiting).Has waiting from hid)] at hends
    exact ⟨bound, hleast fuel hends, hother fuel hends⟩
  · have hhas := (hsound.asked waiting (by rw [hwaiting]; rfl)).1
    rw [hgrows.scope (show (context.beginning id).Has waiting from hhas)] at hends
    obtain ⟨less, hless, hends'⟩ := hawaits waiting hwaiting fuel hends
    exact ⟨bound, (hleast less hends').trans hless, hother less hends'⟩

/-- Whether requests for clauses, with resolutions nested at most `fuel` deep, record
what is worked out afresh. -/
def RecordsAfresh (program : Program) (fuel : Nat) : Prop :=
  ∀ context id, context.Faithful program → context.Has id → context.idle program < fuel →
    program.Awaits context (context.scope id).owner →
    Ends (Resolving (Context.Faithful program)) (program.resolveVisibility fuel id) context
      (Answers id)

section

variable {fuel : Nat} (hforest : program.tree.IsForest) (hrecords : program.RecordsAfresh fuel)
variable (hfaithful : context.Faithful program) (hid : context.Has id)
variable (hnone : context.visibility.progress? id = none)
variable (hidle : ∀ later, (context.beginning id).Grows later → later.idle program < fuel)
variable (hawaits : program.Awaits context (context.scope id).owner)
include hforest hrecords hfaithful hid hnone hidle hawaits

/-- The requests that a resolution makes mirror working clauses out afresh, with no
deeper nesting than the resolution itself takes. -/
theorem request_mirrorsInner (left : Context) (id' : ScopeId) {bound : Nat}
    (hleast : ∀ fuel, program.EndsAfresh fuel (context.scope id).owner → bound < fuel) :
    program.MirrorsInner program.sharesEmpty (fun _ => Context.Faithful program) left
      (context.beginning id) id'
      (fun other => some <$> program.clausesAfresh bound other)
      (program.resolveVisibility fuel) := by
  refine ⟨fun left' right' other other' hleft hright hother _ => ?_,
    fun _ _ _ hsound hspare => absurd hspare hsound.not_spare⟩
  refine .map_left (request_mirrors hforest hother ?_)
  rintro later _ hlater hfaithful' ⟨hhas, rfl⟩ hinside
  have hgrows := hright.trans hlater
  have hwaits : ∀ final, later.Grows final → program.Awaits final (final.scope other').owner := by
    intro final hfinal
    exact hawaits.inner bound hfaithful.sound hid hnone hleast
      (fun _ _ => by rwa [hfinal.scope hhas]) (hgrows.trans hfinal)
  have hends := hrecords later other' hfaithful' hhas (hidle later hgrows) (hwaits later (.refl _))
  refine hends.mono fun found final hchanges hanswers => ?_
  have hfinal := hchanges.1.toGrows
  have hagrees := hanswers.agreesAfresh hchanges.2 (hfinal.has hhas) (hwaits final hfinal)
  rwa [hfinal.scope hhas] at hagrees

/-- The statements of a scope say what is worked out afresh. -/
theorem statements_agreeAfresh (himports : (context.scope id).hasImports = true) :
    Ends (Resolving (Context.Faithful program))
      (program.resolveStatements (program.findWithin (program.resolveVisibility fuel) id) id)
      (context.beginning id)
      fun clauses later => program.AgreesAfresh later (context.scope id).owner clauses := by
  have hbegun := hfaithful.beginning hid himports
  by_cases hends : ∃ fuel, program.EndsAfresh fuel (context.scope id).owner
  · -- the run that nests least leads the way
    obtain ⟨least, hends, hleast⟩ : ∃ least, program.EndsAfresh least (context.scope id).owner ∧
        ∀ fuel < least, ¬ program.EndsAfresh fuel (context.scope id).owner := by
      classical
      exact ⟨Nat.find hends, Nat.find_spec hends, fun _ => Nat.find_min hends⟩
    obtain ⟨left, id', found, last, hsound, howned, hafresh⟩ := hends
    cases least with
    | zero => cases hafresh
    | succ bound =>
      have hsame : left.SameScope (context.beginning id) id' id := ⟨_, howned, hid, rfl⟩
      have hinner := request_mirrorsInner hforest hrecords hfaithful hid hnone hidle hawaits left id'
        fun fuel hfuel => Nat.lt_of_not_le fun hle => hleast fuel (Nat.lt_succ_of_le hle) hfuel
      have hrest := hafresh
      rw [clausesAfresh_succ, hsame.hasImports_eq hsound hbegun.sound,
        if_pos (show ((context.beginning id).scope id).hasImports = true from himports)] at hrest
      obtain ⟨-, hmirrors⟩ := statementsWithin_mirrors program.upholds_faithful.couples hsame hforest
        hinner left (context.beginning id) (.refl _) hsound (.refl _) hbegun found last hrest
      exact hmirrors.mono fun clauses later _ hfound =>
        agreesAfresh_of_run hforest hsound howned hafresh hfound
  · -- nothing is to be shown of this scope, so any scope may be asked for on its behalf
    have hnever : ∀ {p : Nat → Prop} fuel, program.EndsAfresh fuel (context.scope id).owner →
        p fuel := fun fuel hfuel => absurd ⟨fuel, hfuel⟩ hends
    refine (statementsWithin_ends hforest program.upholds_faithful hbegun
      (show (context.beginning id).Has id from hid) fun later other hgrows hlater hother _ => ?_).mono
      fun clauses later _ _ fuel left id' _ _ hsound howned hafresh => ?_
    · exact hrecords later other hlater hother (hidle later hgrows)
        (hawaits.inner 0 hfaithful.sound hid hnone hnever hnever hgrows)
    · exact absurd ⟨fuel, left, id', _, _, hsound, howned, hafresh⟩ hends

end

/-- Resolving clauses records what is worked out afresh. -/
theorem recordsAfresh (hforest : program.tree.IsForest) (fuel : Nat) :
    program.RecordsAfresh fuel := by
  induction fuel with
  | zero => exact fun _ _ _ _ hfuel => absurd hfuel (Nat.not_lt_zero _)
  | succ fuel ih =>
    intro context id hfaithful hid hfuel hawaits
    refine resolveOnce_ends program.upholds_faithful hfaithful fun himports hnone => ?_
    have hless := hfaithful.sound.idle_beginning_lt hid hnone
    have hidle : ∀ later, (context.beginning id).Grows later → later.idle program < fuel := by
      intro later hgrows
      rw [idle_congr hgrows.running_iff]
      omega
    obtain ⟨clauses, later, hrun, hchanges, hagrees⟩ :=
      statements_agreeAfresh hforest ih hfaithful hid hnone hidle hawaits himports
    have hall := statementsWithin_ends hforest program.upholds_sound
      (hfaithful.beginning hid himports).sound (show (context.beginning id).Has id from hid)
      fun later other hgrows hlater hother _ =>
        resolveVisibility_ends hforest hlater hother (hidle later hgrows)
    have hscope : later.scope id = context.scope id :=
      hchanges.1.toGrows.scope (show (context.beginning id).Has id from hid)
    rw [← hscope] at hagrees himports
    exact ⟨clauses, later, hrun, hchanges.1, hchanges.2.finishing (hchanges.1.toGrows.has hid)
      himports (hall.of_run hrun).2.fits (hall.of_run hrun).2.made hagrees⟩

end Program

end Scoping
