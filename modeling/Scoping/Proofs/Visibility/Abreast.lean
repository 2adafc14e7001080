import Scoping.Proofs.Visibility.Mirrors

/-!
Clauses recorded side by side, by a program that shares empty blocks and by one that
does not. Whatever is asked for on one side is asked for on the other in the same
order, so resolutions begin and end together, and what they record says the same.
-/

namespace Scoping

open Context Resolve

namespace Context

/-- Whether two resolutions, each of its own context, have come equally far. -/
inductive SameProgress (left right : Context) :
    Option (Progress (List Clause)) → Option (Progress (List Clause)) → Prop
  | unasked : SameProgress left right none none
  | running : SameProgress left right (some .running) (some .running)
  | done {clauses clauses' : List Clause} (hclauses : left.SameClauses right clauses clauses') :
    SameProgress left right (some (.done clauses)) (some (.done clauses'))

variable {left right left' right' : Context}

theorem SameProgress.mono {progress progress' : Option (Progress (List Clause))}
    (hsame : left.SameProgress right progress progress') (hleft : left.Grows left')
    (hright : right.Grows right') : left'.SameProgress right' progress progress' := by
  cases hsame with
  | unasked => exact .unasked
  | running => exact .running
  | done hclauses => exact .done (hclauses.mono hleft hright)

/-- Only the arenas of scopes matter. -/
theorem SameProgress.congr {progress progress' : Option (Progress (List Clause))}
    (hsame : left.SameProgress right progress progress') (hleft : left'.scopes = left.scopes)
    (hright : right'.scopes = right.scopes) : left'.SameProgress right' progress progress' := by
  cases hsame with
  | unasked => exact .unasked
  | running => exact .running
  | done hclauses => exact .done (((hclauses.congr hright).symm.congr hleft).symm)

theorem SameProgress.isSome_eq {progress progress' : Option (Progress (List Clause))}
    (hsame : left.SameProgress right progress progress') : progress.isSome = progress'.isSome := by
  cases hsame <;> rfl

/-- What is known in the end is the same. -/
theorem SameProgress.value? {progress progress' : Option (Progress (List Clause))}
    (hsame : left.SameProgress right progress progress') :
    Option.Rel (left.SameClauses right) (progress.bind Progress.value?)
      (progress'.bind Progress.value?) := by
  cases hsame with
  | unasked => exact .none
  | running => exact .none
  | done hclauses => exact .some hclauses

/-- Whether two contexts have asked for the clauses of the same scopes, and have come
equally far with each. -/
structure Abreast (program : Program) (shares : Bool) (left right : Context) : Prop where
  sound : right.Sound (program.sharing shares)
  kept : ∀ id, (left.visibility.progress? id).isSome = true → ∃ id', left.SameScope right id id'
  led : ∀ id', (right.visibility.progress? id').isSome = true → ∃ id, left.SameScope right id id'
  alike : ∀ id id', left.SameScope right id id' →
    left.SameProgress right (left.visibility.progress? id) (right.visibility.progress? id')

variable {program : Program} {shares : Bool}

theorem abreast_empty (program : Program) (shares : Bool) :
    Abreast program shares .empty .empty where
  sound := sound_empty _
  kept _ hnone := nomatch hnone
  led _ hnone := nomatch hnone
  alike _ _ _ := .unasked

namespace Abreast

variable {id id' : ScopeId} (habreast : left.Abreast program shares right)
include habreast

theorem growing (hleft : program.Building left left')
    (hright : (program.sharing shares).Building right right') :
    left'.Abreast program shares right' := by
  have hgrows := hleft.1.toGrows
  have hgrows' := hright.1.toGrows
  refine ⟨hright.2, fun id hid => ?_, fun id' hid' => ?_, fun id id' hsame => ?_⟩
  · rw [hleft.1.sameVisibility] at hid
    exact (habreast.kept id hid).imp fun _ hsame => hsame.mono hgrows hgrows'
  · rw [hright.1.sameVisibility] at hid'
    exact (habreast.led id' hid').imp fun _ hsame => hsame.mono hgrows hgrows'
  · rw [hleft.1.sameVisibility, hright.1.sameVisibility]
    -- either scope may be new on its side, but not when it has been asked for
    by_cases hasked : (left.visibility.progress? id).isSome = true
    · obtain ⟨other', hother⟩ := habreast.kept id hasked
      obtain rfl := (hsame.eq_iff hleft.2 hright.2 (hother.mono hgrows hgrows')).mp rfl
      exact (habreast.alike id id' hother).mono hgrows hgrows'
    · by_cases hasked' : (right.visibility.progress? id').isSome = true
      · obtain ⟨other, hother⟩ := habreast.led id' hasked'
        obtain rfl := (hsame.eq_iff hleft.2 hright.2 (hother.mono hgrows hgrows')).mpr rfl
        exact (habreast.alike id id' hother).mono hgrows hgrows'
      · rw [Option.not_isSome_iff_eq_none.mp hasked, Option.not_isSome_iff_eq_none.mp hasked']
        exact .unasked

/-- A step that the resolutions of one scope take on both sides. -/
theorem step {visibility visibility' : Memo ScopeId (List Clause)} (hleft : left.Sound program)
    (hid : left.SameScope right id id')
    (hsound : Sound (program.sharing shares) { right with visibility := visibility' })
    (hothers : ∀ other, other ≠ id →
      visibility.progress? other = left.visibility.progress? other)
    (hothers' : ∀ other, other ≠ id' →
      visibility'.progress? other = right.visibility.progress? other)
    (hsame : left.SameProgress right (visibility.progress? id) (visibility'.progress? id')) :
    Abreast program shares { left with visibility } { right with visibility := visibility' } := by
  refine ⟨hsound, fun other hother => ?_, fun other' hother' => ?_, fun other other' hother => ?_⟩
  · by_cases heq : other = id
    · exact heq ▸ ⟨id', hid⟩
    · exact habreast.kept other (hothers other heq ▸ hother)
  · by_cases heq : other' = id'
    · exact heq ▸ ⟨id, hid⟩
    · exact habreast.led other' (hothers' other' heq ▸ hother')
  · have hother : left.SameScope right other other' := hother
    have hiff := hother.eq_iff hleft habreast.sound hid
    by_cases heq : other = id
    · obtain rfl := heq
      obtain rfl := hiff.mp rfl
      exact hsame.congr rfl rfl
    · have hne : other' ≠ id' := fun heq' => heq (hiff.mpr heq')
      rw [show visibility.progress? other = _ from hothers other heq,
        show visibility'.progress? other' = _ from hothers' other' hne]
      exact (habreast.alike other other' hother).congr rfl rfl

/-- Resolutions that begin together. -/
theorem beginning (hleft : left.Sound program) (hid : left.SameScope right id id')
    (himports : (right.scope id').hasImports = true)
    (hnone : left.visibility.progress? id = none) :
    (left.beginning id).Abreast program shares (right.beginning id') := by
  have hnone' : right.visibility.progress? id' = none := by
    rw [← Option.not_isSome_iff_eq_none, ← (habreast.alike id id' hid).isSome_eq, hnone]
    exact Bool.false_ne_true
  refine habreast.step hleft hid (habreast.sound.beginning hid.has.2 himports)
    (fun _ hne => Memo.progress?_begin_of_ne _ hne)
    (fun _ hne => Memo.progress?_begin_of_ne _ hne) ?_
  rw [Memo.progress?_begin_self hnone, Memo.progress?_begin_self hnone']
  exact .running

/-- Resolutions that end together. -/
theorem finishing (hleft : left.Sound program) (hid : left.SameScope right id id')
    {clauses clauses' : List Clause}
    (hsound : (right.finishing id' clauses').Sound (program.sharing shares))
    (hclauses : left.SameClauses right clauses clauses') :
    (left.finishing id clauses).Abreast program shares (right.finishing id' clauses') := by
  refine habreast.step hleft hid hsound (fun _ hne => Memo.progress?_finish_of_ne _ hne _)
    (fun _ hne => Memo.progress?_finish_of_ne _ hne _) ?_
  rw [Memo.progress?_finish_self, Memo.progress?_finish_self]
  exact .done hclauses

end Abreast

end Context

namespace Program

variable {program : Program} {shares : Bool} {left right : Context} {id id' : ScopeId}

theorem couples_abreast (hmore : shares = true → program.sharesEmpty = true) :
    program.Couples shares (Abreast program shares) where
  more := hmore
  sound _ _ habreast := habreast.sound
  growing _ _ _ _ habreast := habreast.growing

/-- A spare scope is not resolved. -/
theorem resolveVisibility_of_spare (hsound : right.Sound (program.sharing shares))
    (hspare : right.Spare program id') {fuel : Nat} (hfuel : 0 < fuel) :
    (program.sharing shares).resolveVisibility fuel id' right = some (none, right) := by
  obtain ⟨fuel, rfl⟩ := Nat.exists_eq_succ_of_ne_zero (Nat.ne_of_gt hfuel)
  exact resolveOnce_of_hasImports_eq_false (hspare.bare hsound).hasImports

/-- Requests for the clauses of one scope leave both sides equally far, if its statements
come to the same where they have to be resolved. -/
theorem abreast_of_resolveOnce {inner inner' : ScopeId → Resolve (Option (List Clause))}
    (hleft : left.Sound program) (habreast : left.Abreast program shares right)
    (hid : left.SameScope right id id') {found found' : Option (List Clause)} {last last' : Context}
    (hrun : program.resolveOnce inner id left = some (found, last))
    (hrun' : (program.sharing shares).resolveOnce inner' id' right = some (found', last'))
    (hlast' : last'.Sound (program.sharing shares))
    (hstatements : (left.scope id).hasImports = true → left.visibility.progress? id = none →
      (left.beginning id).Abreast program shares (right.beginning id') →
      ∃ clauses later clauses' later',
        program.resolveStatements (program.findWithin inner id) id (left.beginning id) =
          some (clauses, later) ∧
        (program.sharing shares).resolveStatements ((program.sharing shares).findWithin inner' id')
          id' (right.beginning id') = some (clauses', later') ∧
        Resolving (Context.Sound program) (left.beginning id) later ∧
        Resolving (Abreast program shares later) (right.beginning id') later' ∧
        later.SameClauses later' clauses clauses') :
    last.Abreast program shares last' := by
  have hflag := hid.hasImports_eq hleft habreast.sound
  have halike := (habreast.alike id id' hid).isSome_eq
  cases himports : (left.scope id).hasImports with
  | false =>
    rw [resolveOnce_of_hasImports_eq_false himports] at hrun
    rw [resolveOnce_of_hasImports_eq_false (hflag ▸ himports)] at hrun'
    cases hrun
    cases hrun'
    exact habreast
  | true =>
    have himports' := hflag ▸ himports
    cases hprogress : left.visibility.progress? id with
    | some progress =>
      obtain ⟨progress', hprogress'⟩ := Option.isSome_iff_exists.mp
        (show (right.visibility.progress? id').isSome = true by
          rw [← halike, hprogress, Option.isSome_some])
      rw [resolveOnce_of_progress? himports hprogress] at hrun
      rw [resolveOnce_of_progress? himports' hprogress'] at hrun'
      cases hrun
      cases hrun'
      exact habreast
    | none =>
      have hprogress' : right.visibility.progress? id' = none := by
        rw [← Option.not_isSome_iff_eq_none, ← halike, hprogress]
        exact Bool.false_ne_true
      obtain ⟨clauses, later, clauses', later', hrest, hrest', hchanges, hchanges', hclauses⟩ :=
        hstatements himports hprogress (habreast.beginning hleft hid himports' hprogress)
      rw [resolveOnce_of_unasked himports hprogress hrest] at hrun
      rw [resolveOnce_of_unasked himports' hprogress' hrest'] at hrun'
      cases hrun
      cases hrun'
      have hbegun : (left.beginning id).SameScope (right.beginning id') id id' := hid
      exact hchanges'.2.finishing hchanges.2
        (hbegun.mono hchanges.1.toGrows hchanges'.1.toGrows) hlast' hclauses

/-- Requests for the clauses of scopes of one owner are answered with the same, and leave
both sides equally far. -/
theorem resolveVisibility_mirrors (hforest : program.tree.IsForest)
    (hmore : shares = true → program.sharesEmpty = true) {fuel : Nat}
    (hid : left.SameScope right id id') (hidle : left.idle program < fuel)
    (hidle' : right.idle (program.sharing shares) < fuel) :
    program.Mirrors (Abreast program shares) left right (program.resolveVisibility fuel id)
      ((program.sharing shares).resolveVisibility fuel id')
      fun found last found' last' => Option.Rel (last.SameClauses last') found found' := by
  have hforest' : (program.sharing shares).tree.IsForest := hforest
  induction fuel generalizing left right id id' with
  | zero => exact absurd hidle (Nat.not_lt_zero _)
  | succ fuel ih =>
    intro start start' hstart hsound hstart' habreast found last hrun
    replace hid := hid.mono hstart hstart'
    rw [← idle_congr hstart.running_iff] at hidle
    rw [← idle_congr hstart'.running_iff] at hidle'
    obtain ⟨hled, hanswers⟩ := (resolveVisibility_ends hforest hsound hid.has.1 hidle).of_run hrun
    obtain ⟨found', last', hrun', hled', hanswers'⟩ :=
      resolveVisibility_ends hforest' habreast.sound hid.has.2 hidle'
    suffices hlast : last.Abreast program shares last' by
      refine ⟨hled, found', last', hrun', ⟨hled'.1, hlast⟩, ?_⟩
      rw [hanswers.1, hanswers'.1]
      exact (hlast.alike id id' (hid.mono hled.1.toGrows hled'.1.toGrows)).value?
    refine abreast_of_resolveOnce hsound habreast hid hrun hrun' hled'.2
      fun himports hnone hboth => ?_
    have hbegun := hsound.beginning hid.has.1 himports
    have hnone' : start'.visibility.progress? id' = none := by
      rw [← Option.not_isSome_iff_eq_none, ← (habreast.alike id id' hid).isSome_eq, hnone]
      exact Bool.false_ne_true
    -- each side has one scope more marked, so the fuel left is enough for what is asked next
    have hless := hsound.idle_beginning_lt hid.has.1 hnone
    have hless' := habreast.sound.idle_beginning_lt hid.has.2 hnone'
    have hinner : ∀ later other, (start.beginning id).Grows later → later.Sound program →
        later.Has other → other ≠ id →
        Ends (Resolving (Context.Sound program)) (program.resolveVisibility fuel other) later
          (Answers other) := fun later other hgrows hlater hother _ =>
      resolveVisibility_ends hforest hlater hother (by rw [idle_congr hgrows.running_iff]; omega)
    obtain ⟨clauses, later, hrest, hchanges, -⟩ := statementsWithin_ends hforest
      program.upholds_sound hbegun (show (start.beginning id).Has id from hid.has.1) hinner
    have hmirrors : program.MirrorsInner shares (Abreast program shares) (start.beginning id)
        (start'.beginning id') id (program.resolveVisibility fuel)
        ((program.sharing shares).resolveVisibility fuel) := by
      refine ⟨fun left' right' other other' hleft hright hother _ => ?_,
        fun right' other' _ hright hspare => resolveVisibility_of_spare hright hspare (by omega)⟩
      refine (ih hother (by rw [idle_congr hleft.running_iff]; omega)
        (by rw [idle_congr hright.running_iff]; omega)).imp ?_
      rintro found _ found' _ - - (hclauses | _)
      · exact hclauses
      · exact .nil
    obtain ⟨-, clauses', later', hrest', hchanges', hclauses⟩ :=
      statementsWithin_mirrors (couples_abreast hmore)
        (show (start.beginning id).SameScope (start'.beginning id') id id' from hid) hforest
        hmirrors _ _ (.refl _) hbegun (.refl _) hboth clauses later hrest
    exact ⟨clauses, later, clauses', later', hrest, hrest', hchanges, hchanges', hclauses⟩

/-- What is recorded on both sides is the same to see. -/
theorem clausesOf_mirrors (hforest : program.tree.IsForest)
    (hmore : shares = true → program.sharesEmpty = true) :
    program.MirrorsView shares (Abreast program shares) left right program.clausesOf
      (program.sharing shares).clausesOf where
  same left' right' id id' _ _ hid := by
    have hrequest := resolveVisibility_mirrors hforest hmore hid (idle_lt program left')
      (show right'.idle (program.sharing shares) < program.depth from idle_lt _ right')
    refine hrequest.bind ?_
    rintro found middle found' middle' - - (hclauses | _)
    · exact .pure fun _ _ hleft hright => hclauses.mono hleft hright
    · exact .pure fun _ _ _ _ => .nil
  spare right' id' _ hright hspare := by
    have hnone := resolveVisibility_of_spare hright hspare
      (show 0 < (program.sharing shares).depth from Nat.succ_pos _)
    exact bind_eq_some_iff.mpr ⟨none, right', hnone, rfl⟩

end Program

end Scoping
