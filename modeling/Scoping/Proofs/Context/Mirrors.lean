import Mathlib.Data.List.Forall2
import Scoping.Proofs.Context.Resolving
import Scoping.Proofs.Context.Spare

/-!
Two contexts side by side, of one program or of one that shares empty blocks and one
that does not. Handles depend on what was asked first, so scopes are told by their
owners; apart from the handles of the scopes around them, scopes of one owner are
equal, and around them there is the same but for spare scopes. A computation mirrors
another one when it ends whenever the other one does, with a result that agrees up
to handles.
-/

namespace Scoping

open Context Resolve

/-- Two lists that run alike, but for elements of the second one that are to spare. -/
inductive Padded {α β : Type} (alike : α → β → Prop) (spare : β → Prop) : List α → List β → Prop
  | nil : Padded alike spare [] []
  | cons {first : α} {first' : β} {rest : List α} {rest' : List β} (hfirst : alike first first')
    (hrest : Padded alike spare rest rest') : Padded alike spare (first :: rest) (first' :: rest')
  | spare {first' : β} {rest : List α} {rest' : List β} (hfirst : spare first')
    (hrest : Padded alike spare rest rest') : Padded alike spare rest (first' :: rest')

namespace Padded

variable {α β γ δ : Type} {alike : α → β → Prop} {spare : β → Prop} {list : List α} {list' : List β}

theorem refl {alike : α → α → Prop} {spare : α → Prop} (halike : ∀ element, alike element element)
    (list : List α) : Padded alike spare list list := by
  induction list with
  | nil => exact .nil
  | cons first _ ih => exact .cons (halike first) ih

theorem of_spare (hspare : ∀ element ∈ list', spare element) : Padded alike spare [] list' := by
  induction list' with
  | nil => exact .nil
  | cons _ _ ih =>
    obtain ⟨hfirst, hrest⟩ := List.forall_mem_cons.mp hspare
    exact .spare hfirst (ih hrest)

theorem eq_nil (hlist : Padded alike spare list []) : list = [] := by
  cases hlist
  rfl

/-- What is to spare apart, nothing is missing. -/
theorem exists_or_spare (hlist : Padded alike spare list list') {element : β}
    (helement : element ∈ list') : (∃ other ∈ list, alike other element) ∨ spare element := by
  induction hlist with
  | nil => cases helement
  | cons hfirst _ ih =>
    rcases List.mem_cons.mp helement with rfl | hrest
    · exact .inl ⟨_, List.mem_cons_self, hfirst⟩
    · exact (ih hrest).imp_left fun ⟨other, hother, halike⟩ =>
        ⟨other, List.mem_cons_of_mem _ hother, halike⟩
  | spare hfirst _ ih =>
    rcases List.mem_cons.mp helement with rfl | hrest
    · exact .inr hfirst
    · exact ih hrest

theorem eq_of_not_spare {spare : α → Prop} {list list' : List α}
    (hlist : Padded Eq spare list list') (hnone : ∀ element, ¬ spare element) : list = list' := by
  induction hlist with
  | nil => rfl
  | cons hfirst _ ih => rw [hfirst, ih]
  | spare hfirst _ _ => exact absurd hfirst (hnone _)

theorem append {more : List α} {more' : List β} (hlist : Padded alike spare list list')
    (hmore : Padded alike spare more more') :
    Padded alike spare (list ++ more) (list' ++ more') := by
  induction hlist with
  | nil => exact hmore
  | cons hfirst _ ih => exact .cons hfirst ih
  | spare hfirst _ ih => exact .spare hfirst ih

theorem map {alike' : γ → δ → Prop} {spare' : δ → Prop} {f : α → γ} {g : β → δ}
    (hlist : Padded alike spare list list')
    (halike : ∀ first first', alike first first' → alike' (f first) (g first'))
    (hspare : ∀ first', spare first' → spare' (g first')) :
    Padded alike' spare' (list.map f) (list'.map g) := by
  induction hlist with
  | nil => exact .nil
  | cons hfirst _ ih => exact .cons (halike _ _ hfirst) ih
  | spare hfirst _ ih => exact .spare (hspare _ hfirst) ih

end Padded

namespace Context

variable {left right left' right' : Context} {id id' : ScopeId}

/-- Whether two handles, each of its own context, stand for the scope of one owner. -/
def SameScope (left right : Context) (id id' : ScopeId) : Prop :=
  ∃ owner, left.OwnedBy id owner ∧ right.OwnedBy id' owner

/-- Whether two clauses, each of its own context, say the same. -/
structure SameClause (left right : Context) (clause clause' : Clause) : Prop where
  target : left.SameScope right clause.target clause'.target
  kind : clause.kind = clause'.kind
  isPrivate : clause.isPrivate = clause'.isPrivate
  names : clause.names = clause'.names

theorem SameScope.mono (hsame : left.SameScope right id id') (hleft : left.Grows left')
    (hright : right.Grows right') : left'.SameScope right' id id' := by
  obtain ⟨owner, howned, howned'⟩ := hsame
  exact ⟨owner, hleft.ownedBy howned, hright.ownedBy howned'⟩

theorem SameScope.symm (hsame : left.SameScope right id id') : right.SameScope left id' id := by
  obtain ⟨owner, howned, howned'⟩ := hsame
  exact ⟨owner, howned', howned⟩

theorem SameScope.trans {middle : Context} {other : ScopeId}
    (hfirst : left.SameScope middle id other) (hsecond : middle.SameScope right other id') :
    left.SameScope right id id' := by
  obtain ⟨owner, howned, hother⟩ := hfirst
  obtain ⟨owner', hother', howned'⟩ := hsecond
  obtain rfl : owner = owner' := hother.2.symm.trans hother'.2
  exact ⟨owner, howned, howned'⟩

theorem SameScope.refl (hid : left.Has id) : left.SameScope left id id :=
  ⟨_, ⟨hid, rfl⟩, ⟨hid, rfl⟩⟩

theorem SameScope.has (hsame : left.SameScope right id id') : left.Has id ∧ right.Has id' := by
  obtain ⟨owner, howned, howned'⟩ := hsame
  exact ⟨howned.1, howned'.1⟩

theorem SameClause.mono {clause clause' : Clause} (hsame : left.SameClause right clause clause')
    (hleft : left.Grows left') (hright : right.Grows right') :
    left'.SameClause right' clause clause' :=
  ⟨hsame.target.mono hleft hright, hsame.kind, hsame.isPrivate, hsame.names⟩

theorem SameClause.symm {clause clause' : Clause} (hsame : left.SameClause right clause clause') :
    right.SameClause left clause' clause :=
  ⟨hsame.target.symm, hsame.kind.symm, hsame.isPrivate.symm, hsame.names.symm⟩

theorem SameClause.trans {middle : Context} {clause other clause' : Clause}
    (hfirst : left.SameClause middle clause other)
    (hsecond : middle.SameClause right other clause') : left.SameClause right clause clause' :=
  ⟨hfirst.target.trans hsecond.target, hfirst.kind.trans hsecond.kind,
    hfirst.isPrivate.trans hsecond.isPrivate, hfirst.names.trans hsecond.names⟩

theorem SameClause.route_eq {clause clause' : Clause} (hsame : left.SameClause right clause clause')
    (name : Name) : clause.route name = clause'.route name := by
  rw [Clause.route, Clause.route, Clause.actual?, Clause.actual?, hsame.kind, hsame.names]

/-- Whether two lists of clauses, each of its own context, say the same. -/
def SameClauses (left right : Context) : List Clause → List Clause → Prop :=
  List.Forall₂ (left.SameClause right)

theorem SameClauses.mono {clauses clauses' : List Clause}
    (hsame : left.SameClauses right clauses clauses') (hleft : left.Grows left')
    (hright : right.Grows right') : left'.SameClauses right' clauses clauses' :=
  List.Forall₂.imp (fun _ _ hclause => hclause.mono hleft hright) hsame

theorem SameClauses.congr {clauses clauses' : List Clause}
    (hsame : left.SameClauses right clauses clauses') (hscopes : right'.scopes = right.scopes) :
    left.SameClauses right' clauses clauses' := by
  refine List.Forall₂.imp (fun clause clause' hclause => ?_) hsame
  obtain ⟨owner, howned, howned'⟩ := hclause.target
  exact ⟨⟨owner, howned, howned'.congr hscopes⟩, hclause.kind, hclause.isPrivate, hclause.names⟩

theorem SameClauses.symm {clauses clauses' : List Clause}
    (hsame : left.SameClauses right clauses clauses') : right.SameClauses left clauses' clauses :=
  (List.Forall₂.imp (fun _ _ hclause => hclause.symm) hsame).flip

theorem SameClauses.trans {middle : Context} {clauses others clauses' : List Clause}
    (hfirst : left.SameClauses middle clauses others)
    (hsecond : middle.SameClauses right others clauses') :
    left.SameClauses right clauses clauses' := by
  induction hfirst generalizing clauses' with
  | nil =>
    cases hsecond
    exact .nil
  | cons hclause _ ih =>
    cases hsecond with
    | cons hother hmore => exact .cons (hclause.trans hother) (ih hmore)

end Context

namespace Context

/-- Whether two searches, each of its own context, have entered the same scopes, those
to spare apart. -/
structure Tracks (program : Program) (left right : Context) (entered entered' : List ScopeId) :
    Prop where
  kept : ∀ id ∈ entered, ∃ id' ∈ entered', left.SameScope right id id'
  led : ∀ id' ∈ entered', right.Spare program id' ∨ ∃ id ∈ entered, left.SameScope right id id'

namespace Tracks

variable {program : Program} {left right left' right' : Context} {id id' : ScopeId}
variable {entered entered' : List ScopeId}

theorem nil : left.Tracks program right [] [] := ⟨nofun, nofun⟩

theorem mono (htracks : left.Tracks program right entered entered') (hleft : left.Grows left')
    (hright : right.Grows right') : left'.Tracks program right' entered entered' := by
  refine ⟨fun id hid => ?_, fun id' hid' => (htracks.led id' hid').imp (·.mono hright) ?_⟩
  · obtain ⟨id', hid', hsame⟩ := htracks.kept id hid
    exact ⟨id', hid', hsame.mono hleft hright⟩
  · exact fun ⟨id, hid, hsame⟩ => ⟨id, hid, hsame.mono hleft hright⟩

theorem cons (htracks : left.Tracks program right entered entered')
    (hsame : left.SameScope right id id') :
    left.Tracks program right (id :: entered) (id' :: entered') where
  kept := List.forall_mem_cons.mpr ⟨⟨id', List.mem_cons_self, hsame⟩, fun other hother =>
    (htracks.kept other hother).imp fun _ h => ⟨List.mem_cons_of_mem _ h.1, h.2⟩⟩
  led := List.forall_mem_cons.mpr ⟨.inr ⟨id, List.mem_cons_self, hsame⟩, fun other hother =>
    (htracks.led other hother).imp_right fun ⟨first, hfirst, hsame⟩ =>
      ⟨first, List.mem_cons_of_mem _ hfirst, hsame⟩⟩

theorem spare (htracks : left.Tracks program right entered entered')
    (hspare : right.Spare program id') :
    left.Tracks program right entered (id' :: entered') where
  kept other hother := (htracks.kept other hother).imp fun _ h => ⟨List.mem_cons_of_mem _ h.1, h.2⟩
  led := List.forall_mem_cons.mpr ⟨.inl hspare, htracks.led⟩

end Tracks

end Context

namespace Context.SameScope

variable {program : Program} {shares : Bool} {left right : Context} {id id' : ScopeId}
variable (hleft : left.Sound program) (hright : right.Sound (program.sharing shares))

section

include hleft hright

/-- Scopes of one owner hold the same, and lie inside what lies around that owner. -/
theorem shapes (hsame : left.SameScope right id id') :
    (left.scope id = .root program.builtins ∧ right.scope id' = .root program.builtins) ∨
      ∃ node owner owner' parent parent', program.Around node owner ∧
        (program.sharing shares).Around node owner' ∧ left.OwnedBy parent owner ∧
        right.OwnedBy parent' owner' ∧ parent'.index < id'.index ∧
        left.scope id = program.scopeFor node (left.outward parent) ∧
        right.scope id' = program.scopeFor node (right.outward parent') := by
  obtain ⟨owner, howned, howned'⟩ := hsame
  cases owner with
  | none =>
    exact .inl ⟨hleft.scope_of_ownedBy_none howned, hright.scope_of_ownedBy_none howned'⟩
  | some node =>
    obtain ⟨-, parent, outer, -, haround, hparent, hin⟩ := hleft.scope_of_ownedBy_some howned
    obtain ⟨-, parent', outer', hless, haround', hparent', hin'⟩ :=
      hright.scope_of_ownedBy_some howned'
    exact .inr ⟨node, outer, outer', parent, parent', haround, haround', hparent, hparent', hless,
      hin, hin'⟩

theorem scope_eq (hsame : left.SameScope right id id') :
    right.scope id' = { left.scope id with enclosing := (right.scope id').enclosing } := by
  rcases hsame.shapes hleft hright with ⟨hroot, hroot'⟩ | ⟨_, _, _, _, _, -, -, -, -, -, hin, hin'⟩
  · rw [hroot, hroot']
  · rw [hin, hin']
    rfl

theorem hasImports_eq (hsame : left.SameScope right id id') :
    (left.scope id).hasImports = (right.scope id').hasImports := by
  rw [hsame.scope_eq hleft hright]

theorem isModule_eq (hsame : left.SameScope right id id') :
    (left.scope id).isModule = (right.scope id').isModule := by
  rw [hsame.scope_eq hleft hright]
  rfl

/-- Two handles are equal on one side exactly when they are on the other. -/
theorem eq_iff {other other' : ScopeId} (hsame : left.SameScope right id id')
    (hother : left.SameScope right other other') : id = other ↔ id' = other' := by
  obtain ⟨owner, howned, howned'⟩ := hsame
  obtain ⟨owner₂, hother, hother'⟩ := hother
  constructor
  · rintro rfl
    obtain rfl : owner = owner₂ := howned.2.symm.trans hother.2
    exact hright.eq_of_ownedBy howned' hother'
  · rintro rfl
    obtain rfl : owner = owner₂ := howned'.2.symm.trans hother'.2
    exact hleft.eq_of_ownedBy howned hother

omit hright in
theorem not_spare (hsame : left.SameScope right id id') : ¬ right.Spare program id' := by
  rintro ⟨node, hspare, hcloses⟩
  obtain ⟨owner, howned, howned'⟩ := hsame
  obtain rfl : owner = some node := howned'.2.symm.trans hspare.2
  rw [hleft.opensScope_of_owner howned] at hcloses
  cases hcloses

theorem mem_iff (hsame : left.SameScope right id id') {entered entered' : List ScopeId}
    (hentered : left.Tracks program right entered entered') : id ∈ entered ↔ id' ∈ entered' := by
  constructor
  · intro hid
    obtain ⟨other', hother', hother⟩ := hentered.kept id hid
    exact (hsame.eq_iff hleft hright hother).mp rfl ▸ hother'
  · intro hid'
    rcases hentered.led id' hid' with hspare | ⟨other, hmem, hother⟩
    · exact absurd hspare (hsame.not_spare hleft)
    · exact (hsame.eq_iff hleft hright hother).mpr rfl ▸ hmem

/-- A lookup climbs to the same scopes, those to spare apart. -/
theorem upToModule {ids ids' : List ScopeId}
    (hids : Padded (left.SameScope right) (right.Spare program) ids ids') :
    Padded (left.SameScope right) (right.Spare program) (left.upToModule ids)
      (right.upToModule ids') := by
  induction hids with
  | nil => exact .nil
  | cons hid _ ih =>
    rw [Context.upToModule, Context.upToModule, hid.isModule_eq hleft hright]
    split
    · exact .cons hid .nil
    · exact .cons hid ih
  | spare hspare _ ih =>
    rw [Context.upToModule, if_neg (by simp [(hspare.bare hright).isModule])]
    exact .spare hspare ih

theorem firstModule? {ids ids' : List ScopeId}
    (hids : Padded (left.SameScope right) (right.Spare program) ids ids') :
    Option.Rel (left.SameScope right) (left.firstModule? ids) (right.firstModule? ids') := by
  induction hids with
  | nil => exact .none
  | cons hid _ ih =>
    rw [Context.firstModule?, Context.firstModule?, List.find?_cons, List.find?_cons,
      hid.isModule_eq hleft hright]
    split
    · exact .some hid
    · exact ih
  | @spare first' rest rest' hspare _ ih =>
    have hskips : right.firstModule? (first' :: rest') = right.firstModule? rest' := by
      rw [Context.firstModule?, List.find?_cons, (hspare.bare hright).isModule]
      rfl
    rwa [hskips]

end

variable (hmore : shares = true → program.sharesEmpty = true)
include hleft hright hmore

/-- The ways out from the scopes around a node are the same, spare scopes apart. -/
theorem outward_of_around {node : NodeId} {owner owner' : Option NodeId} {outer outer' : ScopeId}
    (haround : program.Around node owner) (haround' : (program.sharing shares).Around node owner')
    (howned : left.OwnedBy outer owner) (howned' : right.OwnedBy outer' owner') :
    Padded (left.SameScope right) (right.Spare program) (left.outward outer)
      (right.outward outer') := by
  obtain ⟨index⟩ := outer'
  -- handles get smaller outward, on the side that has more of them
  induction index using Nat.strong_induction_on generalizing node owner owner' outer with
  | _ index ih =>
    rcases haround.same_or_spare hmore haround' with rfl | ⟨spare, rfl, hcloses, hspare⟩
    · have hsame : left.SameScope right outer ⟨index⟩ := ⟨owner', howned, howned'⟩
      refine .cons hsame ?_
      rcases hsame.shapes hleft hright with ⟨hroot, hroot'⟩ |
        ⟨inner, _, _, parent, parent', hinner, hinner', hparent, hparent', hless, hin, hin'⟩
      · rw [hroot, hroot']
        exact .nil
      · rw [hin, hin']
        exact ih parent'.index hless hinner hinner' hparent hparent'
    · refine .spare ⟨spare, howned', hcloses⟩ ?_
      obtain ⟨-, parent, _, hless, hinner, hparent, hin⟩ := hright.scope_of_ownedBy_some howned'
      rw [hin]
      exact ih parent.index hless hspare hinner howned hparent

/-- Around scopes of one owner there are scopes of the same owners again, those to
spare apart. -/
theorem enclosing (hsame : left.SameScope right id id') :
    Padded (left.SameScope right) (right.Spare program) (left.scope id).enclosing
      (right.scope id').enclosing := by
  rcases hsame.shapes hleft hright with ⟨hroot, hroot'⟩ |
    ⟨inner, _, _, parent, parent', hinner, hinner', hparent, hparent', -, hin, hin'⟩
  · rw [hroot, hroot']
    exact .nil
  · rw [hin, hin']
    exact outward_of_around hleft hright hmore hinner hinner' hparent hparent'

/-- Around a spare scope there is what is around and in the scope that it may share. -/
theorem enclosing_of_spare {spare : NodeId} {owner : Option NodeId}
    (haround : program.Around spare owner) (howned : left.OwnedBy id owner)
    (howned' : right.OwnedBy id' (some spare)) :
    Padded (left.SameScope right) (right.Spare program) (left.outward id)
      (right.scope id').enclosing := by
  obtain ⟨-, _, _, -, hinner, hparent, hin⟩ := hright.scope_of_ownedBy_some howned'
  rw [hin]
  exact outward_of_around hleft hright hmore haround hinner howned hparent

theorem moduleOf? (hsame : left.SameScope right id id') :
    Option.Rel (left.SameScope right) (left.moduleOf? id) (right.moduleOf? id') :=
  firstModule? hleft hright (.cons hsame (hsame.enclosing hleft hright hmore))

theorem superOf? (hsame : left.SameScope right id id') :
    Option.Rel (left.SameScope right) (left.superOf? id) (right.superOf? id') :=
  firstModule? hleft hright (hsame.enclosing hleft hright hmore)

omit hmore in
theorem root (hsame : left.SameScope right id id') : left.SameScope right ⟨0⟩ ⟨0⟩ :=
  ⟨none, hleft.root_of_has hsame.has.1, hright.root_of_has hsame.has.2⟩

theorem climb (hsame : left.SameScope right id id') :
    Padded (left.SameScope right) (right.Spare program) (left.climb id) (right.climb id') := by
  refine (upToModule hleft hright (hsame.enclosing hleft hright hmore)).append ?_
  rcases hsame.shapes hleft hright with ⟨hroot, hroot'⟩ |
    ⟨_, _, _, parent, parent', -, -, hparent, hparent', -, hin, hin'⟩
  · rw [hroot, hroot']
    exact .nil
  · rw [hin, hin']
    change Padded _ _ (left.outward parent).getLast?.toList (right.outward parent').getLast?.toList
    rw [hleft.getLast?_outward hparent.1, hright.getLast?_outward hparent'.1]
    exact .cons (hsame.root hleft hright) .nil

end Context.SameScope

/-- A relation between contexts of two programs, one of which may open scopes for more
nodes, that is kept up by whatever builds scopes alone. -/
structure Program.Couples (program : Program) (shares : Bool) (keeps : Context → Context → Prop) :
    Prop where
  more : shares = true → program.sharesEmpty = true
  sound : ∀ left right, keeps left right → right.Sound (program.sharing shares)
  growing : ∀ left right later later', keeps left right → program.Building left later →
    (program.sharing shares).Building right later' → keeps later later'

/-- A property of the second of two contexts of one program. -/
theorem Program.Upholds.couples {program : Program} {keeps : Context → Prop}
    (hupholds : program.Upholds keeps) :
    program.Couples program.sharesEmpty fun _ right => keeps right where
  more hshares := hshares
  sound _ right hkeeps := hupholds.sound right hkeeps
  growing _ right _ later' hkeeps _ hbuilding :=
    hupholds.growing right later' hkeeps hbuilding.1.toGrows hbuilding.2 hbuilding.1.sameVisibility

/-- Whenever the first of two computations ends, the second one ends too, and the
results agree. They may begin in whatever contexts two given ones grow to. -/
def Program.Mirrors {α β : Type} (program : Program) (keeps : Context → Context → Prop)
    (left right : Context) (first : Resolve α) (second : Resolve β)
    (agree : α → Context → β → Context → Prop) : Prop :=
  ∀ left' right', left.Grows left' → left'.Sound program → right.Grows right' →
    keeps left' right' → ∀ value last, first left' = some (value, last) →
      Resolving (Context.Sound program) left' last ∧
        Ends (Resolving (keeps last)) second right' (agree value last)

namespace Program.Mirrors

variable {program : Program} {keeps : Context → Context → Prop} {left right : Context}
variable {α β γ δ : Type}

theorem mono {left' right' : Context} {first : Resolve α} {second : Resolve β}
    {agree : α → Context → β → Context → Prop}
    (hmirrors : program.Mirrors keeps left right first second agree) (hleft : left.Grows left')
    (hright : right.Grows right') : program.Mirrors keeps left' right' first second agree :=
  fun start start' hstart hsound hstart' =>
    hmirrors start start' (hleft.trans hstart) hsound (hright.trans hstart')

theorem imp {first : Resolve α} {second : Resolve β}
    {agree agree' : α → Context → β → Context → Prop}
    (hmirrors : program.Mirrors keeps left right first second agree)
    (himp : ∀ value last value' last', left.Grows last → right.Grows last' →
      agree value last value' last' → agree' value last value' last') :
    program.Mirrors keeps left right first second agree' := by
  intro start start' hstart hsound hstart' hkeeps value last hrun
  obtain ⟨hled, hends⟩ := hmirrors start start' hstart hsound hstart' hkeeps value last hrun
  refine ⟨hled, hends.mono fun value' last' hchanges hagree => ?_⟩
  exact himp _ _ _ _ (hstart.trans hled.1.toGrows) (hstart'.trans hchanges.1.toGrows) hagree

theorem pure {value : α} {value' : β} {agree : α → Context → β → Context → Prop}
    (hagree : ∀ left' right', left.Grows left' → right.Grows right' →
      agree value left' value' right') :
    program.Mirrors keeps left right (Pure.pure value) (Pure.pure value') agree := by
  intro start start' hstart hsound hstart' hkeeps result last hrun
  obtain ⟨rfl, rfl⟩ := Prod.mk.inj (Option.some.inj hrun)
  exact ⟨⟨.refl start, hsound⟩, .same hkeeps (hagree _ _ hstart hstart')⟩

theorem bind {first : Resolve α} {second : Resolve β} {next : α → Resolve γ} {next' : β → Resolve δ}
    {agree : α → Context → β → Context → Prop} {agree' : γ → Context → δ → Context → Prop}
    (hfirst : program.Mirrors keeps left right first second agree)
    (hnext : ∀ value middle value' middle', left.Grows middle → right.Grows middle' →
      agree value middle value' middle' →
      program.Mirrors keeps middle middle' (next value) (next' value') agree') :
    program.Mirrors keeps left right (first >>= next) (second >>= next') agree' := by
  intro start start' hstart hsound hstart' hkeeps result last hrun
  obtain ⟨value, middle, hrun, hrest⟩ := bind_eq_some_iff.mp hrun
  obtain ⟨hled, value', middle', hrun', hchanges, hagree⟩ :=
    hfirst start start' hstart hsound hstart' hkeeps value middle hrun
  obtain ⟨hmore, result', last', hrest', hchanges', hagree'⟩ :=
    hnext value middle value' middle' (hstart.trans hled.1.toGrows)
      (hstart'.trans hchanges.1.toGrows) hagree middle middle' (.refl _) hled.2 (.refl _)
      hchanges.2 result last hrest
  exact ⟨IsTrans.trans _ _ _ hled hmore, result', last',
    bind_eq_some_iff.mpr ⟨value', middle', hrun', hrest'⟩,
    ⟨hchanges.1.trans hchanges'.1, hchanges'.2⟩, hagree'⟩

theorem map_left {first : Resolve α} {second : Resolve β} {f : α → γ}
    {agree : γ → Context → β → Context → Prop}
    (hmirrors : program.Mirrors keeps left right first second
      fun value last value' last' => agree (f value) last value' last') :
    program.Mirrors keeps left right (f <$> first) second agree := by
  intro start start' hstart hsound hstart' hkeeps result last hmapped
  obtain ⟨value, hrun, rfl⟩ := map_eq_some_iff.mp hmapped
  exact hmirrors start start' hstart hsound hstart' hkeeps value _ hrun

theorem map {first : Resolve α} {second : Resolve β} {f : α → γ} {g : β → δ}
    {agree : γ → Context → δ → Context → Prop}
    (hmirrors : program.Mirrors keeps left right first second
      fun value last value' last' => agree (f value) last (g value') last') :
    program.Mirrors keeps left right (f <$> first) (g <$> second) agree := by
  refine map_left fun start start' hstart hsound hstart' hkeeps value last hrun => ?_
  obtain ⟨hled, hends⟩ := hmirrors start start' hstart hsound hstart' hkeeps value last hrun
  exact ⟨hled, .map (fun _ hchanges => ⟨.refl _, hchanges.2⟩) hends⟩

/-- What is true of every context may be used where the computations begin. -/
theorem of_start {first : Resolve α} {second : Resolve β} {agree : α → Context → β → Context → Prop}
    (hstart : ∀ left' right', left.Grows left' → left'.Sound program → right.Grows right' →
      keeps left' right' → program.Mirrors keeps left' right' first second agree) :
    program.Mirrors keeps left right first second agree :=
  fun start start' hgrows hsound hgrows' hkeeps =>
    hstart start start' hgrows hsound hgrows' hkeeps start start' (.refl _) hsound (.refl _) hkeeps

theorem get_bind {next : Context → Resolve α} {next' : Context → Resolve β}
    {agree : α → Context → β → Context → Prop}
    (hnext : ∀ left' right', left.Grows left' → left'.Sound program → right.Grows right' →
      keeps left' right' → program.Mirrors keeps left' right' (next left') (next' right') agree) :
    program.Mirrors keeps left right (get >>= next) (get >>= next') agree :=
  fun start start' hstart hsound hstart' hkeeps =>
    hnext start start' hstart hsound hstart' hkeeps start start' (.refl _) hsound (.refl _) hkeeps

/-- Computations that build scopes and end anyway need only be compared in what they
end with. -/
theorem of_ends {shares : Bool} (hcouples : program.Couples shares keeps) {first : Resolve α}
    {second : Resolve β} {post : α → Context → Prop} {post' : β → Context → Prop}
    {agree : α → Context → β → Context → Prop}
    (hfirst : ∀ left', left.Grows left' → left'.Sound program →
      Ends program.Building first left' post)
    (hsecond : ∀ right', right.Grows right' → right'.Sound (program.sharing shares) →
      Ends (program.sharing shares).Building second right' post')
    (hagree : ∀ value last value' last', last.Sound program →
      last'.Sound (program.sharing shares) → post value last → post' value' last' →
      agree value last value' last') :
    program.Mirrors keeps left right first second agree := by
  intro start start' hstart hsound hstart' hkeeps value last hrun
  obtain ⟨hbuilding, hpost⟩ := (hfirst start hstart hsound).of_run hrun
  obtain ⟨value', last', hrun', hbuilding', hpost'⟩ :=
    hsecond start' hstart' (hcouples.sound _ _ hkeeps)
  exact ⟨⟨hbuilding.1.toResolves, hbuilding.2⟩, value', last', hrun',
    ⟨hbuilding'.1.toResolves, hcouples.growing _ _ _ _ hkeeps hbuilding hbuilding'⟩,
    hagree _ _ _ _ hbuilding.2 hbuilding'.2 hpost hpost'⟩

end Program.Mirrors

namespace Program

variable {program : Program} {shares : Bool} {keeps : Context → Context → Prop}
variable {left right : Context} (hcouples : program.Couples shares keeps)
include hcouples

theorem report_mirrors (diagnostic : Diagnostic) :
    program.Mirrors keeps left right (Resolve.report diagnostic) (Resolve.report diagnostic)
      fun _ _ _ _ => True :=
  .of_ends hcouples (fun _ _ hsound => report_ends hsound diagnostic)
    (fun _ _ hsound => report_ends hsound diagnostic) fun _ _ _ _ _ _ _ _ => trivial

theorem scope_mirrors {id id' : ScopeId} (hsame : left.SameScope right id id') :
    program.Mirrors keeps left right (Resolve.scope id) (Resolve.scope id')
      fun scope _ scope' _ => ∃ enclosing, scope' = { scope with enclosing } := by
  refine .get_bind fun left' right' hleft hsound hright hkeeps => .pure fun _ _ _ _ => ?_
  exact ⟨_, (hsame.mono hleft hright).scope_eq hsound (hcouples.sound _ _ hkeeps)⟩

/-- A node that lies in the scope of one owner on both sides. -/
theorem sameScopeOf_mirrors (hforest : program.tree.IsForest) {node : NodeId}
    (hnode : program.SameOwner (program.sharing shares) node) :
    program.Mirrors keeps left right (program.scopeOf node) ((program.sharing shares).scopeOf node)
      fun id left' id' right' => left'.SameScope right' id id' := by
  obtain ⟨owner, howner, howner'⟩ := hnode
  have hforest' : (program.sharing shares).tree.IsForest := hforest
  refine .of_ends hcouples (fun _ _ hsound => scopeOf_ends hforest hsound node)
    (fun _ _ hsound => scopeOf_ends hforest' hsound node) ?_
  rintro id left' id' right' - - ⟨first, hfirst, howned⟩ ⟨second, hsecond, howned'⟩
  exact ⟨owner, hfirst.unique howner ▸ howned, hsecond.unique howner' ▸ howned'⟩

theorem autoScope_mirrors (hforest : program.tree.IsForest) :
    program.Mirrors keeps left right program.autoScope (program.sharing shares).autoScope
      fun found left' found' right' => Option.Rel (left'.SameScope right') found found' := by
  have hforest' : (program.sharing shares).tree.IsForest := hforest
  refine .of_ends hcouples (fun _ _ hsound => autoScope_ends hforest hsound)
    (fun _ _ hsound => autoScope_ends hforest' hsound) ?_
  intro found left' found' right' hleft hright hfound hfound'
  have hauto := hleft.autoScope found hfound
  have hauto' := hright.autoScope found' hfound'
  cases found with
  | none =>
    cases found' with
    | none => exact .none
    | some id' =>
      obtain ⟨node, -, htop, -⟩ := hauto'
      cases htop.symm.trans (show program.tree.toplevel? program.autoModule = none from hauto)
  | some id =>
    obtain ⟨node, owner, htop, howner, howned⟩ := hauto
    cases found' with
    | none =>
      cases htop.symm.trans (show program.tree.toplevel? program.autoModule = none from hauto')
    | some id' =>
      obtain ⟨node', owner', htop', howner', howned'⟩ := hauto'
      obtain rfl : node = node' := Option.some.inj (htop.symm.trans htop')
      have hopens : program.opensScope node = true :=
        opensScope_of_isModule (hforest.toplevels _ _ htop)
      obtain rfl := howner.unique (owner_self hopens)
      obtain rfl := howner'.unique (owner_self (opensScope_sharing hcouples.more hopens))
      exact .some ⟨some node, howned, howned'⟩

end Program

/-- Every node of a tree that can be climbed has an owner. -/
theorem Program.exists_owner {program : Program} (hforest : program.tree.IsForest) (node : NodeId) :
    ∃ owner, program.Owner node owner := by
  obtain ⟨_, _, -, -, owner, howner, -⟩ := scopeOf_ends hforest (sound_empty program) node
  exact ⟨owner, howner⟩

/-- In two contexts of one program every node lies in the scope of one owner. -/
theorem Program.scopeOf_mirrors {program : Program} {keeps : Context → Prop} {left right : Context}
    (hupholds : program.Upholds keeps) (hforest : program.tree.IsForest) (node : NodeId) :
    program.Mirrors (fun _ => keeps) left right (program.scopeOf node) (program.scopeOf node)
      fun id left' id' right' => left'.SameScope right' id id' := by
  obtain ⟨owner, howner⟩ := exists_owner hforest node
  exact sameScopeOf_mirrors hupholds.couples hforest ⟨owner, howner, howner⟩

end Scoping
