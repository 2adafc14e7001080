import Scoping.Proofs.Context.Mirrors
import Scoping.Proofs.Reordering.Tree

/-!
Contexts of two programs whose trees differ in the order of some children only. Scopes
of one owner are modules in both or in neither, declare the same, and lie inside scopes
of the same owners, so a lookup climbs to the same scopes.
-/

namespace Scoping

open Context

theorem Program.Around.unique {program : Program} {id : NodeId} {first second : Option NodeId}
    (hfirst : program.Around id first) (hsecond : program.Around id second) : first = second := by
  unfold Around at hfirst hsecond
  cases hparent : program.tree.parent? id with
  | none =>
    rw [hparent] at hfirst hsecond
    exact hfirst.trans hsecond.symm
  | some parent =>
    rw [hparent] at hfirst hsecond
    exact hfirst.unique hsecond

namespace Tree.Reorders

variable {program : Program} {tree : Tree} {holder : NodeId} {left right : Context}
variable {id id' : ScopeId}
variable (hreorders : program.tree.Reorders tree holder) (hleft : left.Sound program)
variable (hright : right.Sound (program.over tree))
include hreorders hleft hright

/-- Scopes of one owner are made from that owner, inside scopes of one owner again. -/
theorem shapes (hsame : left.SameScope right id id') :
    (left.scope id = .root program.builtins ∧ right.scope id' = .root program.builtins) ∨
      ∃ node parent parent', left.SameScope right parent parent' ∧ parent'.index < id'.index ∧
        left.scope id = program.scopeFor node (left.outward parent) ∧
        right.scope id' = (program.over tree).scopeFor node (right.outward parent') := by
  obtain ⟨owner, howned, howned'⟩ := hsame
  cases owner with
  | none =>
    exact .inl ⟨hleft.scope_of_ownedBy_none howned, hright.scope_of_ownedBy_none howned'⟩
  | some node =>
    obtain ⟨-, parent, outer, -, haround, hparent, hin⟩ := hleft.scope_of_ownedBy_some howned
    obtain ⟨-, parent', _, hless, haround', hparent', hin'⟩ := hright.scope_of_ownedBy_some howned'
    obtain rfl := (hreorders.around haround).unique haround'
    exact .inr ⟨node, parent, parent', ⟨outer, hparent, hparent'⟩, hless, hin, hin'⟩

theorem isModule_eq (hsame : left.SameScope right id id') :
    (left.scope id).isModule = (right.scope id').isModule := by
  rcases hreorders.shapes hleft hright hsame with ⟨hroot, hroot'⟩ | ⟨node, _, _, -, -, hin, hin'⟩
  · rw [hroot, hroot']
  · rw [hin, hin']
    exact congrArg (· == some Tag.moduleDecl) (hreorders.tag? node)

theorem autoUses_eq (hsame : left.SameScope right id id') :
    (left.scope id).autoUses = (right.scope id').autoUses := by
  rcases hreorders.shapes hleft hright hsame with ⟨hroot, hroot'⟩ | ⟨node, _, _, -, -, hin, hin'⟩
  · rw [hroot, hroot']
  · rw [hin, hin']
    exact congrArg₂ (fun tag internal => tag == some Tag.moduleDecl && !internal)
      (hreorders.tag? node) (hreorders.isInInternalModule node)

theorem declared_same (hsame : left.SameScope right id id') :
    DeclTable.SameDecls (left.scope id).declared (right.scope id').declared := by
  rcases hreorders.shapes hleft hright hsame with ⟨hroot, hroot'⟩ | ⟨node, _, _, -, -, hin, hin'⟩
  · rw [hroot, hroot']
    exact fun _ => .refl _
  · rw [hin, hin']
    exact (hreorders.gather_same node (some program.tupleRecord)).1

theorem outward_same (hsame : left.SameScope right id id') :
    List.Forall₂ (left.SameScope right) (left.outward id) (right.outward id') := by
  obtain ⟨index⟩ := id'
  -- handles get smaller outward
  induction index using Nat.strong_induction_on generalizing id with
  | _ index ih =>
    refine .cons hsame ?_
    rcases hreorders.shapes hleft hright hsame with
      ⟨hroot, hroot'⟩ | ⟨_, parent, parent', hparent, hless, hin, hin'⟩
    · rw [hroot, hroot']
      exact .nil
    · rw [hin, hin']
      exact ih parent'.index hless hparent

theorem enclosing_same (hsame : left.SameScope right id id') :
    List.Forall₂ (left.SameScope right) (left.scope id).enclosing (right.scope id').enclosing := by
  cases hreorders.outward_same hleft hright hsame with
  | cons _ hrest => exact hrest

theorem upToModule_same {ids ids' : List ScopeId}
    (hids : List.Forall₂ (left.SameScope right) ids ids') :
    List.Forall₂ (left.SameScope right) (left.upToModule ids) (right.upToModule ids') := by
  induction hids with
  | nil => exact .nil
  | cons hid _ ih =>
    rw [upToModule, upToModule, hreorders.isModule_eq hleft hright hid]
    split
    · exact .cons hid .nil
    · exact .cons hid ih

/-- A lookup climbs to scopes of the same owners. -/
theorem climb_same (hsame : left.SameScope right id id') :
    List.Forall₂ (left.SameScope right) (left.climb id) (right.climb id') := by
  have henclosing := hreorders.enclosing_same hleft hright hsame
  refine List.rel_append (hreorders.upToModule_same hleft hright henclosing) ?_
  cases hlast : (left.scope id).enclosing.getLast? with
  | none =>
    rw [List.getLast?_eq_none_iff] at hlast
    rw [hlast] at henclosing
    rw [List.forall₂_nil_left_iff.mp henclosing]
    exact .nil
  | some outer =>
    cases hlast' : (right.scope id').enclosing.getLast? with
    | none =>
      rw [List.getLast?_eq_none_iff] at hlast'
      rw [hlast', List.forall₂_nil_right_iff] at henclosing
      rw [henclosing] at hlast
      cases hlast
    | some outer' =>
      refine .cons ⟨none, ?_, ?_⟩ .nil
      · exact hleft.ownedBy_of_getLast? hsame.has.1 hlast
      · exact hright.ownedBy_of_getLast? hsame.has.2 hlast'

omit hleft hright in
/-- The automatic module has the same owner in both. -/
theorem isAuto_same (hauto : left.IsAuto program (some id))
    (hauto' : right.IsAuto (program.over tree) (some id')) : left.SameScope right id id' := by
  obtain ⟨node, owner, htop, howner, howned⟩ := hauto
  obtain ⟨node', owner', htop', howner', howned'⟩ := hauto'
  have hroots : program.tree.toplevel? program.autoModule = tree.toplevel? program.autoModule := by
    rw [toplevel?, toplevel?, hreorders.roots]
  obtain rfl : node = node' := Option.some.inj (htop.symm.trans (hroots.trans htop'))
  obtain rfl := (hreorders.owner howner).unique howner'
  exact ⟨owner, howned, howned'⟩

end Tree.Reorders

/-- A scope stands for one scope of the other context at most. -/
theorem Context.SameScope.eq_of_left {program : Program} {left right : Context}
    (hright : right.Sound program) {id id' other' : ScopeId}
    (hsame : left.SameScope right id id') (hother : left.SameScope right id other') :
    id' = other' := by
  obtain ⟨owner, howned, howned'⟩ := hsame
  obtain ⟨owner', hother, hother'⟩ := hother
  obtain rfl : owner = owner' := howned.2.symm.trans hother.2
  exact hright.eq_of_ownedBy howned' hother'

end Scoping
