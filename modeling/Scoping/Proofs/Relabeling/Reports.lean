import Scoping.Proofs.Relabeling.Basic
import Scoping.Query

/-!
Reports under a relabeling. When the interners on both sides spell the names alike, a
report reads as before, but for the access keywords that the relabeling conceals.
-/

namespace Scoping

/-- A node as it would be shown if no access keyword were written. -/
def NodeReport.withoutAccess (report : NodeReport) : NodeReport :=
  if report.tag = .useStmt ∨ report.tag = .importStmt then
    { report with particulars := [.text Access.unstated.word] }
  else report

def IdReport.withoutAccess (report : IdReport) : IdReport :=
  { report with node := report.node.map NodeReport.withoutAccess }

/-- A clause as it would be shown if no access keyword were written. -/
def ClauseReport.withoutAccess (report : ClauseReport) : ClauseReport :=
  { report with isPrivate := true }

/-- An answer as it would be if no access keyword were written. -/
def Answer.withoutAccess : Answer → Answer
  | .nodes reports => .nodes (reports.map NodeReport.withoutAccess)
  | .node report => .node report.withoutAccess
  | .visibility id clauses => .visibility id (clauses.map (List.map ClauseReport.withoutAccess))
  | answer => answer

namespace Relabeling

variable (ρ : Relabeling)

/-- What a relabeling leaves of a report, given what it is without access keywords. -/
def shown {α : Type} (withoutAccess : α → α) (report : α) : α :=
  if ρ.conceals then withoutAccess report else report

/-- A part of a report is shown as it is in the whole. -/
theorem map_shown {α β : Type} {withoutAccess : α → α} {withoutAccess' : β → β} (build : α → β)
    (hbuild : ∀ report, withoutAccess' (build report) = build (withoutAccess report))
    (report : α) :
    build (ρ.shown withoutAccess report) = ρ.shown withoutAccess' (build report) := by
  unfold shown
  split
  · exact (hbuild report).symm
  · rfl

theorem list_map_shown {α β : Type} {report report' : α → β} {withoutAccess : β → β}
    {relabel : α → α}
    (hreport : ∀ value, report' (relabel value) = ρ.shown withoutAccess (report value))
    (values : List α) :
    (values.map relabel).map report' = ρ.shown (List.map withoutAccess) (values.map report) := by
  have heach : (values.map relabel).map report' =
      (values.map report).map (ρ.shown withoutAccess) := by
    rw [List.map_map, List.map_map]
    exact List.map_congr_left fun value _ => hreport value
  rw [heach]
  unfold shown
  cases hconceals : ρ.conceals with
  | true => rfl
  | false => exact List.map_id' _

/-- Whether names and what becomes of them read the same in two interners. -/
def Spells (names names' : Interner) : Prop :=
  ∀ name, names'.display (ρ.name name) = names.display name

namespace Spells

variable {ρ} {names names' : Interner} (hspells : ρ.Spells names names')
include hspells

theorem reportDecl (decl : Decl) : names'.reportDecl (ρ.decl decl) = names.reportDecl decl := by
  cases decl with
  | node id => rfl
  | builtin name => exact congrArg DeclReport.builtin (hspells name)

theorem reportSet (set : Overloads) : names'.reportSet (ρ.overloads set) = names.reportSet set := by
  rw [Interner.reportSet, Interner.reportSet, ρ.toList_overloads, List.map_map]
  exact List.map_congr_left fun decl _ => hspells.reportDecl decl

theorem reportSets (sets : List Overloads) :
    (ρ.sets sets).map names'.reportSet = sets.map names.reportSet := by
  rw [List.map_map]
  exact List.map_congr_left fun set _ => hspells.reportSet set

theorem reportTable (table : DeclTable) :
    names'.reportTable (ρ.table table) = names.reportTable table := by
  unfold Interner.reportTable Relabeling.table Assoc.bimap
  rw [List.map_map]
  refine List.map_congr_left fun entry _ => ?_
  exact Prod.ext (hspells entry.1) (hspells.reportSet entry.2)

theorem reportGathered (gathered : Gathered) :
    names'.reportGathered (ρ.gathered gathered) = names.reportGathered gathered := by
  unfold Interner.reportGathered
  rw [ρ.isTrivial_gathered]
  exact congrArg (GatheredReport.mk · _ _ _) (hspells.reportTable gathered.declared)

theorem reportScope (id : ScopeId) (scope : Scope) :
    names'.reportScope id (ρ.scope scope) = names.reportScope id scope :=
  congrArg (ScopeReport.mk id scope.owner scope.tag scope.parent? scope.isRoot scope.isModule
    scope.autoUses scope.hasImports scope.hasFunctions) (hspells.reportTable scope.declared)

theorem reportMembership (id : NodeId) (set : Overloads) :
    names'.reportMembership (.node id) (ρ.overloads set) =
      names.reportMembership (.node id) set := by
  have hlisted : (ρ.overloads set).toList.contains (.node id) = set.toList.contains (.node id) := by
    rw [ρ.toList_overloads, Bool.eq_iff_iff]
    simp only [List.contains_iff_mem, List.mem_map]
    constructor
    · rintro ⟨decl, hmem, hdecl⟩
      cases decl with
      | node other => exact hdecl ▸ hmem
      | builtin => cases hdecl
    · exact fun hmem => ⟨_, hmem, rfl⟩
  unfold Interner.reportMembership
  rw [ρ.size_overloads, Overloads.contains, Overloads.contains, hlisted]
  exact congrArg (MembershipReport.mk set.size _ · _ _) (hspells.reportDecl set.first)

/-- The nearest declaration reads as before; only the label of a built-in type, which shows
the name itself, may be another. -/
theorem reportInnermost (result : InnermostMatch) :
    names'.reportInnermost (ρ.innermost result) =
      { names.reportInnermost result with
        label := (ρ.innermost result).decl?.map Decl.label } := by
  obtain ⟨decl?, found⟩ := result
  cases decl? with
  | none => rfl
  | some decl =>
    simp [Interner.reportInnermost, innermost, hspells.reportDecl, InnermostMatch.isUnique,
      InnermostMatch.isAmbiguous]

theorem reportNode (node : Node) : names'.reportNode (ρ.node node) =
    ρ.shown NodeReport.withoutAccess (names.reportNode node) := by
  have hkept : ∀ particulars, names'.particulars (ρ.kind node.kind) = particulars →
      names'.reportNode (ρ.node node) = { names.reportNode node with particulars } := by
    rintro _ rfl
    simp [Interner.reportNode, Relabeling.node, Node.tag]
  have hplain : (names.reportNode node).tag ≠ .useStmt → (names.reportNode node).tag ≠ .importStmt →
      ρ.shown NodeReport.withoutAccess (names.reportNode node) = names.reportNode node := by
    intro huse himport
    unfold shown NodeReport.withoutAccess
    rw [if_neg (not_or.mpr ⟨huse, himport⟩), ite_self]
  obtain ⟨id, parent, kind, children⟩ := node
  cases kind with
  | useStmt access | importStmt access =>
    rw [hkept _ rfl]
    unfold shown NodeReport.withoutAccess
    cases hconceals : ρ.conceals <;> simp [Interner.reportNode, Interner.particulars, Node.tag,
      NodeKind.tag, Relabeling.kind, Relabeling.access, hconceals]
  | _ =>
    rw [hplain nofun nofun]
    exact hkept _ (by simp [Interner.particulars, Relabeling.kind, hspells _])

theorem reportClause (clause : Clause) : names'.reportClause (ρ.clause clause) =
    ρ.shown ClauseReport.withoutAccess (names.reportClause clause) := by
  unfold shown ClauseReport.withoutAccess Interner.reportClause Relabeling.clause isPrivate
  cases ρ.conceals <;> simp [hspells _]

end Spells

end Relabeling

end Scoping
