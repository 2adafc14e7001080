import Scoping.Proofs.Between
import Scoping.Proofs.Listing
import Scoping.Proofs.Visibility.Accounting
import Scoping.Proofs.Visibility.Parts

/-!
Which statements the clauses of a scope come from. The statements of a node are sought
twice: when its declarations are gathered, to tell whether there are any, and when the
clauses are worked out. Every statement among the children of the node takes part in both.
One inside a tuple or multiple declaration is counted and never worked out.
-/

namespace Scoping

namespace Tree

variable {tree : Tree} {statement : NodeId}

/-- The clauses of a statement are written at its children that are clauses. -/
theorem map_site_clausesOfStatement
    (htag : tree.tag? statement = some .useStmt ∨ tree.tag? statement = some .importStmt) :
    (tree.clausesOfStatement statement).map WrittenClause.site =
      (tree.children statement).filter fun site => tree.tag? site = some .clause := by
  have hsites : ∀ (stmt : Statement) (access : Access) (ids : List NodeId),
      (ids.filterMap (tree.writtenClause? stmt access)).map WrittenClause.site =
        ids.filter fun site => tree.tag? site = some .clause := by
    intro stmt access ids
    induction ids with
    | nil => rfl
    | cons id rest ih =>
      rw [List.filterMap_cons, List.filter_cons, ← ih, writtenClause?, tag?_eq]
      cases tree.kind? id with
      | none => rfl
      | some kind => cases kind <;> rfl
  rw [tag?_eq] at htag
  unfold clausesOfStatement
  cases hkind : tree.kind? statement with
  | none => simp [hkind] at htag
  | some kind =>
    cases kind with
    | useStmt => exact hsites .use _ _
    | importStmt => exact hsites .imports _ _
    | _ => simp [hkind, NodeKind.tag] at htag

/-- A statement is counted among the children of the node that holds it. -/
theorem hasImports_of_statement (hformed : tree.WellFormed) {owner : NodeId}
    (hstatement : statement ∈ tree.children owner)
    (htag : tree.tag? statement = some .useStmt ∨ tree.tag? statement = some .importStmt)
    (excluded : Option Name) : (tree.gather owner excluded).hasImports = true := by
  obtain ⟨flat, listed, hflat, -, -, hgather⟩ := hformed.exists_listing owner excluded
  rw [hgather, List.any_eq_true]
  refine ⟨statement, hflat.mem_of_isSpread_eq_false hstatement ?_, by simpa [isImport] using htag⟩
  rw [isSpread]
  rw [tag?_eq] at htag
  split
  · next hkind => simp [hkind, NodeKind.tag] at htag
  · next hkind => simp [hkind, NodeKind.tag] at htag
  · rfl

/-- The clauses of one statement stand together among those of the node that holds it. -/
theorem exists_writtenClauses_eq {owner : NodeId} (hstatement : statement ∈ tree.children owner) :
    ∃ before after, tree.writtenClauses owner =
      before ++ (tree.clausesOfStatement statement ++ after) := by
  obtain ⟨before, after, hsplit⟩ := List.append_of_mem hstatement
  exact ⟨before.flatMap tree.clausesOfStatement, after.flatMap tree.clausesOfStatement, by
    rw [writtenClauses, hsplit, List.flatMap_append, List.flatMap_cons]⟩

end Tree

/-- What is related to two lists in a row is two lists in a row. -/
theorem exists_of_forall₂_append {α β : Type} {related : α → β → Prop} {items more : List α}
    {others : List β} (hrelated : List.Forall₂ related (items ++ more) others) :
    ∃ left right, List.Forall₂ related items left ∧ List.Forall₂ related more right ∧
      others = left ++ right := by
  induction items generalizing others with
  | nil => exact ⟨[], others, .nil, hrelated, rfl⟩
  | cons item rest ih =>
    obtain ⟨other, tail, hother, htail, rfl⟩ := List.forall₂_cons_left_iff.mp hrelated
    obtain ⟨left, right, hleft, hright, rfl⟩ := ih htail
    exact ⟨other :: left, right, .cons hother hleft, hright, rfl⟩

namespace Program

open Context

variable {program : Program} {context : Context}

/-- Whether each clause of a statement has a part of its own among some clauses: what it
stands for, or nothing and an error about it instead. -/
def Processed (program : Program) (context : Context) (statement : NodeId)
    (clauses : List Clause) : Prop :=
  ∃ before parts after, clauses = before ++ parts.flatten ++ after ∧
    List.Forall₂ (fun site part =>
      (∃ written ∈ program.tree.clausesOfStatement statement, written.site = site ∧
        program.Accounted context written part) ∧
      (part ≠ [] ∨ ∃ error ∈ context.errors, program.tree.Within site error.node))
      ((program.tree.children statement).filter fun site => program.tree.tag? site = some .clause)
      parts

/-- A clause that comes to nothing has an error to show for it. -/
theorem Accounted.ne_nil_or_error {written : WrittenClause} {owner : NodeId} {part : List Clause}
    (haccounted : program.Accounted context written part)
    (hmem : written ∈ program.tree.writtenClauses owner) :
    part ≠ [] ∨ ∃ error ∈ context.errors, program.tree.Within written.site error.node := by
  cases haccounted with
  | @refused before after error herrors hanchored =>
    exact .inr ⟨error, by simp [herrors], hanchored.within hmem⟩
  | brought hmade => exact .inl (ne_nil_of_made hmade)

/-- The clauses on record for a scope have a place for each statement of its owner. -/
theorem processed_of_get? (hledger : context.Ledger program) {id : ScopeId} {owner : NodeId}
    {clauses : List Clause} (hclauses : context.visibility.get? id = some clauses)
    (howned : context.OwnedBy id (some owner)) {statement : NodeId}
    (hstatement : statement ∈ program.tree.children owner)
    (htag : program.tree.tag? statement = some .useStmt ∨
      program.tree.tag? statement = some .importStmt) :
    program.Processed context statement clauses := by
  obtain ⟨owner', parts, howned', hparts, rfl⟩ := hledger.settled id clauses hclauses
  obtain rfl : owner' = owner := Option.some.inj (howned'.2.symm.trans howned.2)
  obtain ⟨before, after, hwritten⟩ := Tree.exists_writtenClauses_eq hstatement
  rw [hwritten] at hparts
  obtain ⟨left, rest, -, hrest, rfl⟩ := exists_of_forall₂_append hparts
  obtain ⟨middle, right, hmiddle, -, rfl⟩ := exists_of_forall₂_append hrest
  refine ⟨left.flatten, middle, right.flatten, by simp, ?_⟩
  rw [← Tree.map_site_clausesOfStatement htag, List.forall₂_map_left_iff]
  refine ((List.forall₂_and_left _ _).mpr ⟨fun _ hmem => hmem, hmiddle⟩).imp ?_
  rintro written part ⟨hmem, hsettles⟩
  have haccounted := accounted_of_settles hsettles
  have hwithin : written ∈ program.tree.writtenClauses owner' := by
    rw [hwritten]
    exact List.mem_append_right _ (List.mem_append_left _ hmem)
  exact ⟨⟨written, hmem, rfl, haccounted⟩, haccounted.ne_nil_or_error hwithin⟩

/-- Every statement among the children of the owner of a scope is counted and worked out:
asking for the clauses of the scope ends where chains of parents do, and whenever it ends,
each clause of the statement has come to something or has an error about it. -/
theorem statement_processed {tree : Tree} (hfinished : tree.Finished) (htree : program.tree = tree)
    (hreachable : program.Reachable context) {id : ScopeId} {owner : NodeId}
    (howned : context.OwnedBy id (some owner)) {statement : NodeId}
    (hstatement : statement ∈ tree.children owner)
    (htag : tree.tag? statement = some .useStmt ∨ tree.tag? statement = some .importStmt) :
    (program.gather owner).hasImports = true ∧
    (tree.Grounded → (program.visibility id context).isSome = true) ∧
    ∀ found later, program.visibility id context = some (found, later) →
      ∃ clauses, found = some clauses ∧ program.Processed later statement clauses := by
  subst htree
  have himports := Tree.hasImports_of_statement hfinished.wellFormed hstatement htag
    (some program.tupleRecord)
  refine ⟨himports, fun hgrounded => ?_, fun found later hrun => ?_⟩
  · obtain ⟨found, later, hrun, -⟩ := hreachable.visibility_settles hfinished
      (hfinished.isForest hgrounded) howned.1
    rw [hrun, Option.isSome_some]
  · obtain ⟨enclosing, hscope⟩ := hreachable.eq_scopeFor howned
    have hmarked : (context.scope id).hasImports = true := by
      rw [hscope]
      exact himports
    obtain ⟨clauses, rfl, hclauses⟩ := get?_of_visibility hreachable hmarked hrun
    have hlater : program.Reachable later := Reaches.asked hreachable
      (show (Request.visibility id).Valid program context from howned.1)
      (Resolve.map_eq_some_iff.mpr ⟨some clauses, hrun, rfl⟩)
    have hsparing := (admits_spares hfinished).visibility id _ _ _ hrun (hreachable.ledger hfinished)
    have hkept : later.OwnedBy id (some owner) := howned.of_prefix hsparing.scopes
    exact ⟨clauses, rfl,
      processed_of_get? (hlater.ledger hfinished) hclauses hkept hstatement htag⟩

/-- Of the two clauses of the first statement one is refused. -/
theorem unevenUse_statement_processed :
    (unevenUse.gather ⟨16⟩).hasImports = true ∧
    ∃ clauses later, unevenUse.visibility ⟨1⟩ unevenUseAsked = some (some clauses, later) ∧
      unevenUse.Processed later ⟨7⟩ clauses := by
  have hfinished : unevenUse.tree.Finished := Tree.finished_ofSteps (by decide +kernel)
  have hreachable : unevenUse.Reachable unevenUseAsked := Reaches.askAll .refl
    (show unevenUse.askAll [.scopeOf ⟨16⟩, .visibility ⟨1⟩] .empty = some unevenUseAsked by
      decide +kernel)
  obtain ⟨himports, hends, hprocessed⟩ := statement_processed hfinished rfl hreachable
    (show unevenUseAsked.OwnedBy ⟨1⟩ (some ⟨16⟩) by decide +kernel)
    (show ⟨7⟩ ∈ unevenUse.tree.children ⟨16⟩ by decide +kernel) (.inl (by decide +kernel))
  obtain ⟨⟨found, later⟩, hrun⟩ := Option.isSome_iff_exists.mp (hends (by decide +kernel))
  obtain ⟨clauses, rfl, hstatement⟩ := hprocessed found later hrun
  exact ⟨himports, clauses, later, hrun, hstatement⟩

/-- A module whose `use` of another one stands in a multiple declaration. -/
def buriedUseTree : Tree := .ofSteps
  [.variableDecl "x" none, .moduleDecl false "A" [⟨0⟩], .identifier "A", .clause ⟨2⟩ .unlimited [],
    .useStmt .unstated [⟨3⟩], .multiDecl [⟨4⟩], .moduleDecl false "S" [⟨5⟩]]

/-- The program over this tree. -/
def buriedUse : Program := (Session.fresh buriedUseTree {}).program

/-- What is known once the scope of the module is built. -/
def buriedUseAsked : Context := (buriedUse.askAll [.scopeOf ⟨6⟩] .empty).getD .empty

/-- The `use` is counted and then passed over: its clause comes to nothing, and nothing is
reported. -/
theorem buriedUse_passed_over :
    buriedUseTree.Finished ∧ buriedUseTree.Grounded ∧ buriedUse.Reachable buriedUseAsked ∧
    buriedUseAsked.OwnedBy ⟨1⟩ (some ⟨6⟩) ∧
    buriedUseTree.Flattens (buriedUseTree.children ⟨6⟩) [⟨4⟩] ∧
    (buriedUse.gather ⟨6⟩).hasImports = true ∧
    buriedUseTree.tag? ⟨4⟩ = some .useStmt ∧
    buriedUseTree.children ⟨4⟩ = [⟨3⟩] ∧ buriedUseTree.tag? ⟨3⟩ = some .clause ∧
    (buriedUse.visibility ⟨1⟩ buriedUseAsked).map
      (fun answer => (answer.1, answer.2.diagnostics.reported)) = some (some [], []) := by
  have hasked : buriedUse.askAll [.scopeOf ⟨6⟩] .empty = some buriedUseAsked := by decide +kernel
  have hinside : buriedUseTree.Flattens (buriedUseTree.children ⟨5⟩) [⟨4⟩] := by
    rw [show buriedUseTree.children ⟨5⟩ = [⟨4⟩] by decide +kernel]
    exact .keep (by decide +kernel) .nil
  have hflat : buriedUseTree.Flattens (buriedUseTree.children ⟨6⟩) [⟨4⟩] := by
    rw [show buriedUseTree.children ⟨6⟩ = [⟨5⟩] by decide +kernel]
    exact .spread (by decide +kernel) hinside .nil
  exact ⟨Tree.finished_ofSteps (by decide +kernel), by decide +kernel, .askAll .refl hasked,
    by decide +kernel, hflat, by decide +kernel, by decide +kernel, by decide +kernel,
    by decide +kernel, by decide +kernel⟩

end Program

end Scoping
