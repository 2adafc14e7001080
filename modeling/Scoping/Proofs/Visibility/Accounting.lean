import Scoping.Proofs.Visibility.Settling

/-!
Every clause is accounted for. Each one either brings in what it stands for or is refused
with one error of its own, and neither depends on how the others fare.
-/

namespace Scoping.Program

open Context

variable {program : Program} {context : Context}

/-- What a clause contributes in a context, and what was reported about it if that is
nothing. -/
inductive Accounted (program : Program) (context : Context) (written : WrittenClause) :
    List Clause → Prop
  /-- Where a clause is refused, nothing else is reported about any node of it. -/
  | refused {before after : List Diagnostic} {error : Diagnostic}
    (herrors : context.errors = before ++ error :: after)
    (hanchored : program.tree.Anchors written error.node)
    (hothers : ∀ other ∈ before ++ after, ¬ program.tree.Within written.site other.node) :
    Accounted program context written []
  | brought {target : ScopeId} {part : List Clause}
    (hmade : program.made written target = some part) (hshape : written.Shape target part) :
    Accounted program context written part

theorem accounted_of_settles {clauses : List Clause} {written : WrittenClause} {part : List Clause}
    (hsettles : context.Settles program clauses written part) :
    program.Accounted context written part := by
  obtain ⟨⟨hcontributes, hexplained⟩, -⟩ := hsettles
  rcases hcontributes with rfl | ⟨target, hmade⟩
  · obtain ⟨error, herrors, hanchored⟩ := hexplained.refused rfl
    obtain ⟨before, after, hsplit, hbefore, -, hafter⟩ := List.filter_eq_cons_iff.mp herrors
    refine .refused hsplit hanchored fun other hother => ?_
    rcases List.mem_append.mp hother with hmem | hmem
    · simpa using hbefore other hmem
    · simpa using List.filter_eq_nil_iff.mp hafter other hmem
  · exact .brought hmade (shape_of_made hmade)

/-- The clauses of a scope are what the clauses of its owner's statements contribute, in
source order. One that contributes nothing has an error of its own to show for it, so no
other clause, and no entry of a list, takes anything away. -/
theorem clauses_accounted {tree : Tree} (hfinished : tree.Finished) (htree : program.tree = tree)
    (hreachable : program.Reachable context) {id : ScopeId} {clauses : List Clause}
    (hclauses : context.visibility.get? id = some clauses) :
    ∃ owner parts, context.OwnedBy id (some owner) ∧
      List.Forall₂ (program.Accounted context) (tree.writtenClauses owner) parts ∧
      clauses = parts.flatten := by
  subst htree
  obtain ⟨owner, parts, howned, hparts, hflatten⟩ :=
    (hreachable.ledger hfinished).settled id clauses hclauses
  exact ⟨owner, parts, howned, hparts.imp fun _ _ => accounted_of_settles, hflatten⟩

/-- A module with four clauses: two are refused, one lists a name that does not exist, and
the last one is as it should be. -/
def unevenUse : Program :=
  (Session.fresh (.ofSteps
    [.variableDecl "x" none, .moduleDecl false "A" [⟨0⟩], .identifier "B", .clause ⟨2⟩ .unlimited [],
      .identifier "A", .identifier "y", .clause ⟨4⟩ .only [⟨5⟩], .useStmt .unstated [⟨3⟩, ⟨6⟩],
      .identifier "A", .dot ⟨8⟩ "x", .clause ⟨9⟩ .unlimited [], .useStmt .unstated [⟨10⟩],
      .identifier "A", .dot ⟨12⟩ "x", .clause ⟨13⟩ .unlimited [], .importStmt .unstated [⟨14⟩],
      .moduleDecl false "S" [⟨7⟩, ⟨11⟩, ⟨15⟩]]) {}).program

/-- What is known once the clauses of the module are asked for. -/
def unevenUseAsked : Context :=
  (unevenUse.askAll [.scopeOf ⟨16⟩, .visibility ⟨1⟩] .empty).getD .empty

/-- The second clause and the last one are brought in; each of the first three has an error. -/
theorem unevenUse_accounted :
    unevenUse.tree.Finished ∧ unevenUse.Reachable unevenUseAsked ∧
      unevenUseAsked.visibility.get? ⟨1⟩ = some (unevenUseAsked.clausesAt ⟨1⟩) ∧
      (unevenUseAsked.clausesAt ⟨1⟩).map Clause.kind = [.symbolOnly, .onlyContents, .onlyContents] ∧
      unevenUseAsked.errors.map Diagnostic.node = [⟨2⟩, ⟨5⟩, ⟨9⟩] ∧
      ∃ owner parts, unevenUseAsked.OwnedBy ⟨1⟩ (some owner) ∧
        List.Forall₂ (unevenUse.Accounted unevenUseAsked) (unevenUse.tree.writtenClauses owner)
          parts ∧
        unevenUseAsked.clausesAt ⟨1⟩ = parts.flatten := by
  have hfinished : unevenUse.tree.Finished := Tree.finished_ofSteps (by decide +kernel)
  have hreachable : unevenUse.Reachable unevenUseAsked := Reaches.askAll .refl
    (show unevenUse.askAll [.scopeOf ⟨16⟩, .visibility ⟨1⟩] .empty = some unevenUseAsked by
      decide +kernel)
  have hclauses : unevenUseAsked.visibility.get? ⟨1⟩ = some (unevenUseAsked.clausesAt ⟨1⟩) := by
    decide +kernel
  exact ⟨hfinished, hreachable, hclauses, by decide +kernel, by decide +kernel,
    clauses_accounted hfinished rfl hreachable hclauses⟩

end Scoping.Program
