import Scoping.Proofs.Context.Arrangement
import Scoping.Proofs.Gathering
import Scoping.Proofs.Visibility.Settling

/-!
The clauses of a scope, part by part. Asking for them has an answer at any time, and the
answer is what the clauses written in the owner have come to, in source order, together
with the errors in the log.
-/

namespace Scoping

open Context Resolve

/-- Nothing is written in a node whose scope has no statements. -/
theorem Tree.writtenClauses_of_hasImports {tree : Tree} {owner : NodeId} {excluded : Option Name}
    (himports : (tree.gather owner excluded).hasImports = false) :
    tree.writtenClauses owner = [] := by
  refine List.flatMap_eq_nil_iff.mpr fun child hchild => ?_
  by_contra hstatement
  rw [Tree.hasImports_of_mem_children hchild hstatement excluded] at himports
  cases himports

namespace Context

variable {program : Program} {context : Context}

/-- An error about a node of a clause is among the errors about the clause. -/
theorem mem_errorsWithin_iff {tree : Tree} {site : NodeId} {error : Diagnostic} :
    error ∈ context.errorsWithin tree site ↔
      error ∈ context.errors ∧ tree.Within site error.node := by
  simp [errorsWithin]

end Context

namespace Program

variable {program : Program} {context : Context} {id : ScopeId}

/-- The clauses of a scope are found at any time, and are what the clauses written in its
owner have come to. -/
theorem Reachable.visibility_settles (hfinished : program.tree.Finished)
    (hforest : program.tree.IsForest) (hreachable : program.Reachable context)
    (hid : context.Has id) :
    ∃ found later, program.visibility id context = some (found, later) ∧
      program.Reachable later ∧ ∀ owner, later.OwnedBy id (some owner) → ∃ parts,
        List.Forall₂ (later.Settles program (found.getD [])) (program.tree.writtenClauses owner)
          parts ∧ found.getD [] = parts.flatten := by
  obtain ⟨found, later, hrun, hchanges, hanswers⟩ :=
    visibility_ends hforest (hreachable.settled hforest).sound hid
  have hlater : program.Reachable later := Reaches.asked hreachable
    (show (Request.visibility id).Valid program context from hid)
    (map_eq_some_iff.mpr ⟨found, hrun, rfl⟩)
  have hsettled := hlater.settled hforest
  refine ⟨found, later, hrun, hlater, fun owner howned => ?_⟩
  cases found with
  | some clauses =>
    obtain ⟨owner', parts, howned', hparts, hflatten⟩ :=
      (hlater.ledger hfinished).settled id clauses hanswers.1.symm
    obtain rfl : owner' = owner := Option.some.inj (howned'.2.symm.trans howned.2)
    exact ⟨parts, hparts, hflatten⟩
  | none =>
    have himports : (later.scope id).hasImports = false :=
      (hanswers.isSome_eq hsettled.sound (hsettled.idle id)).symm
    rw [(hsettled.sound.reflects hforest howned).hasImports] at himports
    rw [Tree.writtenClauses_of_hasImports himports]
    exact ⟨[], .nil, rfl⟩

end Program

end Scoping
