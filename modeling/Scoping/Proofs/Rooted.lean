import Scoping.Proofs.Context.Grounding
import Scoping.Proofs.Request

/-!
Which of the trees that can be built are trees all the way up. Nothing stops a module
from being linked to an include that lies inside it, and climbing from such a module
does not end. Short of that every climb ends at a top-level module, whether it is for
the scope of a node or for the internal modules around it.
-/

namespace Scoping.Program

open Context

/-- A tree that was built is a forest exactly when no body encloses its own include, and
these are the trees on which every node has a scope. -/
theorem rooted_tfae {texts : List String} {steps : List BuildStep} {tree : Tree}
    (hbuild : (Session.build texts steps).2 = .ok tree) {program : Program}
    (htree : program.tree = tree) : List.TFAE [
      ∀ id, tree.contains id = true → tree.Rooted id,
      tree.Acyclic,
      tree.Grounded,
      -- the climb that looks for an internal module comes to a node without parent
      ∀ id, tree.contains id = true →
        ∃ top ∈ tree.chain tree.size id, tree.parent? top = none,
      ∀ context id, program.Reachable context → tree.contains id = true →
        (program.scopeOf id context).isSome = true,
      ∀ site body, tree.body? site = some body → ¬ tree.Encloses body site] := by
  have hfinished : tree.Finished := ⟨texts, steps, hbuild⟩
  subst htree
  tfae_have 2 ↔ 3 := Tree.grounded_iff_acyclic.symm
  tfae_have 1 ↔ 3 := hfinished.grounded_iff_rooted.symm
  tfae_have 2 ↔ 6 := hfinished.acyclic_iff
  tfae_have 1 → 4 := by
    intro hrooted id hid
    obtain ⟨name, top, htop, steps, hsteps⟩ := hrooted id hid
    obtain ⟨hparent, internal, hkind⟩ := (hfinished.wellFormed.toplevel name top).mp htop
    obtain ⟨node, hnode, -⟩ := Option.map_eq_some_iff.mp hkind
    obtain ⟨ends, hends⟩ := (hfinished.rooted_iff hid).mp (hrooted id hid)
    have hlt := Tree.lt_size_of_ancestor? hends hsteps (Tree.contains_iff.mpr ⟨node, hnode⟩)
    exact ⟨top, Tree.mem_chain_iff.mpr ⟨steps, hlt, hsteps⟩, hparent⟩
  tfae_have 4 → 1 := by
    intro hchain id hid
    obtain ⟨top, hmem, hparent⟩ := hchain id hid
    obtain ⟨steps, -, hsteps⟩ := Tree.mem_chain_iff.mp hmem
    refine (hfinished.rooted_iff hid).mpr ⟨steps, Tree.endsWithin_iff.mpr ?_⟩
    rw [Tree.ancestor?_add, hsteps, Option.bind_some, Tree.ancestor?, hparent, Option.bind_none]
  tfae_have 3 → 5 := by
    intro hgrounded context id hreachable hid
    have hforest := hfinished.isForest hgrounded
    obtain ⟨scope, later, hrun, -⟩ := scopeOf_ends hforest (hreachable.settled hforest).sound id
    rw [hrun, Option.isSome_some]
  tfae_have 5 → 1 := by
    intro hscopes id hid
    exact (hfinished.rooted_iff hid).mpr
      (exists_endsWithin_of_scopeOf hfinished (hscopes .empty id .refl hid))
  tfae_finish

theorem including_rooted :
    (Session.build [] Tree.includingSteps).2 = .ok (.ofSteps Tree.includingSteps) ∧
      ∀ id, (Tree.ofSteps Tree.includingSteps).contains id = true →
        (Tree.ofSteps Tree.includingSteps).Rooted id := by
  have hbuild := Tree.build_ofSteps
    (show (Session.build [] Tree.includingSteps).2.toOption.isSome = true by decide +kernel)
  exact ⟨hbuild, ((rooted_tfae hbuild (tree_fresh _ {})).out 2 0).mp (by decide +kernel)⟩

/-- Steps that link a module to an include inside it. -/
def enclosingSteps : List BuildStep :=
  [.includeDecl "Sub", .moduleDecl false "Sub" [⟨0⟩], .link ⟨0⟩ ⟨1⟩]

/-- A module that is linked to an include inside it becomes its own parent. No top-level
module is left, and neither of the two nodes has a scope. -/
theorem enclosing_not_rooted :
    (Session.build [] enclosingSteps).2 = .ok (.ofSteps enclosingSteps) ∧
      (Tree.ofSteps enclosingSteps).contains ⟨1⟩ = true ∧
      (Tree.ofSteps enclosingSteps).parent? ⟨1⟩ = some ⟨1⟩ ∧
      ¬ (Tree.ofSteps enclosingSteps).Acyclic ∧
      ¬ (Tree.ofSteps enclosingSteps).Rooted ⟨1⟩ ∧
      (Session.fresh (.ofSteps enclosingSteps) {}).program.scopeOf ⟨1⟩ .empty = none := by
  have hroots : (Tree.ofSteps enclosingSteps).roots = .empty := by decide +kernel
  refine ⟨Tree.build_ofSteps (by decide +kernel), by decide +kernel, by decide +kernel,
    fun hacyclic => hacyclic ⟨1⟩ 0 (by decide +kernel), ?_, by decide +kernel⟩
  rintro ⟨name, top, htop, -⟩
  rw [Tree.toplevel?, hroots] at htop
  cases htop

end Scoping.Program
