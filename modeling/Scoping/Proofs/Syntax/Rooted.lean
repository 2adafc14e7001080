import Scoping.Proofs.Syntax.WellFormed

/-!
Which finished trees have a top above every node. Adoption puts a node under a
younger one, so it never closes a cycle of parents. A linked body is put under the
parent of its include at the end, wherever that parent is: when the include lies
inside the body, the body comes to lie inside itself.
-/

namespace Scoping.Tree

variable {tree : Tree}

/-- Climbing from the inner node comes to the outer one. -/
def Encloses (tree : Tree) (outer inner : NodeId) : Prop :=
  ∃ steps, tree.ancestor? steps inner = some outer

/-- Climbing from the node comes to a top-level module of the table. -/
def Rooted (tree : Tree) (id : NodeId) : Prop :=
  ∃ name top, tree.toplevel? name = some top ∧ tree.Encloses top id

/-- No node is its own proper ancestor. -/
def Acyclic (tree : Tree) : Prop := ∀ id steps, tree.ancestor? (steps + 1) id ≠ some id

theorem Encloses.refl (tree : Tree) (id : NodeId) : tree.Encloses id id := ⟨0, rfl⟩

theorem Encloses.trans {outer middle inner : NodeId} (houter : tree.Encloses outer middle)
    (hinner : tree.Encloses middle inner) : tree.Encloses outer inner := by
  obtain ⟨more, hmore⟩ := houter
  obtain ⟨steps, hsteps⟩ := hinner
  exact ⟨steps + more, by rw [ancestor?_add, hsteps, Option.bind_some, hmore]⟩

theorem Encloses.of_parent? {id parent : NodeId} (hparent : tree.parent? id = some parent) :
    tree.Encloses parent id := ⟨1, by simp [ancestor?, hparent]⟩

/-- A node that encloses its own parent lies on a cycle. -/
theorem Acyclic.not_encloses_parent {id parent : NodeId} (hacyclic : tree.Acyclic)
    (hparent : tree.parent? id = some parent) : ¬ tree.Encloses id parent := by
  rintro ⟨steps, hsteps⟩
  exact hacyclic id steps (by rw [ancestor?, hparent, Option.bind_some, hsteps])

/-- Chains of parents end exactly when none of them comes back. -/
theorem grounded_iff_acyclic : tree.Grounded ↔ tree.Acyclic := by
  constructor
  · intro hgrounded id steps hcycle
    obtain ⟨ends, hends⟩ := hgrounded id
    have hsame : tree.ancestor? 0 id = tree.ancestor? (steps + 1) id := hcycle.symm
    have hnever := ancestor?_isSome_of_repeat (Nat.succ_pos steps) (by simp [hcycle]) hsame (ends + 1)
    simp [endsWithin_iff.mp hends] at hnever
  · intro hacyclic id
    refine ⟨tree.size, ?_⟩
    by_contra hlong
    obtain ⟨above, habove, hcontains⟩ := exists_ancestor_of_not_endsWithin hlong
    obtain ⟨low, high, hlt, hsome, hsame⟩ := exists_repeat habove hcontains le_rfl
    obtain ⟨node, hnode⟩ := Option.isSome_iff_exists.mp hsome
    obtain ⟨steps, rfl⟩ := Nat.exists_eq_add_of_lt hlt
    have hagain := ancestor?_add tree low (steps + 1) id
    rw [hsame, hnode, Option.bind_some, ← Nat.add_assoc, hnode] at hagain
    exact hacyclic node steps hagain.symm

/-- On the way to an ancestor nodes get younger, unless a body is left for the parent of
its include. -/
theorem WellFormed.lt_or_exists_body (hformed : tree.WellFormed) {steps : Nat} {id top : NodeId}
    (htop : tree.ancestor? (steps + 1) id = some top) : id.index < top.index ∨
      ∃ site body, tree.body? site = some body ∧ tree.Encloses body id ∧ tree.Encloses top site := by
  induction steps generalizing id with
  | zero =>
    obtain ⟨parent, hparent, hmore⟩ := Option.bind_eq_some_iff.mp htop
    obtain rfl := Option.some.inj hmore
    cases hformed.attached id parent hparent with
    | child honce hmem => exact .inl (hformed.older parent id hmem)
    | body site hmodule hinclude hlinked hsite hnone =>
      exact .inr ⟨site, id, (hlinked site).mpr rfl, .refl tree id, .of_parent? hsite⟩
  | succ steps ih =>
    obtain ⟨parent, hparent, hmore⟩ := Option.bind_eq_some_iff.mp htop
    cases hformed.attached id parent hparent with
    | child honce hmem =>
      rcases ih hmore with hlt | ⟨site, body, hbody, hinside, hsite⟩
      · exact .inl (Nat.lt_trans (hformed.older parent id hmem) hlt)
      · exact .inr ⟨site, body, hbody, hinside.trans (.of_parent? hparent), hsite⟩
    | body site hmodule hinclude hlinked hsite hnone =>
      have habove : tree.Encloses top parent := ⟨steps + 1, hmore⟩
      exact .inr ⟨site, id, (hlinked site).mpr rfl, .refl tree id, habove.trans (.of_parent? hsite)⟩

namespace Finished

variable (hfinished : tree.Finished)
include hfinished

theorem wellFormed : tree.WellFormed := by
  obtain ⟨builder, hbuilder, hfinish⟩ := hfinished.exists_formed
  exact hbuilder.wellFormed hfinish

/-- A body has the parent of its include. -/
theorem parent?_of_body? {site body : NodeId} (hbody : tree.body? site = some body) :
    ∃ parent, tree.parent? site = some parent ∧ tree.parent? body = some parent := by
  obtain ⟨builder, hbuilder, hfinish⟩ := hfinished.exists_formed
  exact (hbuilder.parent?_of_finish hfinish).2 (site, body)
    ((hbuilder.body?_eq_some_iff hfinish).mp hbody)

/-- An include is not its own body. -/
theorem body?_ne_self (id : NodeId) : tree.body? id ≠ some id := by
  intro hself
  obtain ⟨builder, hbuilder, hfinish⟩ := hfinished.exists_formed
  have hlink := (hbuilder.body?_eq_some_iff hfinish).mp hself
  have hmodule := hbuilder.linked id (hbuilder.bodies (id, id) hlink)
  rw [hbuilder.sites (id, id) hlink] at hmodule
  cases hmodule

/-- Cycles of parents are those that links close. -/
theorem acyclic_iff : tree.Acyclic ↔
    ∀ site body, tree.body? site = some body → ¬ tree.Encloses body site := by
  constructor
  · intro hacyclic site body hbody hinside
    obtain ⟨parent, hsite, hparent⟩ := hfinished.parent?_of_body? hbody
    obtain ⟨steps, hsteps⟩ := hinside
    cases steps with
    | zero =>
      obtain rfl := Option.some.inj hsteps
      exact hfinished.body?_ne_self site hbody
    | succ steps =>
      rw [ancestor?, hsite, Option.bind_some] at hsteps
      exact hacyclic.not_encloses_parent hparent ⟨steps, hsteps⟩
  · intro hlinks id steps hcycle
    rcases hfinished.wellFormed.lt_or_exists_body hcycle with hlt | ⟨site, body, hbody, hin, hout⟩
    · exact Nat.lt_irrefl _ hlt
    · exact hlinks site body hbody (hin.trans hout)

/-- Where chains of parents end, they end at modules of the table, and only there. -/
theorem rooted_iff {id : NodeId} (hid : tree.contains id = true) :
    tree.Rooted id ↔ ∃ steps, tree.EndsWithin steps id := by
  constructor
  · rintro ⟨name, top, htop, steps, hsteps⟩
    have hparent := ((hfinished.wellFormed.toplevel name top).mp htop).1
    refine ⟨steps, endsWithin_iff.mpr ?_⟩
    rw [ancestor?_add, hsteps, Option.bind_some, ancestor?, hparent, Option.bind_none]
  · rintro ⟨steps, hends⟩
    have htop : ∀ top, tree.contains top = true → tree.parent? top = none → tree.Rooted top := by
      intro top hcontains hparent
      obtain ⟨node, hnode, htag⟩ := Option.map_eq_some_iff.mp
        (hfinished.placed.tops top hcontains hparent)
      cases hkind : node.kind with
      | moduleDecl name internal =>
        refine ⟨name, top, (hfinished.wellFormed.toplevel name top).mpr ⟨hparent, internal, ?_⟩,
          .refl tree top⟩
        simp [kind?, hnode, hkind]
      | _ => simp [Node.tag, hkind, NodeKind.tag] at htag
    induction steps generalizing id with
    | zero => exact htop id hid hends
    | succ steps ih =>
      cases hparent : tree.parent? id with
      | none => exact htop id hid hparent
      | some parent =>
        obtain ⟨name, top, htop, hinside⟩ :=
          ih (hfinished.contains_parent hparent) (hends parent hparent)
        exact ⟨name, top, htop, hinside.trans (.of_parent? hparent)⟩

theorem grounded_iff_rooted :
    tree.Grounded ↔ ∀ id, tree.contains id = true → tree.Rooted id := by
  constructor
  · intro hgrounded id hid
    exact (hfinished.rooted_iff hid).mpr (hgrounded id)
  · intro hrooted id
    by_cases hid : tree.contains id = true
    · exact (hfinished.rooted_iff hid).mp (hrooted id hid)
    · refine ⟨0, ?_⟩
      cases hparent : tree.parent? id with
      | none => exact hparent
      | some parent => exact absurd (contains_of_parent? hparent) hid

end Finished

end Scoping.Tree
