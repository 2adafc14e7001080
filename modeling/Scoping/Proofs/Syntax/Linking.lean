import Scoping.Proofs.Syntax.Rooted

/-!
What a link of an include leaves in the finished tree. No adoption undoes it and no step
that fails, but an include can be linked again. Then the last link counts, and the module
that was linked before is left without a place.
-/

namespace Scoping

namespace BuildStep

open Build Builder

variable {step : BuildStep} {builder : Builder} {site body other : NodeId}

/-- A link is refused and changes nothing, or it is recorded for a module that had no place. -/
theorem run_link_cases (site body : NodeId) (builder : Builder) :
    (∃ error, (link site body).run builder = (.error error, builder)) ∨
      body ∉ builder.linked ∧
        (link site body).run builder =
          (.ok .done, { builder with
            bodies := builder.bodies.insert site body
            linked := body :: builder.linked }) := by
  have hrun : (link site body).run builder =
      (ExceptT.run (Builder.link site body >>= fun _ => pure BuildAnswer.done)).run builder := rfl
  rw [hrun, run_bind]
  rcases Builder.run_link site body builder with ⟨error, hrefused⟩ | ⟨-, ⟨node, -, -, hfree⟩, hdone⟩
  · rw [hrefused]
    exact .inl ⟨error, rfl⟩
  · rw [hdone]
    refine .inr ⟨fun hmem => ?_, rfl⟩
    simp [isTaken, hmem] at hfree

/-- A link that succeeds decides the body of its include. -/
theorem body_run_link (hok : ((link site body).run builder).1 = .ok .done) :
    body ∉ builder.linked ∧
      ((link site body).run builder).2.bodies.get? site = some body ∧
      ((link site body).run builder).2.linked = body :: builder.linked := by
  rcases run_link_cases site body builder with ⟨error, hrun⟩ | ⟨hfree, hrun⟩
  · rw [hrun] at hok
    cases hok
  · rw [hrun]
    exact ⟨hfree, Assoc.get?_insert_self _ _ _, rfl⟩

/-- Nothing else changes the body of an include. -/
theorem body_run_of_spared
    (hspared : ∀ body, step = .link site body → (step.run builder).1 ≠ .ok .done) :
    (step.run builder).2.bodies.get? site = builder.bodies.get? site := by
  by_cases hlinks : ∃ place body, step = .link place body
  · obtain ⟨place, body, rfl⟩ := hlinks
    rcases run_link_cases place body builder with ⟨error, hrun⟩ | ⟨-, hrun⟩
    · rw [hrun]
    · by_cases hplace : site = place
      · subst hplace
        exact absurd (by rw [hrun]) (hspared body rfl)
      · rw [hrun]
        exact Assoc.get?_insert_of_ne _ hplace _
  · have hkeeps : Adopting fun later => later.bodies.get? site = builder.bodies.get? site :=
      ⟨fun _ _ hsame => hsame, fun _ _ _ hsame _ _ => hsame⟩
    exact hkeeps.perform_keeps step (fun place body heq => hlinks ⟨place, body, heq⟩) builder rfl

/-- A step of a run links `site` to `body`, and succeeds. -/
structure LinksAt (steps : List BuildStep) (outcomes : List (Except BuildError BuildAnswer))
    (site body : NodeId) (index : Nat) : Prop where
  step : steps[index]? = some (.link site body)
  outcome : outcomes[index]? = some (.ok .done)

variable {rest : List BuildStep} {outcomes : List (Except BuildError BuildAnswer)}
  {outcome : Except BuildError BuildAnswer} {index : Nat}

@[simp]
theorem linksAt_cons_zero : LinksAt (step :: rest) (outcome :: outcomes) site body 0 ↔
    step = .link site body ∧ outcome = .ok .done :=
  ⟨fun ⟨hstep, houtcome⟩ => ⟨Option.some.inj hstep, Option.some.inj houtcome⟩,
    fun ⟨hstep, houtcome⟩ => ⟨congrArg some hstep, congrArg some houtcome⟩⟩

@[simp]
theorem linksAt_cons_succ : LinksAt (step :: rest) (outcome :: outcomes) site body (index + 1) ↔
    LinksAt rest outcomes site body index :=
  ⟨fun ⟨hstep, houtcome⟩ => ⟨hstep, houtcome⟩, fun ⟨hstep, houtcome⟩ => ⟨hstep, houtcome⟩⟩

theorem runAll_cons (step : BuildStep) (rest : List BuildStep) (builder : Builder) :
    runAll (step :: rest) builder =
      ((step.run builder).1 :: (runAll rest (step.run builder).2).1,
        (runAll rest (step.run builder).2).2) := rfl

/-- An include that no step links keeps the body that it has. -/
theorem body_runAll_of_spared {steps : List BuildStep}
    (hspared : ∀ index body, ¬ LinksAt steps (runAll steps builder).1 site body index) :
    (runAll steps builder).2.bodies.get? site = builder.bodies.get? site := by
  induction steps generalizing builder with
  | nil => rfl
  | cons step rest ih =>
    rw [runAll_cons] at hspared ⊢
    rw [ih fun index body hlink => hspared (index + 1) body (linksAt_cons_succ.mpr hlink)]
    exact body_run_of_spared fun body hstep hok =>
      hspared 0 body (linksAt_cons_zero.mpr ⟨hstep, hok⟩)

/-- The last link of an include decides its body. -/
theorem body_runAll_of_last {steps : List BuildStep}
    (hlink : LinksAt steps (runAll steps builder).1 site body index)
    (hlast : ∀ later other, index < later →
      ¬ LinksAt steps (runAll steps builder).1 site other later) :
    (runAll steps builder).2.bodies.get? site = some body := by
  induction steps generalizing builder index with
  | nil => exact nomatch hlink.step
  | cons step rest ih =>
    rw [runAll_cons] at hlink hlast ⊢
    cases index with
    | zero =>
      obtain ⟨rfl, hok⟩ := linksAt_cons_zero.mp hlink
      rw [body_runAll_of_spared fun later other hlater =>
        hlast (later + 1) other later.succ_pos (linksAt_cons_succ.mpr hlater)]
      exact (body_run_link hok).2.1
    | succ index =>
      exact ih (linksAt_cons_succ.mp hlink) fun later other hlt hlater =>
        hlast (later + 1) other (Nat.succ_lt_succ hlt) (linksAt_cons_succ.mpr hlater)

/-- A module that was linked and is not the body of the include does not become it again:
no module is linked twice. -/
theorem displaced_invariant (site body : NodeId) : Invariant fun builder =>
    body ∈ builder.linked ∧ builder.bodies.get? site ≠ some body where
  name _ _ hbuilder := hbuilder
  adopt _ _ _ hbuilder _ _ := hbuilder
  link builder place other hbuilder _ hfree := by
    obtain ⟨hlinked, hbody⟩ := hbuilder
    refine ⟨List.mem_cons_of_mem _ hlinked, ?_⟩
    by_cases hplace : site = place
    · subst hplace
      rw [Assoc.get?_insert_self]
      intro heq
      obtain rfl := Option.some.inj heq
      obtain ⟨node, -, -, hfree⟩ := hfree
      simp [isTaken, hlinked] at hfree
    · rwa [Assoc.get?_insert_of_ne _ hplace]

theorem linked_invariant (body : NodeId) : Invariant fun builder => body ∈ builder.linked where
  name _ _ hlinked := hlinked
  adopt _ _ _ hlinked _ _ := hlinked
  link _ _ _ hlinked _ _ := List.mem_cons_of_mem _ hlinked

/-- Another link of the include takes the body from it for good. -/
theorem body_runAll_ne_of_linked {steps : List BuildStep} (hlinked : body ∈ builder.linked)
    (hlink : LinksAt steps (runAll steps builder).1 site other index) :
    (runAll steps builder).2.bodies.get? site ≠ some body := by
  induction steps generalizing builder index with
  | nil => exact nomatch hlink.step
  | cons step rest ih =>
    rw [runAll_cons] at hlink ⊢
    cases index with
    | zero =>
      obtain ⟨rfl, hok⟩ := linksAt_cons_zero.mp hlink
      obtain ⟨hfree, hbody, hnow⟩ := body_run_link hok
      refine ((displaced_invariant site body).runAll_holds rest _ ⟨?_, fun heq => ?_⟩).2
      · rw [hnow]
        exact List.mem_cons_of_mem _ hlinked
      · obtain rfl := Option.some.inj (hbody.symm.trans heq)
        exact hfree hlinked
    | succ index =>
      exact ih ((linked_invariant body).perform_keeps step builder hlinked)
        (linksAt_cons_succ.mp hlink)

theorem body_runAll_ne_of_later {steps : List BuildStep} {later : Nat}
    (hlink : LinksAt steps (runAll steps builder).1 site body index) (hlt : index < later)
    (hlater : LinksAt steps (runAll steps builder).1 site other later) :
    (runAll steps builder).2.bodies.get? site ≠ some body := by
  induction steps generalizing builder index later with
  | nil => exact nomatch hlink.step
  | cons step rest ih =>
    rw [runAll_cons] at hlink hlater ⊢
    obtain ⟨later, rfl⟩ := Nat.exists_eq_succ_of_ne_zero (Nat.ne_zero_of_lt hlt)
    have hlater := linksAt_cons_succ.mp hlater
    cases index with
    | zero =>
      obtain ⟨rfl, hok⟩ := linksAt_cons_zero.mp hlink
      refine body_runAll_ne_of_linked ?_ hlater
      rw [(body_run_link hok).2.2]
      exact List.mem_cons_self
    | succ index => exact ih (linksAt_cons_succ.mp hlink) (Nat.lt_of_succ_lt_succ hlt) hlater

end BuildStep

namespace Tree

open BuildStep

/-- A body is nowhere a child, and not at the top level. -/
theorem Finished.placed_of_body? {tree : Tree} (hfinished : tree.Finished) {site body : NodeId}
    (hbody : tree.body? site = some body) :
    (∃ parent, tree.parent? site = some parent ∧ tree.parent? body = some parent) ∧
      body ∉ tree.childLists ∧ body ∉ tree.roots.entries.map Prod.snd := by
  obtain ⟨parent, hsite, hparent⟩ := hfinished.parent?_of_body? hbody
  refine ⟨⟨parent, hsite, hparent⟩, ?_, fun htop => ?_⟩
  · obtain ⟨builder, hbuilder, hfinish⟩ := hfinished.exists_formed
    exact hbuilder.not_mem_childLists hfinish ((hbuilder.body?_eq_some_iff hfinish).mp hbody)
  · rw [((hfinished.wellFormed.tops body).mp htop).2] at hparent
    cases hparent

/-- A link that succeeded lasts exactly when no later link of the include succeeded. While it
lasts, the module is the body of the include in the finished tree, beside it under the same
parent, whatever other steps were tried in between. -/
theorem link_lasts_iff {texts : List String} {steps : List BuildStep} {tree : Tree}
    (hbuild : (Session.build texts steps).2 = .ok tree) {site body : NodeId} {index : Nat}
    (hlink : LinksAt steps (Session.build texts steps).1 site body index) :
    (∀ later other, index < later →
        ¬ LinksAt steps (Session.build texts steps).1 site other later) ↔
      tree.body? site = some body ∧
        (∃ parent, tree.parent? site = some parent ∧ tree.parent? body = some parent) ∧
        body ∉ tree.childLists ∧ body ∉ tree.roots.entries.map Prod.snd := by
  have hbodies : tree.bodies = _ := (Builder.eq_of_finish hbuild).2.2
  constructor
  · intro hlast
    have hbody : tree.body? site = some body := by
      rw [Tree.body?, hbodies]
      exact body_runAll_of_last hlink hlast
    exact ⟨hbody, Finished.placed_of_body? ⟨texts, steps, hbuild⟩ hbody⟩
  · rintro ⟨hbody, -⟩ later other hlt hlater
    rw [Tree.body?, hbodies] at hbody
    exact body_runAll_ne_of_later hlink hlt hlater hbody

/-- The link that these steps make lasts, though a later step tries to adopt its module. -/
theorem including_link_lasts :
    (Session.build [] includingSteps).2 = .ok (ofSteps includingSteps) ∧
      LinksAt includingSteps (Session.build [] includingSteps).1 ⟨1⟩ ⟨2⟩ 4 ∧
      (ofSteps includingSteps).body? ⟨1⟩ = some ⟨2⟩ ∧
      (ofSteps includingSteps).parent? ⟨1⟩ = some ⟨7⟩ ∧
      (ofSteps includingSteps).parent? ⟨2⟩ = some ⟨7⟩ ∧
      ⟨2⟩ ∉ (ofSteps includingSteps).roots.entries.map Prod.snd := by
  have hbuild := build_ofSteps (show (Session.build [] includingSteps).2.toOption.isSome = true by
    decide +kernel)
  have hlink : LinksAt includingSteps (Session.build [] includingSteps).1 ⟨1⟩ ⟨2⟩ 4 :=
    ⟨rfl, by decide +kernel⟩
  obtain ⟨hbody, -, -, htop⟩ := (link_lasts_iff hbuild hlink).mp fun later other hlt hlater => by
    have hstep := hlater.step
    have hbound : later < includingSteps.length := (List.getElem?_eq_some_iff.mp hstep).1
    simp only [includingSteps, List.length_cons, List.length_nil] at hbound
    interval_cases later <;> simp [includingSteps] at hstep
  exact ⟨hbuild, hlink, hbody, by decide +kernel, by decide +kernel, htop⟩

/-- Steps that link two modules to one include. -/
def relinkingSteps : List BuildStep :=
  [.includeDecl "Sub", .moduleDecl false "A" [], .moduleDecl false "B" [], .link ⟨0⟩ ⟨1⟩,
    .link ⟨0⟩ ⟨2⟩, .moduleDecl false "Outer" [⟨0⟩]]

/-- Both links succeed, and the second takes the include from the first module: it has no
parent in the finished tree and stands in the table of top-level modules. -/
theorem relinking_displaces :
    (Session.build [] relinkingSteps).2 = .ok (ofSteps relinkingSteps) ∧
      LinksAt relinkingSteps (Session.build [] relinkingSteps).1 ⟨0⟩ ⟨1⟩ 3 ∧
      LinksAt relinkingSteps (Session.build [] relinkingSteps).1 ⟨0⟩ ⟨2⟩ 4 ∧
      (ofSteps relinkingSteps).body? ⟨0⟩ = some ⟨2⟩ ∧
      (ofSteps relinkingSteps).parent? ⟨0⟩ = some ⟨3⟩ ∧
      (ofSteps relinkingSteps).parent? ⟨1⟩ = none ∧
      ⟨1⟩ ∈ (ofSteps relinkingSteps).roots.entries.map Prod.snd :=
  ⟨build_ofSteps (by decide +kernel), ⟨rfl, by decide +kernel⟩, ⟨rfl, by decide +kernel⟩,
    by decide +kernel, by decide +kernel, by decide +kernel, by decide +kernel⟩

end Tree

end Scoping
