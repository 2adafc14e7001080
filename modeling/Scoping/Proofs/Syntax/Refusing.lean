import Scoping.Proofs.Syntax.Dotted

/-!
What a step leaves behind when it is refused. Names are checked before anything is made, and
adoption is refused before any parent is set. So a refused step leaves at most what it had
made before: the identifier of a renaming, the segments of a path or the elements of an
enumeration that come before the first one that is no identifier.
-/

namespace Scoping

open Build

namespace Builder

variable {start builder : Builder} {forms : List (Tag × String)}

/-- A leaf changes no parent. -/
theorem parentAt_adopt_nil (builder : Builder) (kind : NodeKind) (id : NodeId) :
    parentAt (builder.adopt kind []).nodes id = parentAt builder.nodes id := by
  rw [parentAt, parentAt, getElem?_adopt]
  by_cases hnew : id.index = builder.nodes.size
  · simp [hnew]
  · simp [hnew]

/-- Elements are made one after another, up to the first one whose name is no identifier. -/
theorem meets_elements (hgrown : start.Grown builder forms) (texts : List String) :
    Meets builder (elements texts)
      (fun ids later => start.Grown later (forms ++ texts.map (.enumElement, ·)) ∧
        ids = (List.range' builder.nodes.size texts.length).map NodeId.mk ∧
        ∀ id, parentAt later.nodes id = parentAt builder.nodes id)
      fun later => start.Grown later
        (forms ++ (texts.takeWhile Text.isIdentifier).map (.enumElement, ·)) := by
  induction texts generalizing builder forms with
  | nil => exact .pure ⟨by simpa using hgrown, rfl, fun _ => rfl⟩
  | cons text rest ih =>
    refine .bind ((Meets.pushNamed _ text [] rfl).mono ?_ ?_)
    · rintro _ _ ⟨htext, rfl, rfl⟩
      have hreads : (NodeKind.enumElement (builder.names.intern text).1).Reads
          (builder.names.intern text).2 (.enumElement, text) :=
        ⟨rfl, _, rfl, hgrown.sound.lookup?_intern text⟩
      refine .bind ((ih ((hgrown.intern text).adopt (by simp) hreads)).mono ?_ ?_)
      · rintro _ later ⟨hgrown, rfl, hparents⟩
        refine .pure ⟨by simpa using hgrown, ?_, fun id => ?_⟩
        · rw [size_adopt, List.length_cons, List.range'_succ, List.map_cons]
        · rw [hparents, parentAt_adopt_nil]
      · intro later hgrown
        simpa [List.takeWhile_cons, htext] using hgrown
    · rintro _ ⟨htext, rfl⟩
      simpa [List.takeWhile_cons, htext] using hgrown

end Builder

namespace BuildStep

/-- The forms of the nodes that a step has made when it is refused. -/
def remains : BuildStep → List (Tag × String)
  | .renameTo _ newName => if Text.isIdentifier newName then [(.identifier, newName)] else []
  | .dotted path => Builder.pathForms ((Builder.segments path).takeWhile Text.isIdentifier)
  | .enumDecl text elementNames =>
    if Text.isIdentifier text then
      (elementNames.takeWhile Text.isIdentifier).map (.enumElement, ·)
    else []
  | _ => []

end BuildStep

namespace Build.Meets

open Builder

variable {builder : Builder} (hsound : builder.names.Sound)
include hsound

theorem push_refused (kind : NodeKind) (children : List NodeId) :
    Meets builder (Builder.push kind children) (fun _ _ => True) (builder.Grown · []) := by
  refine (Meets.push kind children).mono (fun _ _ _ => trivial) ?_
  rintro _ ⟨-, rfl⟩
  exact .refl hsound

theorem name_refused (text : String) :
    Meets builder (Builder.name text) (fun _ _ => True) (builder.Grown · []) := by
  refine (Meets.name text).mono (fun _ _ _ => trivial) ?_
  rintro _ ⟨-, rfl⟩
  exact .refl hsound

theorem pushNamed_refused (kind : Name → NodeKind) (text : String) (children : List NodeId) :
    Meets builder (Builder.pushNamed kind text children) (fun _ _ => True)
      (builder.Grown · []) := by
  refine .bind ((Meets.name text).mono ?_ ?_)
  · rintro _ _ ⟨-, rfl, rfl⟩
    refine (Meets.push _ children).mono (fun _ _ _ => trivial) ?_
    rintro _ ⟨-, rfl⟩
    exact (Grown.refl hsound).intern text
  · rintro _ ⟨-, rfl⟩
    exact .refl hsound

theorem link_refused (site body : NodeId) :
    Meets builder (Builder.link site body) (fun _ _ => True) (builder.Grown · []) := by
  unfold Meets
  rcases run_link site body builder with ⟨error, hrun⟩ | ⟨-, -, hrun⟩
  · rw [hrun]
    exact .refl hsound
  · rw [hrun]
    trivial

theorem renameTo_refused (symbol : NodeId) (newName : String) :
    Meets builder (Builder.renameTo symbol newName) (fun _ _ => True)
      (builder.Grown · (BuildStep.renameTo symbol newName).remains) := by
  refine .bind ((Meets.pushNamed _ newName [] rfl).mono ?_ ?_)
  · rintro _ _ ⟨hname, rfl, rfl⟩
    refine (Meets.push _ _).mono (fun _ _ _ => trivial) ?_
    rintro _ ⟨-, rfl⟩
    simp only [BuildStep.remains, hname, if_true]
    exact ((Grown.refl hsound).intern newName).adopt (by simp)
      ⟨rfl, _, rfl, hsound.lookup?_intern newName⟩
  · rintro _ ⟨hname, rfl⟩
    simp only [BuildStep.remains, hname]
    exact .refl hsound

variable (hlinked : ∀ body ∈ builder.linked, body.index < builder.nodes.size)
include hlinked

/-- Fresh elements are free, so an enumeration is refused for a name only. -/
theorem enumeration_refused (text : String) (elementNames : List String) :
    Meets builder (Builder.enumeration text elementNames) (fun _ _ => True)
      (builder.Grown · (BuildStep.enumDecl text elementNames).remains) := by
  refine .bind ((Meets.name text).mono ?_ ?_)
  · rintro _ _ ⟨htext, rfl, rfl⟩
    refine .bind ((meets_elements ((Grown.refl hsound).intern text) elementNames).mono ?_ ?_)
    · rintro _ later ⟨hgrown, rfl, hparents⟩
      have hfault : later.adoptionFault? []
          ((List.range' builder.nodes.size elementNames.length).map NodeId.mk) = none := by
        refine adoptionFault?_eq_none
          (.map (fun _ _ heq => NodeId.mk.inj heq) List.nodup_range') (by simp) fun id hid => ?_
        obtain ⟨index, hindex, rfl⟩ := List.mem_map.mp hid
        obtain ⟨hle, hlt⟩ := List.mem_range'_1.mp hindex
        have hsize := hgrown.size
        simp only [List.nil_append, List.length_map] at hsize
        refine ⟨hsize ▸ hlt, ?_, fun hmem => ?_⟩
        · rw [hparents, parentAt, Array.getElem?_eq_none hle, Option.bind_none]
        · rw [hgrown.linked] at hmem
          exact absurd (hlinked _ hmem) (Nat.not_lt.mpr hle)
      refine (Meets.push _ _).mono (fun _ _ _ => trivial) ?_
      rintro _ ⟨hrefused, -⟩
      exact absurd hfault hrefused
    · intro later hgrown
      simpa [BuildStep.remains, htext] using hgrown
  · rintro _ ⟨htext, rfl⟩
    simp only [BuildStep.remains, htext]
    exact .refl hsound

/-- What each of the steps leaves when it is refused. -/
theorem perform_refused (step : BuildStep) :
    Meets builder step.perform (fun _ _ => True) (builder.Grown · step.remains) := by
  cases step with
  | renameTo symbol newName => exact .map (.renameTo_refused hsound symbol newName)
  | dotted path =>
    exact .map ((meets_dotted hsound hlinked path).mono (fun _ _ _ => trivial)
      fun _ hrefused => hrefused.2)
  | enumDecl text elementNames =>
    exact .map (.enumeration_refused hsound hlinked text elementNames)
  | link site body =>
    exact .bind ((Meets.link_refused hsound site body).mono (fun _ _ _ => trivial)
      fun _ hrefused => hrefused)
  | intern text => exact .map (.name_refused hsound text)
  | internedCount => trivial
  | rename | clause | useStmt | importStmt | call | tupleDecl | multiDecl | compound =>
    exact .map (.push_refused hsound _ _)
  | identifier text | dot _ text | variableDecl text | formal text | typeQuery text
  | functionDecl text | recordDecl text | classDecl text | moduleDecl _ text | includeDecl text =>
    exact .map (.pushNamed_refused hsound _ text _)

end Build.Meets

namespace BuildStep

open Builder

variable {builder : Builder}

/-- A step that is refused changes nothing that was there: all nodes stay as they were, no link is
made, and the names that were given out keep their texts. The nodes that it adds, if any, are
those that it had made before it was refused. -/
theorem run_refused (hbuilder : builder.Reachable) {step : BuildStep} {error : BuildError}
    (hrefused : (step.run builder).1 = .error error) :
    let later := (step.run builder).2
    later.bodies = builder.bodies ∧ later.linked = builder.linked ∧
      (∀ name text, builder.names.lookup? name = some text →
        later.names.lookup? name = some text) ∧
      ∃ fresh, later.nodes.toList = builder.nodes.toList ++ fresh ∧
        List.Forall₂ (NodeKind.Reads later.names) (fresh.map Node.kind) step.remains := by
  have hgrown : builder.Grown (step.run builder).2 step.remains := by
    rcases (Meets.perform_refused hbuilder.sound (fun _ => hbuilder.linked_lt) step).run_cases with
      ⟨answer, later, hrun, -⟩ | ⟨error, later, hrun, hgrown⟩
    · exact absurd (hrefused.symm.trans (congrArg Prod.fst hrun)) nofun
    · rwa [show step.run builder = (.error error, later) from hrun]
  obtain ⟨fresh, hfresh⟩ := hgrown.kept
  refine ⟨hgrown.bodies, hgrown.linked, hgrown.names, fresh, hfresh.symm, ?_⟩
  have hreads := hgrown.fresh
  rwa [← hfresh, List.map_append, List.drop_left' (by simp)] at hreads

/-- An enumeration that is refused for its third element leaves the two elements before it. -/
theorem run_refused_enumeration :
    let builder := ((BuildStep.variableDecl "x" none).run (ofNames .initial)).2
    let step := BuildStep.enumDecl "E" ["red", "green", "1", "blue"]
    builder.Reachable ∧ (step.run builder).1 = .error (.invalidIdentifier "1") ∧
      ∃ fresh, (step.run builder).2.nodes.toList = builder.nodes.toList ++ fresh ∧
        List.Forall₂ (NodeKind.Reads (step.run builder).2.names) (fresh.map Node.kind)
          [(.enumElement, "red"), (.enumElement, "green")] := by
  intro builder step
  have hbuilder : builder.Reachable := (Reachable.start []).step _
  have hrefused : (step.run builder).1 = .error (.invalidIdentifier "1") := by decide +kernel
  have hremains : step.remains = [(.enumElement, "red"), (.enumElement, "green")] := by
    decide +kernel
  obtain ⟨-, -, -, hfresh⟩ := run_refused hbuilder hrefused
  rw [hremains] at hfresh
  exact ⟨hbuilder, hrefused, hfresh⟩

end BuildStep

end Scoping
