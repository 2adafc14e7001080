import Scoping.Proofs.Relabeling.Building
import Scoping.Proofs.Syntax.WellFormed

/-!
How builders grow. Whatever steps are tried, a builder goes with itself: its names are sound
and those in its nodes have been given out. Every step is made of a few operations, and as
long as these adopt fresh nodes only, all nodes that were there before stay as they were.
What a step comes to is told for both of its outcomes, since a refused step keeps what it
had made.
-/

namespace Scoping

namespace Builder

/-- The builders that steps lead to. An interner may be shared, so others may intern texts
between the steps. -/
inductive Reachable : Builder → Prop
  | start (texts : List String) : Reachable (.ofNames (Interner.initial.internAll texts).2)
  | step {builder : Builder} (hbuilder : builder.Reachable) (step : BuildStep) :
    Reachable (step.run builder).2
  | intern {builder : Builder} (hbuilder : builder.Reachable) (text : String) :
    Reachable { builder with names := (builder.names.intern text).2 }

namespace Reachable

variable {builder : Builder}

theorem runAll (hbuilder : builder.Reachable) (steps : List BuildStep) :
    Reachable (BuildStep.runAll steps builder).2 := by
  induction steps generalizing builder with
  | nil => exact hbuilder
  | cons step rest ih => exact ih (hbuilder.step step)

/-- What no operation breaks holds of every builder that steps lead to. -/
theorem holds {holds : Builder → Prop} (hinv : Invariant holds)
    (hstart : ∀ names, holds (.ofNames names)) (hbuilder : builder.Reachable) : holds builder := by
  induction hbuilder with
  | start texts => exact hstart _
  | step _ step ih => exact hinv.perform_keeps step _ ih
  | intern _ text ih => exact hinv.name _ _ ih

theorem formed (hbuilder : builder.Reachable) : builder.Formed :=
  hbuilder.holds formed_invariant formed_empty

/-- A builder goes with itself: its names are sound, and those in its nodes have been given out. -/
theorem alike (hbuilder : builder.Reachable) : builder.Alike builder := by
  induction hbuilder with
  | start texts =>
    have hsound := Interner.sound_initial.internAll texts
    exact ⟨⟨hsound, hsound, fun name text hname => ⟨name, hname⟩⟩, rfl, rfl,
      fun _ _ hnode => (nomatch hnode), fun _ _ => by simp [ofNames]⟩
  | step _ step ih => exact (Build.Agree.perform ih step).alike
  | intern _ text ih => exact ih.intern text

theorem sound (hbuilder : builder.Reachable) : builder.names.Sound := hbuilder.alike.paired.1

/-- Only nodes that are there have been linked. -/
theorem linked_lt (hbuilder : builder.Reachable) {body : NodeId} (hbody : body ∈ builder.linked) :
    body.index < builder.nodes.size := by
  obtain ⟨node, hnode, -⟩ := Option.map_eq_some_iff.mp (hbuilder.formed.linked body hbody)
  exact (Array.getElem?_eq_some_iff.mp hnode).1

end Reachable

/-- A list of nodes can be adopted when it has no repetition and each of its nodes is free. -/
theorem adoptionFault?_eq_none {builder : Builder} {earlier children : List NodeId}
    (hdistinct : children.Nodup) (hearlier : ∀ child ∈ children, child ∉ earlier)
    (hfree : ∀ child ∈ children, child.index < builder.nodes.size ∧
      parentAt builder.nodes child = none ∧ child ∉ builder.linked) :
    builder.adoptionFault? earlier children = none := by
  induction children generalizing earlier with
  | nil => rfl
  | cons child rest ih =>
    obtain ⟨hnew, hrest⟩ := List.nodup_cons.mp hdistinct
    obtain ⟨hchild, hothers⟩ := List.forall_mem_cons.mp hearlier
    obtain ⟨⟨hlt, hparent, hlinked⟩, hfree⟩ := List.forall_mem_cons.mp hfree
    have hnode : builder.nodes[child.index]? = some builder.nodes[child.index] :=
      Array.getElem?_eq_getElem hlt
    have htaken : builder.isTaken child builder.nodes[child.index] = false := by
      rw [parentAt, hnode, Option.bind_some] at hparent
      simp [isTaken, hparent, hlinked]
    rw [adoptionFault?, node?, hnode]
    simp only [htaken, Bool.false_or, List.contains_iff_mem, hchild, if_false]
    refine ih hrest (fun other hother hmem => ?_) hfree
    rcases List.mem_cons.mp hmem with rfl | hmem
    · exact hnew hother
    · exact hothers other hother hmem

/-- Which names have been given out has no say in what can be adopted. -/
theorem adoptionFault?_names (builder : Builder) (names : Interner)
    (earlier children : List NodeId) :
    adoptionFault? { builder with names } earlier children =
      builder.adoptionFault? earlier children := by
  induction children generalizing earlier with
  | nil => rfl
  | cons child rest ih =>
    rw [adoptionFault?, adoptionFault?, ih]
    rfl

/-- Adoption adds one kind at the end and changes none. -/
theorem map_kind_adopt (builder : Builder) (kind : NodeKind) (children : List NodeId) :
    (builder.adopt kind children).nodes.toList.map Node.kind =
      builder.nodes.toList.map Node.kind ++ [kind] := by
  refine List.ext_getElem? fun index => ?_
  rw [List.getElem?_map, Array.getElem?_toList]
  by_cases hlt : index < builder.nodes.size
  · rw [map_adopt Node.kind (fun _ _ => rfl) builder kind children hlt,
      List.getElem?_append_left (by simpa using hlt), List.getElem?_map, Array.getElem?_toList]
  · rw [getElem?_adopt, List.getElem?_append_right (by simpa using hlt)]
    by_cases heq : index = builder.nodes.size
    · simp [heq]
    · rw [if_neg heq, Array.getElem?_eq_none (Nat.le_of_not_lt hlt)]
      simp only [Option.map_none, ite_self, List.length_map, Array.length_toList]
      exact (List.getElem?_eq_none (by simp; omega)).symm

/-- What adopts only nodes that come after some others leaves those as they were. -/
theorem prefix_adopt {builder : Builder} {old : List Node} (hold : old <+: builder.nodes.toList)
    (kind : NodeKind) {children : List NodeId}
    (hfresh : ∀ child ∈ children, old.length ≤ child.index) :
    old <+: (builder.adopt kind children).nodes.toList := by
  rw [List.prefix_iff_getElem?] at hold ⊢
  intro index hindex
  have hread := hold index hindex
  rw [Array.getElem?_toList] at hread ⊢
  have hne : index ≠ builder.nodes.size := fun heq => by simp [heq] at hread
  have hchild : (⟨index⟩ : NodeId) ∉ children := fun hmem =>
    absurd (hfresh _ hmem) (Nat.not_le_of_lt hindex)
  rw [getElem?_adopt, if_neg hne, if_neg hchild, hread]

end Builder

/-- Whether a kind has a tag and one name, which reads as a text. -/
structure NodeKind.Reads (names : Interner) (kind : NodeKind) (form : Tag × String) : Prop where
  tag : kind.tag = form.1
  name : ∃ name, kind.names = [name] ∧ names.lookup? name = some form.2

namespace Builder

/-- What a builder has become when fresh nodes of some forms were added and nothing that was
there was touched. -/
structure Grown (builder later : Builder) (forms : List (Tag × String)) : Prop where
  bodies : later.bodies = builder.bodies
  linked : later.linked = builder.linked
  sound : later.names.Sound
  names : later.names.Extends builder.names
  kept : builder.nodes.toList <+: later.nodes.toList
  fresh : List.Forall₂ (NodeKind.Reads later.names)
    ((later.nodes.toList.map Node.kind).drop builder.nodes.size) forms

namespace Grown

variable {builder later : Builder} {forms : List (Tag × String)}

theorem refl (hsound : builder.names.Sound) : builder.Grown builder [] :=
  ⟨rfl, rfl, hsound, .refl _, List.prefix_rfl, by simp⟩

theorem le_size (hgrown : builder.Grown later forms) : builder.nodes.size ≤ later.nodes.size := by
  simpa using hgrown.kept.length_le

theorem size (hgrown : builder.Grown later forms) :
    later.nodes.size = builder.nodes.size + forms.length := by
  have hlength := hgrown.fresh.length_eq
  have hle := hgrown.le_size
  simp only [List.length_drop, List.length_map, Array.length_toList] at hlength
  omega

theorem intern (hgrown : builder.Grown later forms) (text : String) :
    builder.Grown { later with names := (later.names.intern text).2 } forms where
  bodies := hgrown.bodies
  linked := hgrown.linked
  sound := hgrown.sound.intern text
  names := (later.names.extends_intern text).trans hgrown.names
  kept := hgrown.kept
  fresh := hgrown.fresh.imp fun _ _ hreads =>
    ⟨hreads.tag, hreads.name.imp fun name ⟨hnames, hread⟩ =>
      ⟨hnames, later.names.extends_intern text name _ hread⟩⟩

theorem adopt (hgrown : builder.Grown later forms) {kind : NodeKind} {children : List NodeId}
    (hchildren : ∀ child ∈ children, builder.nodes.size ≤ child.index) {form : Tag × String}
    (hreads : kind.Reads later.names form) :
    builder.Grown (later.adopt kind children) (forms ++ [form]) where
  bodies := hgrown.bodies
  linked := hgrown.linked
  sound := hgrown.sound
  names := hgrown.names
  kept := prefix_adopt hgrown.kept kind (by simpa using hchildren)
  fresh := by
    rw [map_kind_adopt, List.drop_append_of_le_length (by simpa using hgrown.le_size)]
    exact List.rel_append hgrown.fresh (.cons hreads .nil)

end Grown

end Builder

namespace Build

/-- What a step comes to: `made` when it succeeds, and `refused` when it does not. -/
def Meets {α : Type} (builder : Builder) (step : Build α) (made : α → Builder → Prop)
    (refused : Builder → Prop) : Prop :=
  match (ExceptT.run step).run builder with
  | (.ok value, later) => made value later
  | (.error _, later) => refused later

namespace Meets

variable {α β : Type} {builder : Builder} {made : α → Builder → Prop} {refused : Builder → Prop}

theorem pure {value : α} (hvalue : made value builder) :
    Meets builder (Pure.pure value) made refused := hvalue

theorem bind {first : Build α} {next : α → Build β} {made' : β → Builder → Prop}
    (hfirst : Meets builder first (fun value later => Meets later (next value) made' refused)
      refused) : Meets builder (first >>= next) made' refused := by
  unfold Meets at hfirst ⊢
  rw [run_bind]
  generalize (ExceptT.run first).run builder = result at hfirst ⊢
  rcases result with ⟨error | value, middle⟩ <;> exact hfirst

theorem mono {step : Build α} {made' : α → Builder → Prop} {refused' : Builder → Prop}
    (hstep : Meets builder step made refused)
    (hmade : ∀ value later, made value later → made' value later)
    (hrefused : ∀ later, refused later → refused' later) : Meets builder step made' refused' := by
  unfold Meets at hstep ⊢
  generalize (ExceptT.run step).run builder = result at hstep ⊢
  rcases result with ⟨error | value, later⟩
  · exact hrefused later hstep
  · exact hmade value later hstep

theorem map {step : Build α} {f : α → β} {made' : β → Builder → Prop}
    (hstep : Meets builder step (fun value later => made' (f value) later) refused) :
    Meets builder (f <$> step) made' refused := by
  rw [map_eq_pure_bind]
  exact .bind hstep

/-- The two ways in which a step can end. -/
theorem run_cases {step : Build α} (hstep : Meets builder step made refused) :
    (∃ value later, (ExceptT.run step).run builder = (.ok value, later) ∧ made value later) ∨
      ∃ error later, (ExceptT.run step).run builder = (.error error, later) ∧ refused later := by
  unfold Meets at hstep
  generalize (ExceptT.run step).run builder = result at hstep ⊢
  rcases result with ⟨error | value, later⟩
  · exact .inr ⟨error, later, rfl, hstep⟩
  · exact .inl ⟨value, later, rfl, hstep⟩

/-- A checked name is given out, or the builder stays as it is. -/
theorem name (text : String) :
    Meets builder (Builder.name text)
      (fun name later => Text.isIdentifier text = true ∧ name = (builder.names.intern text).1 ∧
        later = { builder with names := (builder.names.intern text).2 })
      fun later => Text.isIdentifier text = false ∧ later = builder := by
  unfold Builder.name Meets
  cases Text.isIdentifier text with
  | true => exact ⟨rfl, rfl, rfl⟩
  | false => exact ⟨rfl, rfl⟩

/-- A node is pushed, or the builder stays as it is. -/
theorem push (kind : NodeKind) (children : List NodeId) :
    Meets builder (Builder.push kind children)
      (fun id later => id = ⟨builder.nodes.size⟩ ∧ later = builder.adopt kind children)
      fun later => builder.adoptionFault? [] children ≠ none ∧ later = builder := by
  unfold Builder.push Meets
  rw [run_get_bind]
  cases builder.adoptionFault? [] children with
  | some fault => exact ⟨nofun, rfl⟩
  | none => exact ⟨rfl, rfl⟩

end Meets

/-- Over children that can be adopted a node is added exactly when its name is an identifier. -/
theorem Meets.pushNamed {builder : Builder} (kind : Name → NodeKind) (text : String)
    (children : List NodeId) (hfault : builder.adoptionFault? [] children = none) :
    Meets builder (Builder.pushNamed kind text children)
      (fun id later => Text.isIdentifier text = true ∧ id = ⟨builder.nodes.size⟩ ∧
        later = Builder.adopt { builder with names := (builder.names.intern text).2 }
          (kind (builder.names.intern text).1) children)
      fun later => Text.isIdentifier text = false ∧ later = builder := by
  refine .bind ((Meets.name text).mono ?_ fun _ hrefused => hrefused)
  rintro _ _ ⟨htext, rfl, rfl⟩
  refine (Meets.push _ children).mono ?_ ?_
  · rintro _ _ ⟨rfl, rfl⟩
    exact ⟨htext, rfl, rfl⟩
  · rintro _ ⟨hrefused, -⟩
    exact absurd ((builder.adoptionFault?_names _ [] children).trans hfault) hrefused

end Build

end Scoping
