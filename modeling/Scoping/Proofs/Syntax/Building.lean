import Mathlib.Tactic
import Scoping.Session

/-!
Invariants of a build. A step may fail and leave fresh nodes behind, so an
invariant has to hold of the builder after every step, whatever its outcome.
Steps touch the nodes only by adoption, so whatever adoption, interning and
linking keep holds after every build.
-/

namespace Scoping

namespace Tag

theorem isInclude_iff {tag : Tag} : tag.isInclude = true ↔ tag = .includeDecl := by
  cases tag <;> simp [isInclude]

theorem isModule_iff {tag : Tag} : tag.isModule = true ↔ tag = .moduleDecl := by
  cases tag <;> simp [isModule]

end Tag

namespace NodeKind

/-- The nodes that a kind names. -/
def operands : NodeKind → List NodeId
  | clause symbol _ limitations => symbol :: limitations
  | dot receiver _ => [receiver]
  | rename symbol renamed => [symbol, renamed]
  | variableDecl _ typeExpr | formal _ typeExpr => typeExpr.toList
  | _ => []

/-- Whether a kind can be pushed over children: an include holds none, and whatever a
kind names is a child, each at its own place. -/
structure Suits (kind : NodeKind) (children : List NodeId) : Prop where
  holds : children ≠ [] → kind.tag ≠ .includeDecl
  operands : kind.operands.Sublist children

@[simp]
theorem suits_iff {kind : NodeKind} {children : List NodeId} :
    kind.Suits children ↔
      (children ≠ [] → kind.tag ≠ .includeDecl) ∧ kind.operands.Sublist children :=
  ⟨fun hsuits => ⟨hsuits.holds, hsuits.operands⟩, fun ⟨hholds, hoperands⟩ => ⟨hholds, hoperands⟩⟩

end NodeKind

namespace Build

/-- A step leaves a builder that has the property with one that has it too,
also when the step fails. -/
def Keeps (holds : Builder → Prop) {α : Type} (step : Build α) : Prop :=
  ∀ builder, holds builder → holds ((ExceptT.run step).run builder).2

variable {holds : Builder → Prop} {α β : Type}

theorem Keeps.pure (value : α) : Keeps holds (pure value) := fun _ hbuilder => hbuilder

/-- How a sequence runs: a failure ends it and keeps the builder as it is then. -/
theorem run_bind (first : Build α) (next : α → Build β) (builder : Builder) :
    (ExceptT.run (first >>= next)).run builder =
      match (ExceptT.run first).run builder with
      | (.ok value, middle) => (ExceptT.run (next value)).run middle
      | (.error error, middle) => (.error error, middle) := by
  rw [ExceptT.run_bind, StateT.run_bind]
  change (let outcome := (ExceptT.run first).run builder; _) = _
  rcases (ExceptT.run first).run builder with ⟨error | value, middle⟩ <;> rfl

theorem Keeps.bind {first : Build α} {next : α → Build β} (hfirst : Keeps holds first)
    (hnext : ∀ value, Keeps holds (next value)) : Keeps holds (first >>= next) := by
  intro builder hbuilder
  have hmiddle := hfirst builder hbuilder
  rw [run_bind]
  rcases hrun : (ExceptT.run first).run builder with ⟨error | value, middle⟩
  · rw [hrun] at hmiddle
    exact hmiddle
  · rw [hrun] at hmiddle
    exact hnext value middle hmiddle

theorem Keeps.map {step : Build α} (hstep : Keeps holds step) (f : α → β) :
    Keeps holds (f <$> step) := by
  rw [map_eq_pure_bind]
  exact hstep.bind fun value => .pure (f value)

theorem run_get_bind (next : Builder → Build α) (builder : Builder) :
    (ExceptT.run (get >>= next)).run builder = (ExceptT.run (next builder)).run builder := rfl

end Build

namespace Builder

theorem getElem?_setParent (nodes : Array Node) (parent child : NodeId) (index : Nat) :
    (setParent nodes parent child)[index]? =
      if child.index = index then nodes[index]?.map fun node => { node with parent := some parent }
      else nodes[index]? := by
  unfold setParent
  cases hchild : nodes[child.index]? with
  | none =>
    by_cases heq : child.index = index
    · rw [if_pos heq, ← heq, hchild, Option.map_none]
    · rw [if_neg heq]
  | some node =>
    dsimp only
    rw [Array.getElem?_setIfInBounds]
    by_cases heq : child.index = index
    · subst heq
      rw [if_pos rfl, if_pos (Array.getElem?_eq_some_iff.mp hchild).1, if_pos rfl, hchild,
        Option.map_some]
    · rw [if_neg heq, if_neg heq]

/-- Setting a parent changes nothing else about a node. -/
theorem map_setParent {α : Type} (view : Node → α)
    (hview : ∀ node parent, view { node with parent } = view node) (nodes : Array Node)
    (parent child : NodeId) (index : Nat) :
    (setParent nodes parent child)[index]?.map view = nodes[index]?.map view := by
  rw [getElem?_setParent]
  split
  · rw [Option.map_map]
    exact congrArg (nodes[index]?.map ·) (funext fun node => hview node _)
  · rfl

/-- Adoption sets the parents of the children and touches no other part of a node. -/
theorem getElem?_foldl_setParent (nodes : Array Node) (parent : NodeId) (children : List NodeId)
    (index : Nat) :
    (children.foldl (fun nodes child => setParent nodes parent child) nodes)[index]? =
      if ⟨index⟩ ∈ children then nodes[index]?.map fun node => { node with parent := some parent }
      else nodes[index]? := by
  induction children generalizing nodes with
  | nil => simp
  | cons child rest ih =>
    rw [List.foldl_cons, ih, getElem?_setParent]
    by_cases hchild : child.index = index
    · subst hchild
      cases nodes[child.index]? <;> simp
    · have hne : (⟨index⟩ : NodeId) ≠ child := fun heq => hchild (heq ▸ rfl)
      simp [hchild, hne]

theorem getElem?_adopt (builder : Builder) (kind : NodeKind) (children : List NodeId)
    (index : Nat) :
    (builder.adopt kind children).nodes[index]? =
      if index = builder.nodes.size then some ⟨⟨index⟩, none, kind, children⟩
      else if ⟨index⟩ ∈ children then
        builder.nodes[index]?.map fun node => { node with parent := some ⟨builder.nodes.size⟩ }
      else builder.nodes[index]? := by
  have hsize := builder.size_adopt kind children
  simp only [adopt, Array.size_push, Nat.add_right_cancel_iff] at hsize
  simp only [adopt, Array.getElem?_push, hsize, getElem?_foldl_setParent]
  by_cases heq : index = builder.nodes.size
  · rw [if_pos heq, if_pos heq, heq]
  · rw [if_neg heq, if_neg heq]

/-- A node after an adoption is the new one, one of the adopted, or as it was. -/
theorem cases_of_getElem?_adopt {builder : Builder} {kind : NodeKind} {children : List NodeId}
    {index : Nat} {node : Node} (hnode : (builder.adopt kind children).nodes[index]? = some node) :
    (index = builder.nodes.size ∧ node = ⟨⟨index⟩, none, kind, children⟩) ∨
      (⟨index⟩ ∈ children ∧ ∃ old, builder.nodes[index]? = some old ∧
        node = { old with parent := some ⟨builder.nodes.size⟩ }) ∨
      builder.nodes[index]? = some node := by
  rw [getElem?_adopt] at hnode
  split at hnode
  · next hindex => exact .inl ⟨hindex, (Option.some.inj hnode).symm⟩
  · split at hnode
    · next hchild =>
      obtain ⟨old, hold, heq⟩ := Option.map_eq_some_iff.mp hnode
      exact .inr (.inl ⟨hchild, old, hold, heq.symm⟩)
    · exact .inr (.inr hnode)

/-- The tag of a node while the tree is built. -/
def tagAt (nodes : Array Node) (id : NodeId) : Option Tag := nodes[id.index]?.map Node.tag

@[simp]
theorem tagAt_setParent (nodes : Array Node) (parent child id : NodeId) :
    tagAt (setParent nodes parent child) id = tagAt nodes id :=
  map_setParent Node.tag (fun _ _ => rfl) nodes parent child id.index

/-- Adoption changes nothing about the nodes that were there but their parents. -/
theorem map_adopt {α : Type} (view : Node → α)
    (hview : ∀ node parent, view { node with parent } = view node) (builder : Builder)
    (kind : NodeKind) (children : List NodeId) {index : Nat} (hlt : index < builder.nodes.size) :
    (builder.adopt kind children).nodes[index]?.map view = builder.nodes[index]?.map view := by
  rw [getElem?_adopt, if_neg (Nat.ne_of_lt hlt)]
  split
  · rw [Option.map_map]
    exact congrArg (builder.nodes[index]?.map ·) (funext fun node => hview node _)
  · rfl

theorem tagAt_adopt_of_lt (builder : Builder) (kind : NodeKind) (children : List NodeId)
    {id : NodeId} (hlt : id.index < builder.nodes.size) :
    tagAt (builder.adopt kind children).nodes id = tagAt builder.nodes id :=
  map_adopt Node.tag (fun _ _ => rfl) builder kind children hlt

open Build

/-- A property of the builder that interning and adoption cannot break. Adopting
children is all that happens to nodes before the end, and the kind that adopts them
suits them. -/
structure Adopting (holds : Builder → Prop) : Prop where
  name : ∀ builder names, holds builder → holds { builder with names }
  adopt : ∀ builder kind children, holds builder →
    builder.adoptionFault? [] children = none →
    kind.Suits children → holds (builder.adopt kind children)

/-- A property of the builder that none of its operations can break. -/
structure Invariant (holds : Builder → Prop) : Prop extends Adopting holds where
  link : ∀ builder site body, holds builder →
    (builder.node? site).map Node.tag = some .includeDecl →
    (∃ node, builder.node? body = some node ∧ node.tag = .moduleDecl ∧
      builder.isTaken body node = false) →
    holds { builder with
      bodies := builder.bodies.insert site body
      linked := body :: builder.linked }

theorem run_tagOf (id : NodeId) (builder : Builder) :
    (ExceptT.run (tagOf id)).run builder =
      (match builder.node? id with
        | some node => .ok node.tag
        | none => .error (.unknownNode id), builder) := by
  change (ExceptT.run (match builder.node? id with
    | some node => pure node.tag
    | none => throw (.unknownNode id) : Build Tag)).run builder = _
  cases builder.node? id <;> rfl

/-- The outcomes of linking: it is refused and changes nothing, or an include
gets a module as its body that has no other place in the tree. -/
theorem run_link (site body : NodeId) (builder : Builder) :
    (∃ error, (ExceptT.run (link site body)).run builder = (.error error, builder)) ∨
      (builder.node? site).map Node.tag = some .includeDecl ∧
      (∃ node, builder.node? body = some node ∧ node.tag = .moduleDecl ∧
        builder.isTaken body node = false) ∧
      (ExceptT.run (link site body)).run builder =
        (.ok (), { builder with
          bodies := builder.bodies.insert site body
          linked := body :: builder.linked }) := by
  unfold link
  rw [run_bind, run_tagOf]
  cases hsite : builder.node? site with
  | none => exact .inl ⟨_, rfl⟩
  | some siteNode =>
    by_cases hinclude : siteNode.tag.isInclude = true
    · simp only [hinclude, if_true]
      rw [run_bind, run_tagOf]
      cases hbody : builder.node? body with
      | none => exact .inl ⟨_, rfl⟩
      | some node =>
        by_cases hmodule : node.tag.isModule = true
        · simp only [hmodule, if_true]
          rw [run_get_bind, hbody]
          by_cases htaken : builder.isTaken body node = true
          · simp only [htaken, if_true]
            exact .inl ⟨_, rfl⟩
          · simp only [htaken]
            exact .inr ⟨by rw [Option.map_some, Tag.isInclude_iff.mp hinclude],
              ⟨node, rfl, Tag.isModule_iff.mp hmodule, by simpa using htaken⟩, rfl⟩
        · simp only [hmodule]
          exact .inl ⟨_, rfl⟩
    · simp only [hinclude]
      exact .inl ⟨_, rfl⟩

namespace Adopting

variable {holds : Builder → Prop} (hadopting : Adopting holds)
include hadopting

theorem name_keeps (text : String) : Keeps holds (Builder.name text) := by
  intro builder hbuilder
  by_cases htext : Text.isIdentifier text = true
  · simp only [Builder.name, htext]
    exact hadopting.name builder _ hbuilder
  · simp only [Builder.name, htext]
    exact hbuilder

theorem push_keeps {kind : NodeKind} {children : List NodeId}
    (hkind : kind.Suits children) : Keeps holds (push kind children) := by
  intro builder hbuilder
  unfold push
  rw [run_get_bind]
  cases hfault : builder.adoptionFault? [] children with
  | some fault => exact hbuilder
  | none => exact hadopting.adopt builder kind children hbuilder hfault hkind

theorem pushNamed_keeps {kind : Name → NodeKind} {children : List NodeId}
    (hkind : ∀ name, (kind name).Suits children) (text : String) :
    Keeps holds (pushNamed kind text children) :=
  (hadopting.name_keeps text).bind fun name => hadopting.push_keeps (hkind name)

theorem dot_keeps (receiver : NodeId) (field : String) : Keeps holds (dot receiver field) :=
  hadopting.pushNamed_keeps (by simp [NodeKind.tag, NodeKind.operands]) field

theorem identifier_keeps (text : String) : Keeps holds (identifier text) :=
  hadopting.pushNamed_keeps (by simp [NodeKind.tag, NodeKind.operands]) text

theorem dots_keeps (receiver : NodeId) (fields : List String) :
    Keeps holds (dots receiver fields) := by
  induction fields generalizing receiver with
  | nil => exact .pure receiver
  | cons field rest ih => exact (hadopting.dot_keeps receiver field).bind ih

theorem dotted_keeps (path : String) : Keeps holds (dotted path) := by
  unfold dotted
  split
  · exact hadopting.identifier_keeps ""
  · exact (hadopting.identifier_keeps _).bind fun first => hadopting.dots_keeps first _

theorem rename_keeps (symbol renamed : NodeId) : Keeps holds (rename symbol renamed) :=
  hadopting.push_keeps (by simp [NodeKind.tag, NodeKind.operands])

theorem elements_keeps (texts : List String) : Keeps holds (elements texts) := by
  induction texts with
  | nil => exact .pure []
  | cons text rest ih =>
    exact (hadopting.pushNamed_keeps (by simp [NodeKind.tag, NodeKind.operands]) text).bind
      fun element => ih.bind fun others => .pure _

theorem enumeration_keeps (text : String) (elementNames : List String) :
    Keeps holds (enumeration text elementNames) :=
  (hadopting.name_keeps text).bind fun _ => (hadopting.elements_keeps elementNames).bind fun _ =>
    hadopting.push_keeps (by simp [NodeKind.tag, NodeKind.operands])

/-- No step but linking breaks the property. -/
theorem perform_keeps (step : BuildStep) (hstep : ∀ site body, step ≠ .link site body) :
    Keeps holds step.perform := by
  cases step with
  | identifier text => exact (hadopting.identifier_keeps text).map _
  | dot receiver field => exact (hadopting.dot_keeps receiver field).map _
  | dotted path => exact (hadopting.dotted_keeps path).map _
  | rename symbol renamed => exact (hadopting.rename_keeps symbol renamed).map _
  | renameTo symbol newName =>
    exact ((hadopting.identifier_keeps newName).bind fun renamed =>
      hadopting.rename_keeps symbol renamed).map _
  | enumDecl text elementNames => exact (hadopting.enumeration_keeps text elementNames).map _
  | link site body => exact absurd rfl (hstep site body)
  | intern text => exact (hadopting.name_keeps text).map _
  | internedCount => exact fun _ hbuilder => hbuilder
  | clause | useStmt | importStmt | call | tupleDecl | multiDecl | compound =>
    exact (hadopting.push_keeps (by simp [NodeKind.tag, NodeKind.operands])).map _
  | variableDecl text | formal text | typeQuery text | functionDecl text | recordDecl text
  | classDecl text | moduleDecl _ text | includeDecl text =>
    exact (hadopting.pushNamed_keeps (by simp [NodeKind.tag, NodeKind.operands]) text).map _

end Adopting

namespace Invariant

variable {holds : Builder → Prop} (hinv : Invariant holds)
include hinv

theorem link_keeps (site body : NodeId) : Keeps holds (Builder.link site body) := by
  intro builder hbuilder
  rcases run_link site body builder with ⟨error, hrun⟩ | ⟨hsite, hbody, hrun⟩
  · rw [hrun]
    exact hbuilder
  · rw [hrun]
    exact hinv.link builder site body hbuilder hsite hbody

/-- No step breaks the invariant. -/
theorem perform_keeps (step : BuildStep) : Keeps holds step.perform := by
  cases step with
  | link site body => exact (hinv.link_keeps site body).bind fun _ => .pure _
  | _ => exact hinv.toAdopting.perform_keeps _ nofun

/-- Whatever holds of the empty builder and survives each operation holds after
every build. -/
theorem runAll_holds (steps : List BuildStep) (builder : Builder) (hbuilder : holds builder) :
    holds (BuildStep.runAll steps builder).2 := by
  induction steps generalizing builder with
  | nil => exact hbuilder
  | cons step rest ih => exact ih _ (hinv.perform_keeps step builder hbuilder)

end Invariant

/-- The parts of a finished tree: the nodes of the builder with linked bodies put in
place, and the modules among them that have no parent. -/
theorem eq_of_finish {builder : Builder} {tree : Tree} (hfinish : builder.finish = .ok tree) :
    placeBodies builder.nodes builder.bodies.entries = .ok tree.nodes ∧
      collectRoots builder.names .empty tree.nodes.toList = .ok tree.roots ∧
      tree.bodies = builder.bodies := by
  unfold finish at hfinish
  cases hplaced : placeBodies builder.nodes builder.bodies.entries with
  | error error =>
    rw [hplaced] at hfinish
    cases hfinish
  | ok nodes =>
    rw [hplaced] at hfinish
    change (collectRoots builder.names .empty nodes.toList >>= _) = _ at hfinish
    cases hroots : collectRoots builder.names .empty nodes.toList with
    | error error =>
      rw [hroots] at hfinish
      cases hfinish
    | ok roots =>
      rw [hroots] at hfinish
      obtain rfl := Except.ok.inj hfinish
      exact ⟨rfl, hroots, rfl⟩

end Builder

end Scoping
