import Scoping.Proofs.Request

/-!
Which scope a node lies in, told by the tree alone. Climbing from the node, the first
that owns a scope is found; how far scopes have been built when the question is asked,
and what else was asked before, has no part in it.
-/

namespace Scoping

open Context Resolve

theorem Assoc.isEmpty_iff {κ α : Type} [DecidableEq κ] {map : Assoc κ α} :
    map.isEmpty = true ↔ ∀ key, map.get? key = none := by
  obtain ⟨entries⟩ := map
  cases entries with
  | nil => simp [isEmpty, get?]
  | cons entry rest => simpa [isEmpty, get?] using ⟨entry.1, by simp⟩

namespace Tree

/-- Whether a node owns a scope: named forms always do, the other forms that may when
they declare a name or hold a `use` or `import`. -/
def OwnsScope (tree : Tree) (excluded : Option Name) (id : NodeId) : Prop :=
  ∃ tag, tree.tag? id = some tag ∧ tag.mayOpenScope = true ∧
    (tag.opensNamedScope = true ∨
      (∃ name, ((tree.gather id excluded).declared.get? name).isSome = true) ∨
      (tree.gather id excluded).hasImports = true)

/-- The nearest owner of a scope: the node itself, or else that of its parent. An include
with a linked body is replaced by the body, wherever the climb comes to it. At the top no
owner is left, which stands for the root. -/
inductive NearestOwner (tree : Tree) (excluded : Option Name) : NodeId → Option NodeId → Prop
  | owns {id : NodeId} (howns : tree.OwnsScope excluded (tree.standIn id)) :
    NearestOwner tree excluded id (some (tree.standIn id))
  | climbs {id parent : NodeId} {owner : Option NodeId}
    (hcloses : ¬ tree.OwnsScope excluded (tree.standIn id))
    (hparent : tree.parent? (tree.standIn id) = some parent)
    (howner : NearestOwner tree excluded parent owner) : NearestOwner tree excluded id owner
  | top {id : NodeId} (hcloses : ¬ tree.OwnsScope excluded (tree.standIn id))
    (hparent : tree.parent? (tree.standIn id) = none) : NearestOwner tree excluded id none

end Tree

namespace Program

variable {program : Program} {context : Context}

theorem isTrivial_gather_eq_false_iff {id : NodeId} :
    (program.gather id).isTrivial = false ↔
      (∃ name, ((program.gather id).declared.get? name).isSome = true) ∨
        (program.gather id).hasImports = true := by
  rw [Gathered.isTrivial, Bool.and_eq_false_iff, Bool.not_eq_false', ← Bool.not_eq_true,
    Assoc.isEmpty_iff]
  simp [Option.isSome_iff_ne_none]

/-- Where blocks that declare nothing share the scope around them, the nodes that open a
scope are those that own one. -/
theorem opensScope_iff_ownsScope (hshares : program.sharesEmpty = true) (id : NodeId) :
    program.opensScope id = true ↔ program.tree.OwnsScope (some program.tupleRecord) id := by
  unfold opensScope Tree.OwnsScope
  cases htag : program.tree.tag? id with
  | none => simp
  | some tag =>
    simp only [hshares, Bool.not_true, Bool.or_false, Bool.and_eq_true, Bool.or_eq_true,
      Bool.not_eq_true', Option.some.injEq, exists_eq_left']
    rw [isTrivial_gather_eq_false_iff]
    rfl

theorem owner_iff_nearestOwner (hshares : program.sharesEmpty = true) {id : NodeId}
    {owner : Option NodeId} : program.Owner id owner ↔
      program.tree.NearestOwner (some program.tupleRecord) id owner := by
  have hopens := opensScope_iff_ownsScope hshares
  have hcloses : ∀ id, program.opensScope id = false ↔
      ¬ program.tree.OwnsScope (some program.tupleRecord) id := fun id => by
    rw [← hopens, Bool.not_eq_true]
  constructor
  · intro howner
    induction howner with
    | opens howns => exact .owns ((hopens _).mp howns)
    | climbs hnot hparent _ ih => exact .climbs ((hcloses _).mp hnot) hparent ih
    | top hnot hparent => exact .top ((hcloses _).mp hnot) hparent
  · intro howner
    induction howner with
    | owns howns => exact .opens ((hopens _).mpr howns)
    | climbs hnot hparent _ ih => exact .climbs ((hcloses _).mpr hnot) hparent ih
    | top hnot hparent => exact .top ((hcloses _).mpr hnot) hparent

end Program

namespace Asking

/-- The scope of a node of the tree is worked out in the context of the session. -/
theorem scopeOf_run_of_contains (session : Session) {node : NodeId}
    (hnode : session.program.tree.contains node = true) :
    (ExceptT.run (Asking.scopeOf node)).run session =
      (session.program.scopeOf node session.context).map fun result =>
        (.ok result.1, { session with context := result.2 }) := by
  change (ExceptT.run (do
    unless session.program.tree.contains node do throw (.unknownNode node)
    work fun program => program.scopeOf node)).run session = _
  rw [if_pos hnode]
  rfl

/-- A node that is not one of the tree has no scope, and asking for it changes nothing. -/
theorem scopeOf_run_of_not_contains (session : Session) {node : NodeId}
    (hnode : session.program.tree.contains node = false) :
    (ExceptT.run (Asking.scopeOf node)).run session =
      some (.error (.unknownNode node), session) := by
  change (ExceptT.run (do
    unless session.program.tree.contains node do throw (.unknownNode node)
    work fun program => program.scopeOf node)).run session = _
  rw [hnode]
  rfl

end Asking

namespace Program

/-- Asked for again at any later time, scopes are told apart by their owners. -/
theorem eq_iff_of_scopeOf {program : Program} {context : Context}
    (hforest : program.tree.IsForest) (hshares : program.sharesEmpty = true)
    (hsound : context.Sound program) {first second : NodeId} {id id' : ScopeId}
    {middle later last : Context} (hfirst : program.scopeOf first context = some (id, middle))
    (hreaches : program.Reaches middle later)
    (hsecond : program.scopeOf second later = some (id', last)) :
    id = id' ↔ ∃ owner, program.tree.NearestOwner (some program.tupleRecord) first owner ∧
      program.tree.NearestOwner (some program.tupleRecord) second owner := by
  simp only [← owner_iff_nearestOwner hshares]
  obtain ⟨hfound, owner, howner, howned⟩ := (scopeOf_ends hforest hsound first).of_run hfirst
  obtain ⟨hmiddle, hlater⟩ := hreaches.answering hforest (serves_sound hforest) hfound.2
  obtain ⟨hlast, owner', howner', howned'⟩ := (scopeOf_ends hforest hlater second).of_run hsecond
  have hkept := hlast.1.toGrows.ownedBy (hmiddle.ownedBy howned)
  constructor
  · rintro rfl
    obtain rfl : owner = owner' := hkept.2.symm.trans howned'.2
    exact ⟨owner, howner, howner'⟩
  · rintro ⟨common, hcommon, hcommon'⟩
    rw [howner.unique hcommon] at hkept
    rw [howner'.unique hcommon'] at howned'
    exact hlast.2.eq_of_ownedBy hkept howned'

end Program

namespace Session

/-- Whatever was asked before, the scope of a node is that of its nearest owner: there is
one such owner, nodes have the same scope exactly when they have the same owner, and a
node that is not one of the tree is refused. -/
theorem scopeOf_nearestOwner {session : Session} {tree : Tree} (hfinished : tree.Finished)
    (hgrounded : tree.Grounded) (htree : session.program.tree = tree)
    (hshares : session.program.sharesEmpty = true)
    (hreachable : session.program.Reachable session.context) :
    (∀ node, tree.contains node = true → ∃ owner id later,
      (∀ other, tree.NearestOwner (some session.program.tupleRecord) node other ↔
        other = owner) ∧
      (ExceptT.run (Asking.scopeOf node)).run session =
        some (.ok id, { session with context := later }) ∧
      later.OwnedBy id owner) ∧
    (∀ first second, tree.contains first = true → tree.contains second = true →
      ∀ id middle,
        (ExceptT.run (Asking.scopeOf first)).run session = some (.ok id, middle) →
        ∀ later, session.program.Reaches middle.context later → ∀ id' last,
          (ExceptT.run (Asking.scopeOf second)).run { session with context := later } =
            some (.ok id', last) →
          (id = id' ↔ ∃ owner, tree.NearestOwner (some session.program.tupleRecord) first owner ∧
            tree.NearestOwner (some session.program.tupleRecord) second owner)) ∧
    ∀ node, tree.contains node = false →
      (ExceptT.run (Asking.scopeOf node)).run session =
        some (.error (.unknownNode node), session) := by
  subst htree
  have hforest := hfinished.isForest hgrounded
  have hsound := (hreachable.settled hforest).sound
  refine ⟨fun node hnode => ?_, fun first second hfirst hsecond id middle hrun later hreaches id'
    last hrun' => ?_, fun node => Asking.scopeOf_run_of_not_contains session⟩
  · obtain ⟨id, later, hrun, -, owner, howner, howned⟩ :=
      Program.scopeOf_ends hforest hsound node
    refine ⟨owner, id, later, fun other => ?_, ?_, howned⟩
    · rw [← Program.owner_iff_nearestOwner hshares]
      exact ⟨fun hother => hother.unique howner, fun heq => heq ▸ howner⟩
    · rw [Asking.scopeOf_run_of_contains session hnode, hrun]
      rfl
  · rw [Asking.scopeOf_run_of_contains session hfirst] at hrun
    rw [Asking.scopeOf_run_of_contains { session with context := later } hsecond] at hrun'
    obtain ⟨⟨_, found⟩, hfound, hpair⟩ := Option.map_eq_some_iff.mp hrun
    obtain ⟨⟨_, found'⟩, hfound', hpair'⟩ := Option.map_eq_some_iff.mp hrun'
    cases hpair
    cases hpair'
    exact Program.eq_iff_of_scopeOf hforest hshares hsound hfound hreaches hfound'

/-- A session about the two modules that use each other, once a scope was asked for. -/
def mutualUse : Session :=
  ⟨Program.mutualUse.tree.names, {}, Program.mutualUse, Program.mutualUseAsked⟩

theorem mutualUse_scopeOf :
    ∃ owner id later,
      (∀ other, mutualUse.program.tree.NearestOwner (some mutualUse.program.tupleRecord) ⟨8⟩ other ↔
        other = owner) ∧
      (ExceptT.run (Asking.scopeOf ⟨8⟩)).run mutualUse =
        some (.ok id, { mutualUse with context := later }) ∧
      later.OwnedBy id owner :=
  (scopeOf_nearestOwner Program.mutualUse_finished Program.mutualUse_grounded
    (show mutualUse.program.tree = Program.mutualUse.tree from rfl) rfl
    Program.mutualUse_reachable).1 ⟨8⟩ (by decide +kernel)

end Session

end Scoping
