import Scoping.Proofs.Request

/-!
How the scopes of a context are arranged. Each is the scope of a node of its own, inside
the scope of that node's parent, and declares what the node does; going outward always
meets a module before the root. Whatever refers to a scope refers to one of these.
-/

namespace Scoping

open Context Resolve

namespace Context

/-- Whether every handle that is kept anywhere is one of the context. -/
structure Closed (context : Context) : Prop where
  scopeOf : ∀ node id, context.scopeOf.get? node = some id → context.Has id
  built : ∀ owner id, context.built.get? owner = some id → context.Has id
  autoScope : ∀ id, context.autoScope = some (some id) → context.Has id
  /-- A scope whose clauses are known, or being worked out. -/
  visibility : ∀ id progress, context.visibility.progress? id = some progress → context.Has id
  targets : ∀ id clauses, context.visibility.get? id = some clauses →
    ∀ clause ∈ clauses, context.Has clause.target
  innermost : ∀ id name result, context.innermost.get? (id, name) = some result → context.Has id
  builtPois : ∀ site next link, context.builtPois.get? (site, next) = some link →
    ∀ id ∈ site, context.Has id
  poiOf : ∀ id outer link, context.poiOf.get? (id, outer) = some link → context.Has id
  sites : ∀ link poi, context.poi? link = some poi → ∀ id ∈ poi.site, context.Has id
  enclosing : ∀ id, context.Has id → ∀ outer ∈ (context.scope id).enclosing, context.Has outer

end Context

namespace Program

variable {program : Program} {context : Context}

/-- What is recorded of nearest declarations was recorded before, unless it is what was
asked for. -/
theorem innermost_of_respond (hforest : program.tree.IsForest)
    (hsound : context.Sound program) {request : Request} (hvalid : request.Valid program context)
    {response : Response} {later : Context}
    (hresponse : program.respond request context = some (response, later)) {id : ScopeId}
    {name : Name} {result : InnermostMatch}
    (hknown : later.innermost.get? (id, name) = some result) :
    context.innermost.get? (id, name) = some result ∨ request = .innermost id name := by
  have hserves := serves_sound hforest
  have hsame : ∀ {α : Type} {action : Resolve α} {post : α → Context → Prop} {value : α},
      Ends (Resolving (Context.Sound program)) action context post →
      action context = some (value, later) →
      context.innermost.get? (id, name) = some result := fun hends hrun => by
    rw [← (hends.of_run hrun).1.1.sameInnermost, hknown]
  cases request with
  | rootScope =>
    obtain ⟨root, hrun, -⟩ := map_eq_some_iff.mp hresponse
    exact .inl (hsame ((rootScope_ends hsound).resolving hserves.toUpholds hsound) hrun)
  | scopeOf node =>
    obtain ⟨scope, hrun, -⟩ := map_eq_some_iff.mp hresponse
    exact .inl (hsame ((scopeOf_ends hforest hsound node).resolving hserves.toUpholds hsound) hrun)
  | moduleOf => cases hresponse; exact .inl hknown
  | visibility =>
    obtain ⟨clauses, hrun, -⟩ := map_eq_some_iff.mp hresponse
    exact .inl (hsame (visibility_ends hforest hsound hvalid) hrun)
  | lookup config receiver scope text entered =>
    obtain ⟨found, middle, hrun, hrest⟩ := bind_eq_some_iff.mp hresponse
    cases hrest
    exact .inl
      (hsame (lookupSharing_ends hforest hserves hsound hvalid.1 hvalid.2 config text entered) hrun)
  | innermost scope text =>
    obtain ⟨found, hrun, -⟩ := map_eq_some_iff.mp hresponse
    have hothers := ((innermost_ends hforest hserves hsound hvalid text).of_run hrun).2.2.2
    by_cases heq : (id, name) = (scope, text)
    · obtain ⟨rfl, rfl⟩ := Prod.mk.inj heq
      exact .inr rfl
    · exact .inl (by rw [← hothers _ heq, hknown])
  | seesWhole =>
    obtain ⟨flag, hrun, -⟩ := map_eq_some_iff.mp hresponse
    exact .inl (hsame (seesWhole_ends hserves hsound hvalid.2) hrun)
  | instantiation =>
    obtain ⟨link, hrun, -⟩ := map_eq_some_iff.mp hresponse
    exact .inl (by rw [← innermost_of_instantiationPoint hserves hsound hvalid.1 hrun, hknown])

theorem Reachable.has_of_innermost (hforest : program.tree.IsForest)
    (hreachable : program.Reachable context) {id : ScopeId} {name : Name} {result : InnermostMatch}
    (hknown : context.innermost.get? (id, name) = some result) : context.Has id := by
  induction hreachable with
  | refl => cases hknown
  | @asked before after request response hbefore hvalid hresponse ih =>
    have hsound := (Reachable.settled hforest hbefore).sound
    have hgrows :=
      ((respond_ends hforest (serves_sound hforest) hsound hvalid).of_run hresponse).1.1
    rcases innermost_of_respond hforest hsound hvalid hresponse hknown with hold | rfl
    · exact hgrows.has (ih hold)
    · exact hgrows.has hvalid

/-- Every handle that is kept anywhere is one of the context. -/
theorem Reachable.closed (hforest : program.tree.IsForest)
    (hreachable : program.Reachable context) : context.Closed := by
  have hsound := (hreachable.settled hforest).sound
  have hlinked := hreachable.linked hforest
  refine
    { scopeOf := fun node id hknown => ?_
      built := fun owner id hknown => ((hsound.built owner id).mp hknown).1
      autoScope := fun id hknown => ?_
      visibility := fun id progress hknown => (hsound.asked id (by rw [hknown]; rfl)).1
      targets := fun id clauses hknown clause hclause =>
        (hsound.fits id clauses hknown clause hclause).target
      innermost := fun id name result hknown => hreachable.has_of_innermost hforest hknown
      builtPois := fun site next link hknown id hid => ?_
      poiOf := fun id outer link hknown => (hlinked.collapsed id outer link hknown).has
      sites := fun link poi hpoi id hid => ?_
      enclosing := fun id hid outer houter => hsound.has_of_enclosing hid houter }
  · obtain ⟨owner, -, howned⟩ := hsound.scopeOf node id hknown
    exact howned.1
  · obtain ⟨node, owner, -, -, howned⟩ := hsound.autoScope _ hknown
    exact howned.1
  · obtain ⟨hlink, rfl, -⟩ := hlinked.built site next link hknown
    exact hlinked.sites link hlink id hid
  · have hlink : context.HasLink link := (Array.getElem?_eq_some_iff.mp hpoi).1
    refine hlinked.sites link hlink id ?_
    rwa [Context.poi, hpoi]

/-- Whether a scope is what the tree makes of a node, inside the scope of its parent. -/
structure Reflects (program : Program) (context : Context) (id : ScopeId) (node : NodeId) :
    Prop where
  tag : (context.scope id).tag = program.tree.tag? node
  declared : (context.scope id).declared =
    (program.tree.gather node (some program.tupleRecord)).declared
  hasImports : (context.scope id).hasImports =
    (program.tree.gather node (some program.tupleRecord)).hasImports
  hasFunctions : (context.scope id).hasFunctions =
    (program.tree.gather node (some program.tupleRecord)).hasFunctions
  /-- Modules see the automatic module, unless they are or lie inside an internal one. -/
  autoUses : (context.scope id).autoUses = true ↔
    program.tree.tag? node = some .moduleDecl ∧ ¬ ∃ steps above,
      program.tree.ancestor? steps node = some above ∧ program.tree.isInternalModule above = true
  around : ∃ parent, (context.scope id).parent? = some parent ∧ parent.index < id.index ∧
    (context.scope id).enclosing = context.outward parent ∧
    match program.tree.parent? node with
    | some above => ∃ later, program.scopeOf above context = some (parent, later)
    | none => parent = ⟨0⟩

/-- The arrangement of the scopes of a context. -/
structure Arranged (program : Program) (context : Context) : Prop where
  root : context.scopeCount ≠ 0 → context.scope? ⟨0⟩ = some (.root program.builtins)
  owner : ∀ id, context.Has id → ((context.scope id).owner = none ↔ id = ⟨0⟩)
  parent : ∀ id, context.Has id → ((context.scope id).parent? = none ↔ id = ⟨0⟩)
  owners : ∀ first second, context.Has first → context.Has second →
    (context.scope first).owner = (context.scope second).owner → first = second
  reflects : ∀ id node, context.Has id → (context.scope id).owner = some node →
    program.Reflects context id node
  modules : ∀ id, context.Has id → id ≠ ⟨0⟩ → (context.moduleOf? id).isSome = true
  closed : context.Closed
  count : context.scopeCount ≤ program.tree.size + 1

end Program

namespace Context.Sound

variable {program : Program} {context : Context} (hsound : context.Sound program)
include hsound

theorem owner_eq_none_iff {id : ScopeId} (hid : context.Has id) :
    (context.scope id).owner = none ↔ id = ⟨0⟩ := by
  have hroot := hsound.root_of_has hid
  constructor
  · exact fun hnone => hsound.eq_of_ownedBy ⟨hid, hnone⟩ hroot
  · rintro rfl
    exact hroot.2

theorem parent?_eq_none_iff {id : ScopeId} (hid : context.Has id) :
    (context.scope id).parent? = none ↔ id = ⟨0⟩ := by
  rw [← hsound.owner_eq_none_iff hid]
  have hshapes := hsound.shapes id hid
  generalize context.scope id = scope at hshapes
  cases hshapes with
  | root => simp [Scope.root, Scope.parent?]
  | inner => simp [Program.scopeFor, Scope.parent?, outward]

/-- The scope around a node's is that of the node's parent, or the root. -/
theorem scopeOf_of_around (hforest : program.tree.IsForest) {node : NodeId} {parent : ScopeId}
    {around : Option NodeId} (haround : program.Around node around)
    (howned : context.OwnedBy parent around) :
    match program.tree.parent? node with
    | some above => ∃ later, program.scopeOf above context = some (parent, later)
    | none => parent = ⟨0⟩ := by
  unfold Program.Around at haround
  cases habove : program.tree.parent? node with
  | none =>
    rw [habove] at haround
    exact (hsound.owner_eq_none_iff howned.1).mp (howned.2.trans haround)
  | some above =>
    rw [habove] at haround
    obtain ⟨scope, later, hrun, hbuilding, owner, howner, hscope⟩ :=
      Program.scopeOf_ends hforest hsound above
    obtain rfl : owner = around := howner.unique haround
    obtain rfl : scope = parent :=
      hbuilding.2.eq_of_ownedBy hscope (hbuilding.1.toGrows.ownedBy howned)
    exact ⟨later, hrun⟩

theorem reflects (hforest : program.tree.IsForest) {id : ScopeId} {node : NodeId}
    (howned : context.OwnedBy id (some node)) : program.Reflects context id node := by
  obtain ⟨-, parent, _, hparent, haround, hparentOwned, hscope⟩ :=
    hsound.scope_of_ownedBy_some howned
  have hauto : (program.scopeFor node (context.outward parent)).autoUses = true ↔
      program.tree.tag? node = some .moduleDecl ∧ ¬ ∃ steps above,
        program.tree.ancestor? steps node = some above ∧
          program.tree.isInternalModule above = true := by
    rw [← Tree.isInInternalModule_iff (hforest.climbs node)]
    simp [Program.scopeFor]
  exact
    { tag := by rw [hscope]; rfl
      declared := by rw [hscope]; rfl
      hasImports := by rw [hscope]; rfl
      hasFunctions := by rw [hscope]; rfl
      autoUses := by rw [hscope]; exact hauto
      around := by
        rw [hscope]
        exact ⟨parent, rfl, hparent, rfl,
          hsound.scopeOf_of_around hforest haround hparentOwned⟩ }

/-- The scope around a node's is the root for what is at the top of the tree only. -/
theorem eq_root_of_around_iff (hforest : program.tree.IsForest) {node : NodeId} {parent : ScopeId}
    {around : Option NodeId} (haround : program.Around node around)
    (howned : context.OwnedBy parent around) : parent = ⟨0⟩ ↔ program.tree.parent? node = none := by
  rw [← hsound.owner_eq_none_iff howned.1, howned.2]
  unfold Program.Around at haround
  cases habove : program.tree.parent? node with
  | none =>
    rw [habove] at haround
    exact iff_of_true haround rfl
  | some above =>
    rw [habove] at haround
    obtain ⟨owner, rfl⟩ := haround.exists_of_contains hforest (hforest.parents _ _ habove)
    exact iff_of_false (Option.some_ne_none _) (Option.some_ne_none _)

/-- Going outward from any scope but the root meets a module: what is at the top of the
tree is one. -/
theorem moduleOf?_isSome (hforest : program.tree.IsForest) {id : ScopeId} (hid : context.Has id)
    (hinner : id ≠ ⟨0⟩) : (context.moduleOf? id).isSome = true := by
  obtain ⟨index⟩ := id
  induction index using Nat.strong_induction_on with
  | _ index ih =>
    by_cases hmodule : (context.scope ⟨index⟩).isModule = true
    · simp [moduleOf?, firstModule?, outward, hmodule]
    have hshapes := hsound.shapes ⟨index⟩ hid
    have howner := mt (hsound.owner_eq_none_iff hid).mp hinner
    generalize hscope : context.scope ⟨index⟩ = scope at hshapes howner hmodule
    cases hshapes with
    | root => exact absurd rfl howner
    | @inner owner parent around hopens hparent haround howned =>
      have hcontains : program.tree.contains owner = true :=
        decide_eq_true (Program.contains_of_opensScope hopens)
      have hout : context.moduleOf? ⟨index⟩ = context.moduleOf? parent := by
        rw [moduleOf?, firstModule?, outward, hscope, List.find?_cons_of_neg (by rwa [hscope])]
        rfl
      rw [hout]
      -- the root would be around an owner without parent, and that is a module
      refine ih parent.index hparent howned.1 fun hroot => hmodule ?_
      have htag := hforest.tops owner hcontains
        ((hsound.eq_root_of_around_iff hforest haround howned).mp hroot)
      simp [Program.scopeFor, Scope.isModule, htag]

/-- There is a module further out than any scope of a node with a parent. -/
theorem superOf?_eq_none_iff (hforest : program.tree.IsForest) {id : ScopeId} {node : NodeId}
    (howned : context.OwnedBy id (some node)) :
    context.superOf? id = none ↔ program.tree.parent? node = none := by
  obtain ⟨-, parent, _, -, haround, hparentOwned, hscope⟩ := hsound.scope_of_ownedBy_some howned
  have hout : context.superOf? id = context.moduleOf? parent := by
    rw [superOf?, hscope]
    rfl
  rw [hout, ← hsound.eq_root_of_around_iff hforest haround hparentOwned]
  constructor
  · intro hnone
    by_contra hinner
    have hsome := hsound.moduleOf?_isSome hforest hparentOwned.1 hinner
    rw [hnone] at hsome
    cases hsome
  · rintro rfl
    have hroot := hsound.scope_of_ownedBy_none (hsound.root_of_has hparentOwned.1)
    simp [moduleOf?, firstModule?, outward, hroot, Scope.root, Scope.isModule]

end Context.Sound

namespace Program

variable {program : Program} {context : Context}

/-- Whatever was asked about a finished tree whose chains of parents end, the scopes are
arranged as the tree is. -/
theorem arranged_of_reachable {tree : Tree} (hfinished : tree.Finished) (hgrounded : tree.Grounded)
    (htree : program.tree = tree) (hreachable : program.Reachable context) :
    program.Arranged context := by
  have hforest : program.tree.IsForest := htree ▸ hfinished.isForest hgrounded
  have hsound := (hreachable.settled hforest).sound
  refine
    { root := fun hsome => ?_
      owner := fun id hid => hsound.owner_eq_none_iff hid
      parent := fun id hid => hsound.parent?_eq_none_iff hid
      owners := fun first second hfirst hsecond => hsound.eq_of_owner hfirst hsecond
      reflects := fun id node hid howner => hsound.reflects hforest ⟨hid, howner⟩
      modules := fun id hid hinner => hsound.moduleOf?_isSome hforest hid hinner
      closed := hreachable.closed hforest
      count := hsound.scopes_size_le }
  have hfirst : context.Has ⟨0⟩ := Nat.pos_of_ne_zero hsome
  rw [hfirst.scope?, hsound.scope_of_ownedBy_none (hsound.root_of_has hfirst)]

theorem mutualUse_arranged : mutualUse.Arranged mutualUseAsked :=
  arranged_of_reachable mutualUse_finished mutualUse_grounded rfl mutualUse_reachable

end Program

end Scoping
