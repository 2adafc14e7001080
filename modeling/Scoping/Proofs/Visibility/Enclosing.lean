import Scoping.Proofs.Visibility.Parts

/-!
Where `this` and `super` lead. Both depend only on the module that a scope lies in: `this` is
that module. In the scope of the module itself `super` is the module around it, which there
is none of at the top of the tree. Further inside, the scope around is still within the
module, so `super` is that module as well.
-/

namespace Scoping

open Context Resolve

namespace Context

/-- The modules around a scope: the nearest one at or above it, which every scope of a node
has, and the nearest one strictly above that. -/
structure Housed (program : Program) (context : Context) (id home : ScopeId)
    (upper? : Option ScopeId) : Prop where
  outward : ∃ inside outside, context.outward id = inside ++ home :: outside ∧
    (∀ inner ∈ inside, (context.scope inner).isModule = false) ∧
    upper? = context.firstModule? outside
  isModule : (context.scope home).isModule = true
  /-- There is none strictly above a module at the top of the tree, and only there. -/
  owned : ∃ node, context.OwnedBy home (some node) ∧
    program.tree.tag? node = some .moduleDecl ∧ (upper? = none ↔ program.tree.parent? node = none)

/-- The scope that `this` or `super` stands for, by the modules around. -/
def keyword? (id home : ScopeId) (upper? : Option ScopeId) (name : Name) : Option ScopeId :=
  if name = .super ∧ id = home then upper? else some home

variable {program : Program} {context : Context} {id home : ScopeId} {upper? : Option ScopeId}
variable {name : Name}

/-- The module that is searched for from a scope is the nearest, and the one that is searched
for from around it is the next one for a module only. -/
theorem Housed.outset?_eq (hhoused : context.Housed program id home upper?)
    (hkeyword : name = .this ∨ name = .super) :
    context.outset? id name = keyword? id home upper? name := by
  obtain ⟨⟨inside, outside, houtward, hinside, hupper⟩, hmodule, -⟩ := hhoused
  have hnearest : ∀ {before}, before ⊆ inside →
      context.firstModule? (before ++ home :: outside) = some home := by
    intro before hbefore
    refine List.find?_eq_some_iff_append.mpr ⟨hmodule, before, outside, rfl, fun inner hinner => ?_⟩
    rw [hinside inner (hbefore hinner)]
    rfl
  rcases hkeyword with rfl | rfl
  · have hother : Name.this ≠ .super := by decide
    rw [outset?, if_pos rfl, moduleOf?, houtward, hnearest (List.Subset.refl _), keyword?,
      if_neg fun hsame => hother hsame.1]
  · rw [outset?, if_neg (by decide), superOf?]
    cases inside with
    | nil =>
      obtain ⟨rfl, henclosing⟩ := List.cons.inj houtward
      rw [keyword?, if_pos ⟨rfl, rfl⟩, henclosing, hupper]
    | cons inner more =>
      obtain ⟨rfl, henclosing⟩ := List.cons.inj houtward
      have hne : id ≠ home := by
        rintro rfl
        rw [hinside id List.mem_cons_self] at hmodule
        cases hmodule
      rw [keyword?, if_neg fun hsame => hne hsame.2, henclosing]
      exact hnearest (List.subset_cons_self _ _)

/-- Every scope of a node lies in a module. -/
theorem Sound.exists_housed (hsound : context.Sound program) (hforest : program.tree.IsForest)
    (hinner : context.Inner id) : ∃ home upper?, context.Housed program id home upper? := by
  obtain ⟨node, howned⟩ := hinner
  have hroot : id ≠ ⟨0⟩ := fun hroot => by
    have hnone := (hsound.owner_eq_none_iff howned.1).mpr hroot
    rw [howned.2] at hnone
    cases hnone
  obtain ⟨home, hhome⟩ :=
    Option.isSome_iff_exists.mp (hsound.moduleOf?_isSome hforest howned.1 hroot)
  have hmodule := isModule_of_firstModule? hhome
  obtain ⟨owner, hhomeOwned⟩ := hsound.inner_of_moduleOf? howned.1 hhome
  obtain ⟨-, inside, outside, houtward, hinside⟩ := List.find?_eq_some_iff_append.mp hhome
  have hsuper : context.superOf? home = context.firstModule? outside := by
    rw [superOf?, (List.cons.inj (hsound.outward_of_append howned.1 houtward)).2]
  refine ⟨home, context.firstModule? outside,
    ⟨inside, outside, houtward, fun inner hmem => by simpa using hinside inner hmem, rfl⟩, hmodule,
    owner, hhomeOwned, ?_, ?_⟩
  · rw [hsound.isModule_eq hhomeOwned] at hmodule
    exact beq_iff_eq.mp hmodule
  · rw [← hsuper, hsound.superOf?_eq_none_iff hforest hhomeOwned]

end Context

namespace Program

variable {program : Program} {context : Context} {id : ScopeId} {clauses part : List Clause}
variable {written : WrittenClause} {path : Path} {name : Name}

/-- What comes of a clause whose path begins with `this` or `super`, by the scope that this
stands for. -/
inductive SetOut (program : Program) (context : Context) (id : ScopeId) (clauses : List Clause)
    (written : WrittenClause) (path : Path) (name : Name) (part : List Clause) :
    Option ScopeId → Prop
  /-- Where it stands for none it is reported as unresolved, and nothing else is. -/
  | unresolved (hpart : part = [])
    (herrors : context.errorsWithin program.tree written.site =
      [.unresolvedTarget path.head written.stmt]) :
    SetOut program context id clauses written path name part none
  /-- Otherwise nothing is reported of it, and it is the target unless fields follow. Those
  are looked for from there, in view of clauses before. -/
  | resolved {start : ScopeId} {fuel : Nat} {before : Context} {earlier : List Clause}
    {reached? : Option (ScopeId × Name)} {last : Context}
    (hsilent : ∀ error ∈ context.errors, error.node ≠ path.head)
    (hbare : path.fields = [] → program.made written start = some part)
    (hbefore : before.scopes.toList <+: context.scopes.toList) (hearlier : earlier <+: clauses)
    (hfields : program.resolveFields
      (program.findWithin (program.resolveVisibility fuel) id earlier) written.stmt (start, name)
      path.fields before = some (reached?, last))
    (hlost : reached? = none → part = [])
    (hreached : ∀ reached, reached? = some reached → program.made written reached.1 = some part) :
    SetOut program context id clauses written path name part (some start)

/-- What a clause has come to tells what `this` or `super` stood for. -/
theorem setOut_of_settles (hformed : program.tree.WellFormed) (hsound : context.Sound program)
    {owner : NodeId} (howned : context.OwnedBy id (some owner))
    (hmem : written ∈ program.tree.writtenClauses owner)
    (hsettles : context.Settles program clauses written part)
    (hsets : program.SetsOut written path name) :
    program.SetOut context id clauses written path name part (context.outset? id name) := by
  obtain ⟨-, id', owner', fuel, before, earlier, hmem', howned', hscopes, hearlier, hdeparts⟩ :=
    hsettles
  -- the clause stands in one node only, so this was its scope
  obtain rfl : owner = owner' := hformed.eq_of_site hmem hmem' rfl
  obtain rfl : id = id' := hsound.eq_of_ownedBy howned (howned'.of_prefix hscopes)
  obtain ⟨hrefused, hsilent, hfollows⟩ := hdeparts path name hsets
  have hwithin : program.tree.Within written.site path.head := by
    have hpath := hsets.isPath
    rw [pathOf?_eq] at hpath
    obtain ⟨expr, hexpr, rfl⟩ := Option.map_eq_some_iff.mp hpath
    exact within_site_of_onChain hmem hexpr (program.tree.path_onChain expr).1
  rw [hsound.outset?_kept hscopes howned'.1]
  cases hstart : before.outset? id name with
  | none => exact .unresolved (hrefused hstart).1 (hrefused hstart).2
  | some start =>
    obtain ⟨reached?, last, hrun, hlost, hreached⟩ := hfollows start hstart
    refine .resolved (fun error herror hnode => ?_) (fun hbare => ?_) hscopes hearlier hrun hlost
      hreached
    · exact hsilent start hstart error (mem_errorsWithin_iff.mpr ⟨herror, hnode ▸ hwithin⟩) hnode
    · rw [hbare] at hrun
      cases hrun
      exact hreached _ rfl

/-- Whenever the clauses of a scope are asked for, `this` stands for the nearest module at or
above the scope in each of them and is never unresolved. In the scope of a module `super`
stands for the nearest module strictly above, and is reported as unresolved if there is none,
that is, if the module is at the top of the tree. In any other scope it stands for the
nearest module at or above the scope, and is never unresolved. -/
theorem visibility_setOut {tree : Tree} (hfinished : tree.Finished) (hgrounded : tree.Grounded)
    (htree : program.tree = tree) (hreachable : program.Reachable context)
    (hid : context.Has id) :
    ∃ found later, program.visibility id context = some (found, later) ∧
      ∀ owner, later.OwnedBy id (some owner) → ∃ home upper? parts,
        later.Housed program id home upper? ∧ found.getD [] = parts.flatten ∧
        List.Forall₂ (fun written part => ∀ path name, program.SetsOut written path name →
          program.SetOut later id (found.getD []) written path name part
            (keyword? id home upper? name)) (tree.writtenClauses owner) parts := by
  subst htree
  have hforest := hfinished.isForest hgrounded
  obtain ⟨found, later, hrun, hlater, hsettles⟩ :=
    hreachable.visibility_settles hfinished hforest hid
  have hsound := (hlater.settled hforest).sound
  refine ⟨found, later, hrun, fun owner howned => ?_⟩
  obtain ⟨home, upper?, hhoused⟩ := hsound.exists_housed hforest ⟨owner, howned⟩
  obtain ⟨parts, hparts, hflatten⟩ := hsettles owner howned
  refine ⟨home, upper?, parts, hhoused, hflatten,
    ((List.forall₂_and_left _ _).mpr ⟨fun _ hmem => hmem, hparts⟩).imp ?_⟩
  rintro written part ⟨hmem, hpart⟩ path name hsets
  rw [← hhoused.outset?_eq hsets.keyword]
  exact setOut_of_settles hfinished.wellFormed hsound howned hmem hpart hsets

/-- A function in a module in a module, and a function in the outer module, each of which
uses `super`. -/
def nestedSuperTree : Tree :=
  .ofSteps [.identifier "super", .clause ⟨0⟩ .unlimited [], .useStmt .unstated [⟨1⟩],
    .functionDecl "f" [] [⟨2⟩], .moduleDecl false "Inner" [⟨3⟩], .identifier "super",
    .clause ⟨5⟩ .unlimited [], .useStmt .unstated [⟨6⟩], .functionDecl "g" [] [⟨7⟩],
    .moduleDecl false "Outer" [⟨4⟩, ⟨8⟩]]

def nestedSuper : Program := (Session.fresh nestedSuperTree {}).program

/-- The clause of the first function, as it is written. -/
def nestedSuperClause : WrittenClause := ⟨.use, .unstated, ⟨1⟩, ⟨0⟩, .unlimited, []⟩

/-- What is known once the clauses of both functions are asked for. -/
def nestedSuperAsked : Context :=
  (nestedSuper.askAll [.scopeOf ⟨3⟩, .visibility ⟨3⟩, .scopeOf ⟨8⟩, .visibility ⟨4⟩] .empty).getD
    .empty

theorem nestedSuperTree_finished : nestedSuperTree.Finished :=
  Tree.finished_ofSteps (by decide +kernel)

theorem nestedSuper_tree : nestedSuper.tree = nestedSuperTree := tree_fresh nestedSuperTree {}

theorem nestedSuper_known :
    nestedSuperTree.Grounded ∧ nestedSuperTree.writtenClauses ⟨3⟩ = [nestedSuperClause] ∧
      nestedSuper.pathOf? nestedSuperClause = some ⟨⟨0⟩, []⟩ ∧
      nestedSuper.tree.identifier? ⟨0⟩ = some .super ∧
      nestedSuper.askAll [.scopeOf ⟨3⟩, .visibility ⟨3⟩, .scopeOf ⟨8⟩, .visibility ⟨4⟩] .empty =
        some nestedSuperAsked ∧
      nestedSuperAsked.OwnedBy ⟨3⟩ (some ⟨3⟩) ∧ nestedSuperAsked.outset? ⟨3⟩ .this = some ⟨2⟩ ∧
      nestedSuper.visibility ⟨3⟩ nestedSuperAsked =
        some (some (nestedSuperAsked.clausesAt ⟨3⟩), nestedSuperAsked) := by
  decide +kernel

theorem nestedSuper_setsOut : nestedSuper.SetsOut nestedSuperClause ⟨⟨0⟩, []⟩ .super where
  admitted := by simp [WrittenClause.Admitted, nestedSuperClause]
  isPath := nestedSuper_known.2.2.1
  isHead := nestedSuper_known.2.2.2.1
  keyword := .inr rfl

/-- In the inner function `super` is the inner module. -/
theorem nestedSuper_visibility_setOut :
    ∃ found later upper?, nestedSuper.visibility ⟨3⟩ nestedSuperAsked = some (found, later) ∧
      later.Housed nestedSuper ⟨3⟩ ⟨2⟩ upper? ∧
      nestedSuper.made nestedSuperClause ⟨2⟩ = some (found.getD []) ∧
      ∀ error ∈ later.errors, error.node ≠ ⟨0⟩ := by
  obtain ⟨hgrounded, hwritten, -, -, hasked, howned, hthis, hvisibility⟩ := nestedSuper_known
  obtain ⟨found, later, hrun, hparts⟩ := visibility_setOut nestedSuperTree_finished hgrounded
    nestedSuper_tree (.askAll .refl hasked) howned.1
  obtain ⟨rfl, rfl⟩ := Prod.mk.inj (Option.some.inj (hvisibility.symm.trans hrun))
  obtain ⟨home, upper?, parts, hhoused, hflatten, hsets⟩ := hparts ⟨3⟩ howned
  have hhome : keyword? ⟨3⟩ home upper? .this = some home :=
    if_neg fun hkeyword => absurd hkeyword.1 (by decide)
  rw [hhoused.outset?_eq (.inl rfl), hhome] at hthis
  obtain rfl := Option.some.inj hthis
  rw [hwritten] at hsets
  obtain ⟨part, hpart, rfl⟩ := forall₂_singleton_left_iff.mp hsets
  have hsuper : keyword? ⟨3⟩ ⟨2⟩ upper? .super = some ⟨2⟩ := if_neg (by simp)
  have hset := hpart _ _ nestedSuper_setsOut
  rw [hsuper] at hset
  cases hset with
  | resolved hsilent hbare =>
    refine ⟨_, _, upper?, hrun, hhoused, ?_, hsilent⟩
    rw [hbare rfl, hflatten, List.flatten_singleton]

/-- So it is not the module strictly above, which is there, and in the function of the outer
module `super` is resolved though no module is strictly above that. -/
theorem nestedSuper_not_strictly_above :
    nestedSuperTree.Finished ∧ nestedSuperTree.Grounded ∧
      nestedSuper.Reachable nestedSuperAsked ∧
      nestedSuper.SetsOut nestedSuperClause ⟨⟨0⟩, []⟩ .super ∧
      nestedSuperAsked.OwnedBy ⟨3⟩ (some ⟨3⟩) ∧ nestedSuperAsked.moduleOf? ⟨3⟩ = some ⟨2⟩ ∧
      nestedSuperAsked.superOf? ⟨2⟩ = some ⟨1⟩ ∧
      (nestedSuperAsked.clausesAt ⟨3⟩).map Clause.target = [⟨2⟩, ⟨2⟩] ∧
      nestedSuperAsked.moduleOf? ⟨4⟩ = some ⟨1⟩ ∧ nestedSuperAsked.superOf? ⟨1⟩ = none ∧
      (nestedSuperAsked.clausesAt ⟨4⟩).map Clause.target = [⟨1⟩, ⟨1⟩] ∧
      nestedSuperAsked.errors = [] := by
  obtain ⟨hgrounded, -, -, -, hasked, howned, -, -⟩ := nestedSuper_known
  refine ⟨nestedSuperTree_finished, hgrounded, .askAll .refl hasked, nestedSuper_setsOut, howned, ?_⟩
  decide +kernel

end Program

end Scoping
