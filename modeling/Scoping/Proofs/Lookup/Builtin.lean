import Scoping.Proofs.Declaring
import Scoping.Proofs.Lookup.Inspecting

/-!
Built-in types are found from everywhere, after all that is found otherwise. Clauses and
the automatic module lead to scopes of nodes only, so the root scope is entered when a
lookup comes to it at the end of its climb, under the name that it was given.
-/

namespace Scoping

open Context Resolve

namespace World

variable {world : World} {entered entered' : List ScopeId} {found : List Overloads}

/-- A walk through two stacks goes through the first one first. -/
theorem Walks.split {first second : List Source}
    (hwalk : world.Walks entered (first ++ second) found entered' []) :
    ∃ middle left right, found = left ++ right ∧ world.Walks entered first left middle [] ∧
      world.Walks middle second right entered' [] := by
  generalize hpending : first ++ second = pending at hwalk
  generalize hend : ([] : List Source) = pending' at hwalk
  induction hwalk generalizing first with
  | refl entered pending =>
    subst hend
    obtain ⟨rfl, rfl⟩ := List.append_eq_nil_iff.mp hpending
    exact ⟨entered, [], [], rfl, .refl _ _, .refl _ _⟩
  | @set entered entered' pending pending' found overloads hrest ih =>
    subst hend
    cases first with
    | nil =>
      obtain rfl : second = .set overloads :: pending := hpending
      exact ⟨entered, [], overloads :: found, rfl, .refl _ _, .set hrest⟩
    | cons source first =>
      obtain ⟨rfl, htail⟩ := List.cons.inj hpending
      obtain ⟨middle, left, right, rfl, hleft, hright⟩ := ih htail rfl
      exact ⟨middle, overloads :: left, right, rfl, .set hleft, hright⟩
  | @seen entered entered' pending pending' found decls imports id name hid hrest ih =>
    subst hend
    cases first with
    | nil =>
      obtain rfl : second = .scope decls imports id name :: pending := hpending
      exact ⟨entered, [], found, rfl, .refl _ _, .seen hid hrest⟩
    | cons source first =>
      obtain ⟨rfl, htail⟩ := List.cons.inj hpending
      obtain ⟨middle, left, right, rfl, hleft, hright⟩ := ih htail rfl
      exact ⟨middle, left, right, rfl, .seen hid hleft, hright⟩
  | @enter entered entered' pending pending' found decls imports id name hid hrest ih =>
    subst hend
    cases first with
    | nil =>
      obtain rfl : second = .scope decls imports id name :: pending := hpending
      exact ⟨entered, [], found, rfl, .refl _ _, .enter hid hrest⟩
    | cons source first =>
      obtain ⟨rfl, htail⟩ := List.cons.inj hpending
      obtain ⟨middle, left, right, rfl, hleft, hright⟩ :=
        @ih (world.sources decls imports id name ++ first)
          ((List.append_assoc _ _ _).trans (congrArg _ htail)) rfl
      exact ⟨middle, left, right, rfl, .enter hid hleft, hright⟩

/-- Coming back to scopes that were entered finds nothing. -/
theorem Walks.eq_nil_of_seen {pending pending' : List Source}
    (hwalk : world.Walks entered pending found entered' pending')
    (hseen : ∀ source ∈ pending, ∃ decls imports id name,
      source = .scope decls imports id name ∧ id ∈ entered) : found = [] := by
  induction hwalk with
  | refl => rfl
  | set =>
    obtain ⟨_, _, _, _, heq, -⟩ := hseen _ List.mem_cons_self
    cases heq
  | seen _ _ ih => exact ih (List.forall_mem_cons.mp hseen).2
  | enter hid =>
    obtain ⟨_, _, _, _, heq, hmem⟩ := hseen _ List.mem_cons_self
    cases heq
    exact absurd hmem hid

end World

namespace Context

/-- The last scope of a list is gone to only after what is gone to before it. -/
theorem upToModule_append_singleton (context : Context) (ids : List ScopeId) (last : ScopeId) :
    context.upToModule (ids ++ [last]) = context.upToModule ids ∨
      context.upToModule (ids ++ [last]) = context.upToModule ids ++ [last] := by
  induction ids with
  | nil =>
    refine .inr ?_
    rw [List.nil_append, upToModule, upToModule]
    exact ite_self _
  | cons id rest ih =>
    rw [List.cons_append, upToModule, upToModule]
    split
    · exact .inl rfl
    · exact ih.imp (congrArg (id :: ·)) (congrArg (id :: ·))

/-- Whether a source has nothing to do with the root scope. -/
def OffRoot (context : Context) : Source → Prop
  | .set overloads => ∀ decl ∈ overloads.toList, decl.isBuiltin = false
  | .scope _ _ id _ => context.Inner id

variable {program : Program} {context : Context}

/-- The automatic module is a module, so its scope is not the root scope. -/
theorem inner_of_isAuto (hforest : program.tree.IsForest) {auto : ScopeId}
    (hauto : context.IsAuto program (some auto)) : context.Inner auto := by
  obtain ⟨node, owner, htoplevel, howner, howned⟩ := hauto
  have htag := hforest.toplevels _ _ htoplevel
  have hstands : program.tree.standIn node = node := Tree.standIn_of_tag (by simp [htag])
  have hopens : program.opensScope (program.tree.standIn node) = true := by
    simp [hstands, Program.opensScope, htag, Tag.mayOpenScope, Tag.opensNamedScope]
  obtain rfl := howner.unique (.opens hopens)
  exact ⟨_, howned⟩

namespace Sound

variable (hsound : context.Sound program)
include hsound

/-- What has nothing to do with the root scope leads to nothing that has. -/
theorem offRoot_of_opens (hforest : program.tree.IsForest) {source next : Source}
    (hsource : context.OffRoot source) (hopens : (program.atRest context).Opens source next) :
    context.OffRoot next := by
  cases source with
  | set => exact hopens.elim
  | scope decls imports id name =>
    cases next with
    | set overloads =>
      rcases World.declared_or_symbol_of_opens hopens with
        ⟨-, hdeclared⟩ | ⟨-, clause, -, -, owner, -, rfl⟩
      · exact fun decl hdecl => hsound.isBuiltin_eq_false_of_inner hsource hdeclared hdecl
      · exact fun decl hdecl => by rw [List.mem_singleton.mp hdecl]; rfl
    | scope decls' imports' target actual =>
      obtain ⟨-, -, -, hfollows⟩ := hsound.follows_of_opens hopens
      cases hfollows with
      | clause hclause => exact (hsound.fits_of_mem_clausesAt hclause).inner
      | auto _ hauto => exact inner_of_isAuto hforest hauto

/-- Going outward, the root scope comes last, and only then. -/
theorem exists_outward_eq {id : ScopeId} (hid : context.Has id) :
    ∃ inners, context.outward id = inners ++ [⟨0⟩] ∧ ∀ inner ∈ inners, context.Inner inner := by
  obtain ⟨inners, houtward⟩ := List.getLast?_eq_some_iff.mp (hsound.getLast?_outward hid)
  refine ⟨inners, houtward, fun inner hinner => ?_⟩
  have hhas : context.Has inner :=
    hsound.has_of_outward hid (by rw [houtward]; exact List.mem_append_left _ hinner)
  cases howner : (context.scope inner).owner with
  | some node => exact ⟨node, hhas, howner⟩
  | none =>
    -- nothing lies around the root scope, so it is not followed by another scope
    obtain ⟨before, after, rfl⟩ := List.append_of_mem hinner
    rw [List.append_assoc, List.cons_append] at houtward
    have hrest := hsound.outward_of_append hid houtward
    rw [outward, hsound.scope_of_ownedBy_none ⟨hhas, howner⟩] at hrest
    cases after <;> cases hrest

/-- A lookup that climbs comes to the root scope after all other scopes that it climbs to. -/
theorem exists_climb_eq {id : ScopeId} (hid : context.Has id) :
    ∃ inners roots, id :: context.climb id = inners ++ ⟨0⟩ :: roots ∧
      (∀ inner ∈ inners, context.Inner inner) ∧ ∀ root ∈ roots, root = ⟨0⟩ := by
  obtain ⟨inners, houtward, hinners⟩ := hsound.exists_outward_eq hid
  cases inners with
  | nil =>
    obtain ⟨rfl, henclosing⟩ := List.cons.inj houtward
    exact ⟨[], [], by rw [climb, henclosing]; rfl, nofun, nofun⟩
  | cons first rest =>
    obtain ⟨rfl, henclosing⟩ := List.cons.inj houtward
    obtain ⟨hfirst, hrest⟩ := List.forall_mem_cons.mp hinners
    have hnear : ∀ inner ∈ id :: context.upToModule rest, context.Inner inner :=
      List.forall_mem_cons.mpr
        ⟨hfirst, fun inner hinner => hrest inner (mem_of_mem_upToModule hinner)⟩
    have hclimb : context.climb id = context.upToModule (rest ++ [⟨0⟩]) ++ [⟨0⟩] := by
      rw [climb, show (context.scope id).enclosing = rest ++ [⟨0⟩] from henclosing,
        List.getLast?_concat]
      rfl
    rw [hclimb]
    rcases context.upToModule_append_singleton rest ⟨0⟩ with heq | heq
    · exact ⟨id :: context.upToModule rest, [], by rw [heq]; rfl, hnear, nofun⟩
    · refine ⟨id :: context.upToModule rest, [⟨0⟩], ?_, hnear,
        fun root hroot => List.mem_singleton.mp hroot⟩
      rw [heq, List.append_assoc]
      rfl

/-- The root scope leads to the built-in type of a name and to nothing else. -/
theorem sources_root (hroot : context.OwnedBy ⟨0⟩ none) {name : Name}
    (hname : name ∈ program.builtins) :
    (program.atRest context).sources true true ⟨0⟩ name = [.set (.single (.builtin name))] := by
  have hscope := hsound.scope_of_ownedBy_none hroot
  have hclauses : (program.atRest context).clauses ⟨0⟩ = [] :=
    hsound.clausesAt_of_hasImports (by rw [hscope]; rfl)
  have hlookup : ((program.atRest context).scope ⟨0⟩).lookup name = [.single (.builtin name)] := by
    rw [show (program.atRest context).scope ⟨0⟩ = context.scope ⟨0⟩ from rfl, hscope, Scope.lookup,
      Scope.root, DeclTable.get?_ofBuiltins, if_pos hname]
    rfl
  have hauto : (program.atRest context).autoSources ⟨0⟩ name = [] := by
    rw [World.autoSources, show (program.atRest context).scope ⟨0⟩ = context.scope ⟨0⟩ from rfl,
      hscope]
    rfl
  rw [World.sources_eq, hlookup, World.imports, hclauses, hauto]
  rfl

end Sound

end Context

namespace Program

variable {program : Program} {context : Context}

/-- An ordinary lookup of a built-in type, from whatever scope and past whatever modules,
clauses and declarations of that name, finds the built-in type last, in a set of its own;
all it finds before that are nodes. -/
theorem lookup_builtin_last {tree : Tree} (hfinished : tree.Finished) (hgrounded : tree.Grounded)
    (htree : program.tree = tree) (hreachable : program.Reachable context) {id : ScopeId}
    (hid : context.Has id) {name : Name} (hname : name ∈ program.builtins) :
    ∃ others after, program.lookup .allVisible none id name context =
        some (others ++ [.single (.builtin name)], after) ∧
      ∀ overloads ∈ others, ∀ decl ∈ overloads.toList, decl.isBuiltin = false := by
  have hforest : program.tree.IsForest := htree ▸ hfinished.isForest hgrounded
  obtain ⟨found, after, hrun, hchanges, hlooks⟩ := lookup_looks_ends hforest (serves_sound hforest)
    (hreachable.settled hforest).sound hid name
  have hsound := hchanges.2
  have hhas := hchanges.1.toGrows.has hid
  obtain ⟨entered, hwalk⟩ := hlooks after (.refl after) hsound
  obtain ⟨inners, roots, hclimb, hinners, hroots⟩ := hsound.exists_climb_eq hhas
  rw [hclimb, List.map_append, List.map_cons] at hwalk
  obtain ⟨middle, others, last, rfl, hfirst, hsecond⟩ := hwalk.split
  have hstart : ∀ source ∈ inners.map fun outer => Source.scope true true outer name,
      after.OffRoot source := by
    intro source hsource
    obtain ⟨inner, hinner, rfl⟩ := List.mem_map.mp hsource
    exact hinners inner hinner
  obtain ⟨hothers, -⟩ := hfirst.carries hstart fun _ _ _ _ _ hoff _ hnext =>
    hsound.offRoot_of_opens hforest hoff hnext
  have hroot := hsound.root_of_has hhas
  -- so the root scope is entered only now, and what follows are repetitions of it
  have hnew : (⟨0⟩ : ScopeId) ∉ middle := by
    intro hmem
    have hnone : false = true → others = [] := nofun
    obtain ⟨decls, imports, actual, sets, reached, rest, hreaches, -⟩ :=
      hfirst.exists_enters hnone hmem List.not_mem_nil
    obtain ⟨-, hrest⟩ := hreaches.carries hstart fun _ _ _ _ _ hoff _ hnext =>
      hsound.offRoot_of_opens hforest hoff hnext
    obtain ⟨node, howned⟩ := hrest _ List.mem_cons_self
    cases hroot.2.symm.trans howned.2
  cases hsecond with
  | seen hmem _ => exact absurd hmem hnew
  | enter _ hrest =>
    rw [hsound.sources_root hroot hname] at hrest
    cases hrest with
    | set hmore =>
      obtain rfl := hmore.eq_nil_of_seen fun source hsource => by
        obtain ⟨root, hmem, rfl⟩ := List.mem_map.mp hsource
        exact ⟨_, _, _, _, rfl, by rw [hroots root hmem]; exact List.mem_cons_self⟩
      exact ⟨others, after, hrun, hothers⟩

/-- A module that declares a variable `int`, and one that uses it. -/
def shadowing : Program :=
  (Session.fresh (.ofSteps
    [.variableDecl "int" none, .moduleDecl false "M" [⟨0⟩], .identifier "M",
      .clause ⟨2⟩ .unlimited [], .useStmt .unstated [⟨3⟩], .moduleDecl false "N" [⟨4⟩]]) {}).program

/-- What is known once the second module is asked for. -/
def shadowingAsked : Context := (shadowing.askAll [.scopeOf ⟨5⟩] .empty).getD .empty

/-- The variable is found, and then the built-in type. -/
theorem shadowing_lookup_builtin_last :
    let name := (shadowing.tree.declName? ⟨0⟩).getD .this
    ∃ others after, shadowing.lookup .allVisible none ⟨1⟩ name shadowingAsked =
        some (others ++ [.single (.builtin name)], after) ∧
      others = [.single (.node ⟨0⟩)] ∧
      ∀ overloads ∈ others, ∀ decl ∈ overloads.toList, decl.isBuiltin = false := by
  intro name
  have hasked : shadowing.askAll [.scopeOf ⟨5⟩] .empty = some shadowingAsked := by decide +kernel
  obtain ⟨others, after, hrun, hothers⟩ := lookup_builtin_last
    (Tree.finished_ofSteps (by decide +kernel)) (by decide +kernel) rfl (.askAll .refl hasked)
    (show shadowingAsked.Has ⟨1⟩ by decide +kernel) (show name ∈ shadowing.builtins by decide +kernel)
  have hsets : (shadowing.lookup .allVisible none ⟨1⟩ name shadowingAsked).map Prod.fst =
      some ([.single (.node ⟨0⟩)] ++ [.single (.builtin name)]) := by decide +kernel
  rw [hrun] at hsets
  exact ⟨others, after, hrun, List.append_cancel_right (Option.some.inj hsets), hothers⟩

end Program

end Scoping
