import Scoping.Proofs.Lookup.Inspecting

/-!
A lookup that looks into the automatic module has built the scope of it. Any later
context describes what a lookup yields, so one in which the module has been asked for
does too; had its scope been built only then, the lookup could not have entered it.
-/

namespace Scoping

open Context Resolve

namespace World

variable {world world' : World} {name : Name}

/-- Worlds in which whatever is entered leads to the same are walked through alike. -/
theorem Walks.congr {entered entered' : List ScopeId} {pending pending' : List Source}
    {found : List Overloads} (hwalk : world.Walks entered pending found entered' pending')
    (hsame : ∀ decls imports id name, world.Enters false entered pending decls imports id name →
      world'.Enters false entered pending decls imports id name →
      world.sources decls imports id name = world'.sources decls imports id name) :
    world'.Walks entered pending found entered' pending' := by
  induction hwalk with
  | refl => exact .refl _ _
  | set _ ih =>
    exact .set (ih fun _ _ _ _ henters henters' =>
      hsame _ _ _ _ (henters.set rfl) (henters'.set rfl))
  | seen hid _ ih =>
    exact .seen hid (ih fun _ _ _ _ henters henters' =>
      hsame _ _ _ _ (henters.seen hid) (henters'.seen hid))
  | enter hid _ ih =>
    have hsources := hsame _ _ _ _ (.head hid) (.head hid)
    refine .enter hid (hsources ▸ ih fun _ _ _ _ henters henters' => ?_)
    rw [hsources] at henters'
    exact hsame _ _ _ _ (henters.enter hid) (henters'.enter hid)

/-- Where clauses lead depends on the owners of their targets only. -/
theorem through_congr {clauses : List Clause}
    (howner : ∀ clause ∈ clauses,
      (world.scope clause.target).owner = (world'.scope clause.target).owner) :
    world.through name clauses = world'.through name clauses := by
  induction clauses with
  | nil => rfl
  | cons clause rest ih =>
    obtain ⟨hclause, hrest⟩ := List.forall_mem_cons.mp howner
    rw [through, through, ih hrest, hclause]

/-- A scope that sees the automatic module leads to it, unless a clause ended the search. -/
theorem mem_sources_of_auto {decls : Bool} {id auto : ScopeId} (hauto : world.auto = some auto)
    (huses : (world.scope id).autoUses = true)
    (hopen : (world.through name (world.clauses id)).1 = false) :
    .scope true true auto name ∈ world.sources decls true id name := by
  refine List.mem_append_right _ ?_
  rw [if_pos rfl, world.imports_of_open hopen]
  exact List.mem_append_right _ (world.mem_autoSources_iff.mpr ⟨auto, huses, hauto, rfl⟩)

/-- A scope that does not lead to the automatic module leads to the same where that is
another one, or not known. -/
theorem sources_eq_of_not_mem {decls imports : Bool} {id auto : ScopeId}
    (hauto : world'.auto = some auto)
    (hscope : world.scope id = world'.scope id)
    (hthrough : world.through name (world.clauses id) = world'.through name (world'.clauses id))
    (hnot : .scope true true auto name ∉ world'.sources decls imports id name) :
    world.sources decls imports id name = world'.sources decls imports id name := by
  cases imports with
  | false =>
    rw [sources, sources, hscope]
    rfl
  | true =>
    suffices himports : world.imports id name = world'.imports id name by
      rw [sources, sources, hscope, himports]
    rw [World.imports, World.imports, hthrough]
    cases hclosed : (world'.through name (world'.clauses id)).1 with
    | true => rfl
    | false =>
      have huses : ¬ (world'.scope id).autoUses = true :=
        fun huses => hnot (mem_sources_of_auto hauto huses hclosed)
      rw [autoSources, autoSources, hscope, if_neg huses, if_neg huses]

end World

namespace Context.Sound

variable {program : Program} {context later : Context} {config : LookupConfig} {start : ScopeId}
variable {name : Name} {found : List Overloads} {entered : List ScopeId}

/-- Building scopes changes nothing of where clauses lead. -/
theorem through_of_builds (hsound : context.Sound program) (hbuilds : context.Builds later)
    (id : ScopeId) (name : Name) :
    (program.atRest context).through name (context.clausesAt id) =
      (program.atRest later).through name (later.clausesAt id) := by
  have hclauses : later.clausesAt id = context.clausesAt id := by
    rw [clausesAt, clausesAt, hbuilds.sameVisibility]
  rw [hclauses]
  refine World.through_congr fun clause hclause => ?_
  have htarget := (hsound.fits_of_mem_clausesAt hclause).target
  exact congrArg Scope.owner (hbuilds.toGrows.scope htarget).symm

/-- The automatic module is known if a lookup looked for clauses in a scope that sees it
and nothing ended the search there. -/
theorem isAuto_of_inspects (hforest : program.tree.IsForest) (hsound : context.Sound program)
    (hstart : context.Has start) (hall : config.innermost = false)
    (hwalk : ∀ final, context.Grows final → final.Sound program →
      (program.atRest final).Walks [] (program.beginnings final config start name) found entered [])
    {decls : Bool} {id : ScopeId} {actual : Name}
    (hinspects : context.Inspects program config start name decls id actual)
    (himports : config.imports = true) (huses : (context.scope id).autoUses = true)
    (hopen : ((program.atRest context).through actual (context.clausesAt id)).1 = false) :
    ∃ auto, context.IsAuto program auto := by
  by_contra hnone
  obtain ⟨auto, later, -, ⟨hbuilds, hlater⟩, hknown⟩ :=
    Program.autoScope_ends hforest hsound
  have hgrows := hbuilds.toGrows
  have hauto := hlater.autoScope auto hknown
  cases auto with
  | none => exact hnone ⟨none, hauto⟩
  | some auto =>
    have hafter : (program.atRest later).auto = some auto :=
      (Program.world_auto_iff hlater).mpr hauto
    have hnew : ¬ context.Has auto := fun hhas => by
      obtain ⟨node, owner, htop, howner, howned⟩ := hauto
      exact hnone ⟨some auto, node, owner, htop, howner, hgrows.ownedBy_of_has hhas howned⟩
    -- both contexts describe the lookup, which so has entered scopes of the first one only
    have hfirst := hwalk context (.refl context) hsound
    have hsecond := hwalk later hgrows hlater
    rw [hsound.beginnings_of_grows hstart hgrows] at hsecond
    have hhas : ∀ other ∈ entered, context.Has other := fun _ hother =>
      hsound.has_of_entered hstart (hfirst.yields hall) hother
    have hunseen : ∀ decls imports other actual,
        (program.atRest later).Enters false [] (program.beginnings context config start name)
          decls imports other actual →
        .scope true true auto actual ∉ (program.atRest later).sources decls imports other actual :=
      fun _ _ _ _ henters hmem => hnew (hhas auto ((henters.done hsecond).2 _ hmem))
    have hsame : ∀ decls imports other actual,
        (program.atRest context).Enters false [] (program.beginnings context config start name)
          decls imports other actual →
        (program.atRest later).Enters false [] (program.beginnings context config start name)
          decls imports other actual →
        (program.atRest context).sources decls imports other actual =
          (program.atRest later).sources decls imports other actual := by
      intro decls imports other actual henters henters'
      have hother := hhas other (henters.done hfirst).1
      exact World.sources_eq_of_not_mem hafter (hgrows.scope hother).symm
        (hsound.through_of_builds hbuilds other actual) (hunseen _ _ _ _ henters')
    obtain ⟨imports, henters⟩ := hinspects
    obtain rfl : imports = true := (hsound.leadsTo_of_enters henters).1.trans himports
    rw [hall] at henters
    have hid := hhas id (henters.done hfirst).1
    obtain ⟨sets, reached, rest, hto, hfresh, hsets⟩ := henters
    refine hunseen decls true id actual ⟨sets, reached, rest, hto.congr hsame, hfresh, hsets⟩ ?_
    refine World.mem_sources_of_auto hafter ?_ ?_
    · rw [show (program.atRest later).scope id = later.scope id from rfl, hgrows.scope hid, huses]
    · rw [show (program.atRest later).clauses id = later.clausesAt id from rfl,
        ← hsound.through_of_builds hbuilds id actual, hopen]

end Context.Sound

end Scoping
