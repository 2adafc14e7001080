import Scoping.Proofs.Clause
import Scoping.Proofs.Lookup
import Scoping.Proofs.Lookup.Trail

/-!
Where looking for a name in a scope goes on, in terms of the clauses and of the
automatic module rather than of the walk: through the contents of a clause, maybe
under another name, or on to the automatic module under the same one.
-/

namespace Scoping

open Context Resolve

namespace Context

variable {program : Program} {context : Context}

/-- Whether looking for a name in a scope goes on to a name in another scope. -/
inductive Follows (program : Program) (context : Context) : ScopeId × Name → ScopeId × Name → Prop
  | clause {id : ScopeId} {name actual : Name} {clause : Clause}
    (hclause : clause ∈ context.clausesAt id) (hroute : clause.route name = .contents actual) :
    Follows program context (id, name) (clause.target, actual)
  | auto {id target : ScopeId} {name : Name} (huses : (context.scope id).autoUses = true)
    (hauto : context.IsAuto program (some target)) :
    Follows program context (id, name) (target, name)

/-- Whether looking for a name in a scope leads to a name in another. -/
def LeadsTo (program : Program) (context : Context) : ScopeId × Name → ScopeId × Name → Prop :=
  Relation.ReflTransGen (context.Follows program)

end Context

namespace World

variable {world : World}

/-- A clause with none before it that stands for its target is gone through. -/
theorem mem_through_of_append {name actual : Name} {before after : List Clause} {clause : Clause}
    (hbefore : ∀ earlier ∈ before, earlier.route name ≠ .symbol)
    (hroute : clause.route name = .contents actual) :
    .scope true true clause.target actual ∈
      (world.through name (before ++ clause :: after)).2 := by
  induction before with
  | nil => simp [through, hroute]
  | cons earlier before ih =>
    obtain ⟨hearlier, hrest⟩ := List.forall_mem_cons.mp hbefore
    rw [List.cons_append, through]
    cases hother : earlier.route name with
    | blocked => exact ih hrest
    | symbol => exact absurd hother hearlier
    | contents other => exact List.mem_cons_of_mem _ (ih hrest)

theorem mem_imports_of_mem_through {id : ScopeId} {name : Name} {source : Source}
    (hsource : source ∈ (world.through name (world.clauses id)).2) :
    source ∈ world.imports id name := by
  cases hclosed : (world.through name (world.clauses id)).1 with
  | true => rwa [world.imports_of_closed hclosed]
  | false =>
    rw [world.imports_of_open hclosed]
    exact List.mem_append_left _ hsource

end World

namespace Context.Sound

variable {program : Program} {context : Context} (hsound : context.Sound program)
include hsound

/-- Unrestricted use leaves names as they are. -/
theorem route_of_allContents {id : ScopeId} {clause : Clause}
    (hclause : clause ∈ context.clausesAt id) (hkind : clause.kind = .allContents) (name : Name) :
    clause.route name = .contents name :=
  Clause.route_of_allContents hkind ((hsound.fits_of_mem_clausesAt hclause).whole hkind)

/-- One step of a walk follows the clauses, or the automatic module. -/
theorem follows_of_mem_imports {decls imports : Bool} {id target : ScopeId} {name actual : Name}
    (hsource : .scope decls imports target actual ∈ (program.atRest context).imports id name) :
    decls = true ∧ imports = true ∧ context.Follows program (id, name) (target, actual) := by
  rcases World.brings_or_auto_of_mem_imports _ hsource with hbrings | hmem
  · cases hbrings with
    | contents hclause hroute => exact ⟨rfl, rfl, .clause hclause hroute⟩
  · obtain ⟨auto, huses, hauto, heq⟩ := (program.atRest context).mem_autoSources_iff.mp hmem
    cases heq
    exact ⟨rfl, rfl, .auto huses ((Program.world_auto_iff hsound).mp hauto)⟩

theorem follows_of_opens {decls imports decls' imports' : Bool} {id target : ScopeId}
    {name actual : Name}
    (hopens : (program.atRest context).Opens (.scope decls imports id name)
      (.scope decls' imports' target actual)) :
    imports = true ∧ decls' = true ∧ imports' = true ∧
      context.Follows program (id, name) (target, actual) := by
  rcases List.mem_append.mp hopens with hdeclared | himported
  · split at hdeclared
    · obtain ⟨overloads, -, heq⟩ := List.mem_map.mp hdeclared
      cases heq
    · cases hdeclared
  · split at himported
    · next himports => exact ⟨himports, hsound.follows_of_mem_imports himported⟩
    · cases himported

/-- A walk stays where it is, or goes where the clauses lead; it then searches scopes
as a whole. -/
theorem eq_or_follows_of_opened {decls imports decls' imports' : Bool} {id target : ScopeId}
    {name actual : Name}
    (hopened : Relation.ReflTransGen (program.atRest context).Opens (.scope decls imports id name)
      (.scope decls' imports' target actual)) :
    (decls' = decls ∧ imports' = imports ∧ target = id ∧ actual = name) ∨
      (imports = true ∧ decls' = true ∧ imports' = true ∧
        Relation.TransGen (context.Follows program) (id, name) (target, actual)) := by
  generalize hlast : Source.scope decls' imports' target actual = last at hopened
  induction hopened generalizing decls' imports' target actual with
  | refl =>
    cases hlast
    exact .inl ⟨rfl, rfl, rfl, rfl⟩
  | @tail middle _ hpath hopens ih =>
    subst hlast
    cases middle with
    | set overloads => exact hopens.elim
    | scope decls'' imports'' other renamed =>
      obtain ⟨himports, hdecls', himports', hfollows⟩ := hsound.follows_of_opens hopens
      rcases ih rfl with ⟨rfl, rfl, rfl, rfl⟩ | ⟨hstart, -, -, hled⟩
      · exact .inr ⟨himports, hdecls', himports', .single hfollows⟩
      · exact .inr ⟨hstart, hdecls', himports', hled.tail hfollows⟩

/-- A walk leads where the clauses lead, and beyond its first step it searches
scopes as a whole. -/
theorem leadsTo_of_opened {decls imports decls' imports' : Bool} {id target : ScopeId}
    {name actual : Name}
    (hopened : Relation.ReflTransGen (program.atRest context).Opens (.scope decls imports id name)
      (.scope decls' imports' target actual)) :
    context.LeadsTo program (id, name) (target, actual) ∧
      (decls = true ∧ imports = true → decls' = true ∧ imports' = true) := by
  rcases hsound.eq_or_follows_of_opened hopened with
    ⟨rfl, rfl, rfl, rfl⟩ | ⟨-, hdecls', himports', hled⟩
  · exact ⟨.refl, fun hwhole => hwhole⟩
  · exact ⟨hled.to_reflTransGen, fun _ => ⟨hdecls', himports'⟩⟩

end Context.Sound

end Scoping
