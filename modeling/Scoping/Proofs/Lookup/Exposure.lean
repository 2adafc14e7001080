import Scoping.Proofs.Lookup.Exhaustive
import Scoping.Proofs.Lookup.Following

/-!
What an ordinary lookup is bound to report. A lookup enters each scope once, under the
name that it comes to it with first, and a clause that stands for its target ends the
search among the clauses of a scope. Where neither happens, what a name leads to from a
scope where the lookup begins is found.
-/

namespace Scoping

open Context Resolve

namespace World

variable {world : World} {name : Name}

/-- Clauses of which none stands for its target leave the search open. -/
theorem through_fst_eq_false {clauses : List Clause}
    (hopen : ∀ clause ∈ clauses, clause.route name ≠ .symbol) :
    (world.through name clauses).1 = false := by
  induction clauses with
  | nil => rfl
  | cons clause rest ih =>
    obtain ⟨hclause, hrest⟩ := List.forall_mem_cons.mp hopen
    rw [through]
    cases hroute : clause.route name with
    | blocked => exact ih hrest
    | symbol => exact absurd hroute hclause
    | contents actual => exact ih hrest

theorem mem_imports_of_auto {id auto : ScopeId}
    (hopen : ∀ clause ∈ world.clauses id, clause.route name ≠ .symbol)
    (huses : (world.scope id).autoUses = true) (hauto : world.auto = some auto) :
    .scope true true auto name ∈ world.imports id name := by
  rw [world.imports_of_open (through_fst_eq_false hopen)]
  exact List.mem_append_right _ (world.mem_autoSources_iff.mpr ⟨auto, huses, hauto, rfl⟩)

/-- What leads out of a scope that was searched as a whole has been entered. -/
theorem Trails.mem_of_mem_imports {entered entered' : List ScopeId} {pending trail : List Source}
    {found : List Overloads} (htrail : world.Trails entered pending found entered' trail)
    {id target : ScopeId} {actual : Name} {decls imports : Bool}
    (htaken : .scope true true id name ∈ trail)
    (hsource : .scope decls imports target actual ∈ world.imports id name) : target ∈ entered' := by
  have hopens : world.Opens (.scope true true id name) (.scope decls imports target actual) :=
    List.mem_append_right _ hsource
  exact htrail.trail_done _ htaken _ hopens

end World

namespace Context

/-- Whether a lookup of a name from a scope finds some sets, with the clauses as they
are. -/
def Looks (program : Program) (context : Context) (start : ScopeId) (name : Name)
    (found : List Overloads) : Prop :=
  ∃ entered, (program.atRest context).Walks []
    ((start :: context.climb start).map fun outer => .scope true true outer name) found entered []

/-- Whether a lookup of a name from a scope can come to another scope under one name
only. -/
def MetAs (program : Program) (context : Context) (start : ScopeId) (name : Name) (id : ScopeId)
    (actual : Name) : Prop :=
  ∀ outer other, context.Begins start outer →
    context.LeadsTo program (outer, name) (id, other) → other = actual

/-- The scopes in which a lookup of a name from a scope is bound to look, and the names
that it looks for there. -/
inductive Exposed (program : Program) (context : Context) (start : ScopeId) (name : Name) :
    ScopeId → Name → Prop
  | begins {first : ScopeId} (hbegins : context.Begins start first)
    (hmet : context.MetAs program start name first name) : Exposed program context start name first name
  /-- No clause before the one that is followed may stand for its target. -/
  | clause {id : ScopeId} {visible actual : Name} {before after : List Clause} {clause : Clause}
    (hexposed : Exposed program context start name id visible)
    (hclauses : context.clausesAt id = before ++ clause :: after)
    (hbefore : ∀ earlier ∈ before, earlier.route visible ≠ .symbol)
    (hroute : clause.route visible = .contents actual)
    (hmet : context.MetAs program start name clause.target actual) :
    Exposed program context start name clause.target actual
  | auto {id target : ScopeId} {visible : Name}
    (hexposed : Exposed program context start name id visible)
    (hopen : ∀ clause ∈ context.clausesAt id, clause.route visible ≠ .symbol)
    (huses : (context.scope id).autoUses = true) (hauto : context.IsAuto program (some target))
    (hmet : context.MetAs program start name target visible) :
    Exposed program context start name target visible

variable {program : Program} {context : Context}

/-- A name that no clause renames stays what it is. -/
theorem Sound.eq_of_leadsTo (hsound : context.Sound program) {name actual : Name}
    (hname : context.Unrenamed name) {id target : ScopeId}
    (hleads : context.LeadsTo program (id, name) (target, actual)) : actual = name := by
  generalize hlast : (target, actual) = last at hleads
  induction hleads generalizing target actual with
  | refl =>
    cases hlast
    rfl
  | @tail middle last _ hfollows ih =>
    obtain ⟨other, renamed⟩ := middle
    obtain rfl := ih rfl
    cases hfollows with
    | clause hclause hroute =>
      cases hlast
      rcases hsound.route_of_unrenamed hname hclause with hpasses | hblocked
      · exact (Route.contents.inj (hpasses.2.symm.trans hroute)).symm
      · rw [hblocked.2] at hroute
        cases hroute
    | auto =>
      cases hlast
      rfl

theorem Sound.metAs_of_unrenamed (hsound : context.Sound program) {name : Name}
    (hname : context.Unrenamed name) (start id : ScopeId) :
    context.MetAs program start name id name :=
  fun _ _ _ hleads => hsound.eq_of_leadsTo hname hleads

section

variable (hsound : context.Sound program) {start : ScopeId} {name : Name} {found : List Overloads}
variable {entered : List ScopeId} {trail : List Source}
variable (htrail : (program.atRest context).Trails []
  ((start :: context.climb start).map fun outer => .scope true true outer name) found entered trail)
variable (hstart : context.Has start)
include hsound htrail hstart

/-- An entered scope was taken up under the name that it is met under. -/
theorem Sound.mem_trail_of_metAs {id : ScopeId} {actual : Name}
    (hmet : context.MetAs program start name id actual) (hid : id ∈ entered) :
    .scope true true id actual ∈ trail := by
  rcases htrail.named id hid with hnone | ⟨decls, imports, other, hmem⟩
  · cases hnone
  obtain ⟨first, hfirst, hopened⟩ := htrail.ledTo _ hmem
  obtain ⟨outer, houter, rfl⟩ := List.mem_map.mp hfirst
  obtain ⟨hleads, hwhole⟩ := hsound.leadsTo_of_opened hopened
  obtain ⟨rfl, rfl⟩ := hwhole ⟨rfl, rfl⟩
  obtain rfl := hmet outer other ((hsound.begins_iff hstart).mpr houter) hleads
  exact hmem

/-- The induction is on how the scope is exposed; each step opens what was taken up. -/
theorem Sound.mem_trail_of_exposed {id : ScopeId} {actual : Name}
    (hexposed : context.Exposed program start name id actual) :
    .scope true true id actual ∈ trail := by
  induction hexposed with
  | @begins first hbegins hmet =>
    refine hsound.mem_trail_of_metAs htrail hstart hmet ?_
    exact htrail.pending_done (.scope true true first name)
      (List.mem_map.mpr ⟨first, (hsound.begins_iff hstart).mp hbegins, rfl⟩)
  | @clause id visible actual before after clause _ hclauses hbefore hroute hmet ih =>
    have hsource : .scope true true clause.target actual ∈
        (program.atRest context).imports id visible := by
      apply World.mem_imports_of_mem_through
      rw [show (program.atRest context).clauses id = before ++ clause :: after from hclauses]
      exact World.mem_through_of_append hbefore hroute
    exact hsound.mem_trail_of_metAs htrail hstart hmet (htrail.mem_of_mem_imports ih hsource)
  | @auto id target visible _ hopen huses hauto hmet ih =>
    have hsource : .scope true true target visible ∈ (program.atRest context).imports id visible :=
      World.mem_imports_of_auto hopen huses ((Program.world_auto_iff hsound).mpr hauto)
    exact hsound.mem_trail_of_metAs htrail hstart hmet (htrail.mem_of_mem_imports ih hsource)

/-- What an exposed scope declares is found. -/
theorem Sound.mem_found_of_exposed {id : ScopeId} {actual : Name}
    (hexposed : context.Exposed program start name id actual) {overloads : Overloads}
    (hdeclared : (context.scope id).declared.get? actual = some overloads) : overloads ∈ found := by
  have hopens : (program.atRest context).Opens (.scope true true id actual) (.set overloads) := by
    refine List.mem_append_left _ ?_
    rw [if_pos rfl]
    exact List.mem_map.mpr ⟨overloads, Option.mem_toList.mpr hdeclared, rfl⟩
  exact htrail.trail_done _ (hsound.mem_trail_of_exposed htrail hstart hexposed) _ hopens

end

end Context

namespace Program

variable {program : Program} {keeps : Context → Prop} {context : Context}

/-- An ordinary lookup ends, and has found what can be read off any later context. -/
theorem lookup_looks_ends (hforest : program.tree.IsForest) (hserves : program.Serves keeps)
    (hkeeps : keeps context) {start : ScopeId} (hstart : context.Has start) (name : Name) :
    Ends (Resolving keeps) (program.lookup .allVisible none start name) context
      fun found later => ∀ final, later.Grows final → keeps final →
        final.Looks program start name found := by
  refine (lookup_ends hforest hserves hkeeps hstart .allVisible name).mono ?_
  rintro found later hchanges ⟨entered, hyields⟩ final hfinal hkept
  have hgrows := hchanges.1.toGrows.trans hfinal
  have hwalk := (hyields final hfinal hkept).walks
  rw [← (hserves.sound _ hkeeps).climb_of_grows hstart hgrows] at hwalk
  exact ⟨entered, by simpa [beyond, LookupConfig.allVisible] using hwalk⟩

/-- An ordinary lookup ends, and has found whatever is exposed to it in a later context. -/
theorem lookup_exposed_ends (hforest : program.tree.IsForest) (hserves : program.Serves keeps)
    (hkeeps : keeps context) {start : ScopeId} (hstart : context.Has start) (name : Name) :
    Ends (Resolving keeps) (program.lookup .allVisible none start name) context
      fun found later => ∀ final, later.Grows final → keeps final →
        ∀ id actual overloads, final.Exposed program start name id actual →
          (final.scope id).declared.get? actual = some overloads → overloads ∈ found := by
  refine (lookup_looks_ends hforest hserves hkeeps hstart name).mono ?_
  intro found later hchanges hlooks final hfinal hkept id actual overloads hexposed
  obtain ⟨entered, hwalk⟩ := hlooks final hfinal hkept
  obtain ⟨trail, htrail⟩ := hwalk.trails rfl
  exact (hserves.sound _ hkept).mem_found_of_exposed htrail
    ((hchanges.1.toGrows.trans hfinal).has hstart) hexposed

end Program

end Scoping
