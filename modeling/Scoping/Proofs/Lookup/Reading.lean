import Scoping.Proofs.Lookup.Barren
import Scoping.Proofs.Lookup.Whole

/-!
What ordinary lookups find, read off a context that is given time. Where no scope is come
to under two names and no clause stands for its target, a lookup finds whatever it leads
to, and with it all that a lookup from another scope finds that begins nowhere else.
-/

namespace Scoping

open Context Resolve

namespace Context

/-- Whether some sets are what lookups of a name from several scopes find. -/
structure Collects (program : Program) (context : Context) (name : Name) (starts : List ScopeId)
    (found : List Overloads) : Prop where
  only : ∀ overloads ∈ found, ∃ start ∈ starts, ∃ part,
    context.Looks program start name part ∧ overloads ∈ part
  all : ∀ start ∈ starts, ∃ part, context.Looks program start name part ∧ part ⊆ found

/-- Whether a lookup comes to every scope under one name, and to no scope with a clause
that stands for its target under the name. -/
structure Steady (program : Program) (context : Context) (start : ScopeId) (name : Name) : Prop where
  met : ∀ first id actual, context.Begins start first →
    context.LeadsTo program (first, name) (id, actual) → context.MetAs program start name id actual
  unclosed : ∀ first id actual, context.Begins start first →
    context.LeadsTo program (first, name) (id, actual) →
    ∀ clause ∈ context.clausesAt id, clause.route actual ≠ .symbol

/-- Whether a lookup of a name from a scope comes to wherever one from another begins. -/
def Subsumes (program : Program) (context : Context) (start goal : ScopeId) (name : Name) : Prop :=
  ∀ outer, context.Begins goal outer → ∃ first, context.Begins start first ∧
    context.LeadsTo program (first, name) (outer, name)

variable {program : Program} {context : Context} {start goal : ScopeId} {name : Name}
variable {found found' : List Overloads}

/-- Two lookups of a name from a scope find the same. -/
theorem Looks.subset (hlooks : context.Looks program start name found)
    (hlooks' : context.Looks program start name found') : found ⊆ found' := by
  obtain ⟨entered, hwalk⟩ := hlooks
  obtain ⟨entered', hwalk'⟩ := hlooks'
  have hagree : (program.atRest context).Agree (fun _ => True) [] [] := .refl []
  exact fun overloads hfound => hwalk.mem_of_below rfl hwalk' (.of_isPrefix List.prefix_rfl) hagree
    trivial hfound

theorem Collects.nil : context.Collects program name [] [] := ⟨nofun, nofun⟩

theorem Collects.cons {starts : List ScopeId} {part : List Overloads}
    (hpart : context.Looks program start name part)
    (hcollects : context.Collects program name starts found) :
    context.Collects program name (start :: starts) (part ++ found) where
  only overloads hoverloads := by
    rcases List.mem_append.mp hoverloads with hfirst | hrest
    · exact ⟨start, List.mem_cons_self, part, hpart, hfirst⟩
    · obtain ⟨other, hother, hfound⟩ := hcollects.only overloads hrest
      exact ⟨other, List.mem_cons_of_mem _ hother, hfound⟩
  all := List.forall_mem_cons.mpr ⟨⟨part, hpart, List.subset_append_left _ _⟩,
    fun other hother => (hcollects.all other hother).imp fun _ hlooks =>
      ⟨hlooks.1, List.subset_append_of_subset_right _ hlooks.2⟩⟩

/-- What is found from a scope is found from any list that the scope is in. -/
theorem Collects.mem (hcollects : context.Collects program name starts found')
    (hstart : start ∈ starts) (hlooks : context.Looks program start name found)
    {overloads : Overloads} (hfound : overloads ∈ found) : overloads ∈ found' := by
  obtain ⟨part, hpart, hsubset⟩ := hcollects.all start hstart
  exact hsubset (hlooks.subset hpart hfound)

/-- Where nothing gets in the way, what a name leads to is exposed. -/
theorem Steady.exposed (hsteady : context.Steady program start name) {first id : ScopeId}
    {actual : Name} (hbegins : context.Begins start first)
    (hleads : context.LeadsTo program (first, name) (id, actual)) :
    context.Exposed program start name id actual := by
  generalize hlast : (id, actual) = last at hleads
  induction hleads generalizing id actual with
  | refl =>
    cases hlast
    exact .begins hbegins (hsteady.met first first name hbegins .refl)
  | @tail middle last hpath hfollows ih =>
    have hopen := hsteady.unclosed first middle.1 middle.2 hbegins hpath
    have hmet := hsteady.met first id actual hbegins (hlast ▸ hpath.tail hfollows)
    cases hfollows with
    | clause hclause hroute =>
      cases hlast
      obtain ⟨before, after, hclauses⟩ := List.append_of_mem hclause
      refine .clause (ih rfl) hclauses (fun earlier hearlier => hopen earlier ?_) hroute hmet
      rw [hclauses]
      exact List.mem_append_left _ hearlier
    | auto huses hauto =>
      cases hlast
      exact .auto (ih rfl) hopen huses hauto hmet

namespace Sound

variable (hsound : context.Sound program)
include hsound

/-- A name that no clause renames is looked for steadily. -/
theorem steady_of_unrenamed (hname : context.Unrenamed name) (start : ScopeId) :
    context.Steady program start name where
  met first id actual _ hleads := by
    obtain rfl := hsound.eq_of_leadsTo hname hleads
    exact hsound.metAs_of_unrenamed hname start id
  unclosed first id actual _ hleads clause hclause := by
    obtain rfl := hsound.eq_of_leadsTo hname hleads
    rcases hsound.route_of_unrenamed hname hclause with hpasses | hblocked
    · rw [hpasses.2]
      nofun
    · rw [hblocked.2]
      nofun

/-- A lookup that comes to wherever another begins finds all that the other does. -/
theorem subset_of_subsumes (hstart : context.Has start) (hgoal : context.Has goal)
    (hsteady : context.Steady program start name) (hsubsumes : context.Subsumes program start goal name)
    (hlooks : context.Looks program goal name found)
    (hlooks' : context.Looks program start name found') : found ⊆ found' := by
  intro overloads hfound
  obtain ⟨entered, hwalk⟩ := hlooks
  obtain ⟨entered', hwalk'⟩ := hlooks'
  obtain ⟨trail, htrail⟩ := hwalk'.trails rfl
  obtain ⟨source, hsource, hled⟩ := hwalk.found_ledTo hfound
  obtain ⟨outer, houter, rfl⟩ := List.mem_map.mp hsource
  obtain ⟨first, hbegins, hreached⟩ := hsubsumes outer ((hsound.begins_iff hgoal).mpr houter)
  rcases Relation.ReflTransGen.cases_tail hled with heq | ⟨last, hopened, hopens⟩
  · cases heq
  cases last with
  | set other => exact hopens.elim
  | scope decls imports id actual =>
    obtain ⟨hleads, -⟩ := hsound.leadsTo_of_opened hopened
    have hleads := hreached.trans hleads
    rcases World.declared_or_symbol_of_opens hopens with
      ⟨-, hdeclared⟩ | ⟨-, clause, hclause, hroute, -⟩
    · exact hsound.mem_found_of_exposed htrail hstart (hsteady.exposed hbegins hleads)
        hdeclared
    · exact absurd hroute (hsteady.unclosed first id actual hbegins hleads clause hclause)

end Sound

end Context

namespace Program

variable {program : Program} {keeps : Context → Prop} {context : Context}

/-- What lookups of a name from several scopes find, one after the other. -/
def candidates (program : Program) (name : Name) : List ScopeId → Resolve (List Overloads)
  | [] => return []
  | start :: rest => do
    let found ← program.lookup .allVisible none start name
    return found ++ (← program.candidates name rest)

/-- The induction is on the scopes; later lookups find no less for those before. -/
theorem candidates_ends (hforest : program.tree.IsForest) (hserves : program.Serves keeps)
    (hkeeps : keeps context) (name : Name) {starts : List ScopeId}
    (hstarts : ∀ start ∈ starts, context.Has start) :
    Ends (Resolving keeps) (program.candidates name starts) context
      fun found later => ∀ final, later.Grows final → keeps final →
        final.Collects program name starts found := by
  induction starts generalizing context with
  | nil => exact .same hkeeps fun _ _ _ => .nil
  | cons start rest ih =>
    obtain ⟨hstart, hrest⟩ := List.forall_mem_cons.mp hstarts
    refine (lookup_looks_ends hforest hserves hkeeps hstart name).bind
      fun part later hchanges hlooks => ?_
    refine (ih hchanges.2 fun other hother => hchanges.1.toGrows.has (hrest other hother)).bind
      fun found last hmore hcollects => .same hmore.2 fun final hfinal hkept => ?_
    exact .cons (hlooks final (hmore.1.toGrows.trans hfinal) hkept) (hcollects final hfinal hkept)

end Program

end Scoping
