import Scoping.Proofs.Clause
import Scoping.Proofs.Lookup.Closure
import Scoping.Proofs.Request

/-!
What an ordinary lookup finds for a name that no clause renames: the declarations
of the name in every scope that can be reached, and those only. Reachability is
stated without the search: from the scope, from those around it out to the first
module, and from the root scope, along the clauses that let the name through.
-/

namespace Scoping

open Context Resolve

/-- Scopes that do not declare a name add nothing to what is found for it. -/
theorem Scope.flatMap_lookup_filter (scope : ScopeId → Scope) (name : Name) (ids : List ScopeId) :
    ((ids.filter fun id => (scope id).declares name).flatMap fun id => (scope id).lookup name) =
      ids.flatMap fun id => (scope id).lookup name := by
  induction ids with
  | nil => rfl
  | cons id rest ih =>
    rw [List.filter_cons]
    split
    · rw [List.flatMap_cons, List.flatMap_cons, ih]
    · next hnot =>
      have hnone : (scope id).lookup name = [] := by
        simpa [Scope.declares, Assoc.contains, Scope.lookup] using hnot
      rw [List.flatMap_cons, hnone, ih, List.nil_append]

namespace Context

variable {program : Program} {context : Context}

/-- Whether, as far as clauses have been worked out, none of them makes a name
stand for its target and none makes anything visible under it but itself. -/
def Unrenamed (context : Context) (name : Name) : Prop :=
  ∀ id, ∀ clause ∈ context.clausesAt id, ∀ pair ∈ clause.names, pair.2 = name →
    clause.kind ≠ .symbolOnly ∧ (clause.kind = .onlyContents → pair.1 = name)

/-- Only the scopes of the context can have clauses that rename. -/
theorem Sound.unrenamed_iff (hsound : context.Sound program) {name : Name} :
    context.Unrenamed name ↔ ∀ index < context.scopes.size, ∀ clause ∈ context.clausesAt ⟨index⟩,
      ∀ pair ∈ clause.names, pair.2 = name →
        clause.kind ≠ .symbolOnly ∧ (clause.kind = .onlyContents → pair.1 = name) := by
  refine ⟨fun hname index _ => hname ⟨index⟩, fun hall id clause hclause => ?_⟩
  exact hall id.index (hsound.has_of_mem_clausesAt hclause) clause hclause

/-- Whether a name that is looked for in a scope is also looked for in another. -/
inductive Leads (program : Program) (context : Context) (name : Name) : ScopeId → ScopeId → Prop
  | clause {id : ScopeId} {clause : Clause} (hclause : clause ∈ context.clausesAt id)
    (hpasses : clause.Passes name) : Leads program context name id clause.target
  | auto {id target : ScopeId} (huses : (context.scope id).autoUses = true)
    (hauto : context.IsAuto program (some target)) : Leads program context name id target

/-- Where a lookup from a scope begins: there, in the scopes around it out to the
first module, and in the root scope. -/
inductive Begins (context : Context) (id : ScopeId) : ScopeId → Prop
  | here : Begins context id id
  | around {before after : List ScopeId} {outer : ScopeId}
    (henclosing : (context.scope id).enclosing = before ++ outer :: after)
    (hbefore : ∀ inner ∈ before, (context.scope inner).isModule = false) : Begins context id outer
  | root {outer : ScopeId} (howned : context.OwnedBy outer none) : Begins context id outer

/-- The scopes that a lookup climbs to are those where it begins. -/
theorem Sound.begins_iff (hsound : context.Sound program) {id outer : ScopeId}
    (hid : context.Has id) : context.Begins id outer ↔ outer ∈ id :: context.climb id := by
  have hroot := hsound.root_of_has hid
  have hlast := hsound.getLast?_outward hid
  have hends : (context.scope id).enclosing = [] ∧ id = ⟨0⟩ ∨
      (context.scope id).enclosing.getLast? = some ⟨0⟩ := by
    rw [outward] at hlast
    cases henclosing : (context.scope id).enclosing with
    | nil =>
      rw [henclosing] at hlast
      exact .inl ⟨rfl, Option.some.inj hlast⟩
    | cons first rest =>
      rw [henclosing, List.getLast?_cons_cons] at hlast
      exact .inr hlast
  rw [List.mem_cons, climb, List.mem_append, mem_upToModule_iff, Option.mem_toList]
  constructor
  · intro hbegins
    cases hbegins with
    | here => exact .inl rfl
    | around henclosing hbefore => exact .inr (.inl ⟨_, _, henclosing, hbefore⟩)
    | root howned =>
      obtain rfl := hsound.eq_of_ownedBy howned hroot
      rcases hends with ⟨-, rfl⟩ | hlast
      · exact .inl rfl
      · exact .inr (.inr hlast)
  · rintro (rfl | ⟨before, after, henclosing, hbefore⟩ | hlast)
    · exact .here
    · exact .around henclosing hbefore
    · rcases hends with ⟨hnil, -⟩ | hlast'
      · rw [hnil] at hlast
        cases hlast
      · obtain rfl := Option.some.inj (hlast.symm.trans hlast')
        exact .root hroot

theorem Sound.route_of_unrenamed (hsound : context.Sound program) {name : Name}
    (hname : context.Unrenamed name) {id : ScopeId} {clause : Clause}
    (hclause : clause ∈ context.clausesAt id) :
    clause.Passes name ∧ clause.route name = .contents name ∨
      ¬ clause.Passes name ∧ clause.route name = .blocked := by
  refine Clause.route_of_unrenamed ?_ (hname id clause hclause)
  exact (hsound.fits_of_mem_clausesAt hclause).whole

theorem Sound.keepsName_atRest (hsound : context.Sound program) {name : Name}
    (hname : context.Unrenamed name) : (program.atRest context).KeepsName name :=
  fun _ _ hclause => (hsound.route_of_unrenamed hname hclause).elim (fun h => .inr h.2)
    fun h => .inl h.2

/-- What the search follows is what the clauses say. -/
theorem Sound.links_atRest_iff (hsound : context.Sound program) {name : Name}
    (hname : context.Unrenamed name) {id target : ScopeId} :
    (program.atRest context).Links name id target ↔ context.Leads program name id target := by
  constructor
  · rintro (⟨clause, hclause, hroute, rfl⟩ | ⟨huses, hauto⟩)
    · rcases hsound.route_of_unrenamed hname hclause with hpasses | hblocked
      · exact .clause hclause hpasses.1
      · rw [hblocked.2] at hroute
        cases hroute
    · exact .auto huses ((Program.world_auto_iff hsound).mp hauto)
  · intro hleads
    cases hleads with
    | clause hclause hpasses =>
      rcases hsound.route_of_unrenamed hname hclause with hpassed | hblocked
      · exact .inl ⟨_, hclause, hpassed.2, rfl⟩
      · exact absurd hpasses hblocked.1
    | auto huses hauto => exact .inr ⟨huses, (Program.world_auto_iff hsound).mpr hauto⟩

end Context

namespace Program

variable {program : Program} {context : Context}

/-- An ordinary lookup of a name that no clause renames finds, in whatever later
context one looks at the clauses, the declarations of the name in each scope that
is reached from where the lookup begins, once for each scope, and nothing else. -/
theorem lookup_allVisible_exact {tree : Tree} (hfinished : tree.Finished)
    (hgrounded : tree.Grounded) (htree : program.tree = tree)
    (hreachable : program.Reachable context) {id : ScopeId} (hid : context.Has id) (name : Name) :
    ∃ found after, program.lookup .allVisible none id name context = some (found, after) ∧
      ∀ final, program.Reaches after final → final.Unrenamed name →
        ∃ scopes : List ScopeId, scopes.Nodup ∧
          (∀ target, target ∈ scopes ↔ (final.scope target).declares name = true ∧
            ∃ start, final.Begins id start ∧
              Relation.ReflTransGen (final.Leads program name) start target) ∧
          found.Perm (scopes.flatMap fun target => (final.scope target).lookup name) := by
  have hforest : program.tree.IsForest := htree ▸ hfinished.isForest hgrounded
  have hsound := (hreachable.settled hforest).sound
  obtain ⟨found, after, hrun, hchanges, entered, hyields⟩ :=
    lookup_ends hforest (serves_sound hforest) hsound hid .allVisible name
  refine ⟨found, after, hrun, fun final hreaches hname => ?_⟩
  obtain ⟨hgrows, hfinal⟩ := hreaches.answering hforest (serves_sound hforest) hchanges.2
  have hkeeps := hfinal.keepsName_atRest hname
  have hid' : final.Has id := (hchanges.1.toGrows.trans hgrows).has hid
  have hclimb := hsound.climb_of_grows hid (hchanges.1.toGrows.trans hgrows)
  let starts := (id :: final.climb id).map fun outer => Source.scope true true outer name
  have hwalk : (program.atRest final).Walks [] starts found entered [] := by
    have hwalk := (hyields final hgrows hfinal).walks
    simpa [starts, hclimb, beyond, LookupConfig.allVisible] using hwalk
  have hpending : ∀ source ∈ starts, source.IsFor name := by
    intro source hsource
    obtain ⟨outer, -, rfl⟩ := List.mem_map.mp hsource
    exact ⟨rfl, rfl, rfl⟩
  have htargets : starts.filterMap Source.target? = id :: final.climb id := by
    rw [List.filterMap_map]
    exact List.filterMap_some
  have hsets : starts.filterMap Source.set? = [] := by
    simp [starts, Source.set?]
  obtain ⟨visited, hvisits⟩ := World.Walks.visits hkeeps hwalk rfl hpending
  have hlinks : (program.atRest final).Links name = final.Leads program name :=
    funext₂ fun _ _ => propext (hfinal.links_atRest_iff hname)
  refine ⟨visited.filter fun target => (final.scope target).declares name,
    hvisits.nodup.filter _, fun target => ?_, ?_⟩
  · rw [List.mem_filter, and_comm, hvisits.mem_visited_iff, htargets, hlinks]
    simp only [hfinal.begins_iff hid']
  · have hfound := hvisits.found_perm
    rw [hsets, List.nil_append] at hfound
    rwa [Scope.flatMap_lookup_filter]

/-- What is known of the two modules once the variable is looked up in the first. -/
def mutualUseLookedUp : Context :=
  ((mutualUse.lookup .allVisible none ⟨1⟩ mutualUseName mutualUseAsked).map Prod.snd).getD .empty

/-- Nothing renames the variable, and both of its declarations are found. -/
theorem mutualUse_lookup_exact :
    ∃ (found : List Overloads) (scopes : List ScopeId),
      mutualUse.lookup .allVisible none ⟨1⟩ mutualUseName mutualUseAsked =
        some (found, mutualUseLookedUp) ∧ scopes.Nodup ∧
      (∀ target, target ∈ scopes ↔
        (mutualUseLookedUp.scope target).declares mutualUseName = true ∧
          ∃ start, mutualUseLookedUp.Begins ⟨1⟩ start ∧
            Relation.ReflTransGen (mutualUseLookedUp.Leads mutualUse mutualUseName) start target) ∧
      found.Perm
        (scopes.flatMap fun target => (mutualUseLookedUp.scope target).lookup mutualUseName) := by
  obtain ⟨found, after, hrun, hexact⟩ := lookup_allVisible_exact mutualUse_finished
    mutualUse_grounded rfl mutualUse_reachable mutualUse_has mutualUseName
  have hafter : mutualUseLookedUp = after := by rw [mutualUseLookedUp, hrun]; rfl
  subst hafter
  have hforest := mutualUse_finished.isForest mutualUse_grounded
  have hends := lookup_ends hforest (serves_sound hforest)
    (mutualUse_reachable.settled hforest).sound mutualUse_has .allVisible mutualUseName
  have hchanges := (hends.of_run hrun).1
  have hname : mutualUseLookedUp.Unrenamed mutualUseName := by
    rw [hchanges.2.unrenamed_iff]
    decide +kernel
  obtain ⟨scopes, hscopes⟩ := hexact mutualUseLookedUp .refl hname
  exact ⟨found, scopes, hrun, hscopes⟩

end Program

end Scoping
