import Scoping.Proofs.Lookup.Entering
import Scoping.Proofs.Lookup.Exposure

/-!
What a lookup inspects: the scopes that it comes to before it ends, and the names that
it looks for there. It may come to its first scope without asking for the declarations
there, so that is told too. All that leads out of an inspected scope has been dealt
with once the lookup has gone through to its end.
-/

namespace Scoping

open Context Resolve

variable {program : Program} {context : Context} {config : LookupConfig} {start : ScopeId}
variable {name : Name}

/-- Where a lookup of a name from a scope begins: there, in the scopes around it, and
among the top-level modules. -/
def Program.beginnings (program : Program) (context : Context) (config : LookupConfig)
    (start : ScopeId) (name : Name) : List Source :=
  .scope config.decls config.imports start name ::
    program.beyond config (context.climb start) name

/-- Whether a lookup of a name from a scope, on its own and with the clauses as they
are, comes to look for a name in another scope, and there also among the declarations
if `decls` is set. -/
def Context.Inspects (program : Program) (context : Context) (config : LookupConfig)
    (start : ScopeId) (name : Name) (decls : Bool) (id : ScopeId) (actual : Name) : Prop :=
  ∃ imports, (program.atRest context).Enters config.innermost []
    (program.beginnings context config start name) decls imports id actual

/-- Whether what two lookups both inspect, the first inspects under the same name, and for
its declarations if the second one does. -/
def Context.LooksAlike (program : Program) (context : Context) (config config' : LookupConfig)
    (start start' : ScopeId) (name : Name) : Prop :=
  ∀ id decls decls' actual actual', context.Inspects program config start name decls id actual →
    context.Inspects program config' start' name decls' id actual' →
    actual' = actual ∧ (decls' = true → decls = true)

namespace Program

theorem mem_beginnings_iff {source : Source} :
    source ∈ program.beginnings context config start name ↔
      source = .scope config.decls config.imports start name ∨
      (config.parents = true ∧
        ∃ outer ∈ context.climb start, source = .scope true config.imports outer name) ∨
      (config.toplevel = true ∧ ∃ node, program.tree.toplevel? name = some node ∧
        source = .set (.single (.node node))) := by
  rw [beginnings, List.mem_cons, beyond, List.mem_append]
  cases config.parents <;> cases config.toplevel <;> simp [eq_comm]

/-- A lookup begins with the name it is given, and looks at the clauses of each scope or
of none; it asks for declarations, but maybe not in its first scope. -/
theorem eq_of_mem_beginnings {decls imports : Bool} {id : ScopeId} {actual : Name}
    (hsource : .scope decls imports id actual ∈ program.beginnings context config start name) :
    actual = name ∧ imports = config.imports ∧
      (decls = true ∨ decls = config.decls ∧ id = start) ∧
      (id = start ∨ config.parents = true ∧ id ∈ context.climb start) := by
  rcases mem_beginnings_iff.mp hsource with heq | ⟨hparents, outer, houter, heq⟩ |
    ⟨-, node, -, heq⟩ <;> cases heq
  · exact ⟨rfl, rfl, .inr ⟨rfl, rfl⟩, .inl rfl⟩
  · exact ⟨rfl, rfl, .inl rfl, .inr ⟨hparents, houter⟩⟩

end Program

/-- A scope that is searched for more leads to more. -/
theorem World.sources_subset {world : World} {decls decls' imports imports' : Bool} {id : ScopeId}
    (hdecls : decls = true → decls' = true) (himports : imports = true → imports' = true) :
    world.sources decls imports id name ⊆ world.sources decls' imports' id name := by
  intro source hsource
  rcases List.mem_append.mp hsource with hdeclared | himported
  · cases decls with
    | false => cases hdeclared
    | true =>
      refine List.mem_append_left _ ?_
      rwa [if_pos (hdecls rfl)]
  · cases imports with
    | false => cases himported
    | true =>
      refine List.mem_append_right _ ?_
      rwa [if_pos (himports rfl)]

namespace Context

theorem inspects_start : context.Inspects program config start name config.decls start name :=
  ⟨config.imports, .head List.not_mem_nil⟩

/-- A lookup comes to its first scope at once, and not again. -/
theorem eq_of_inspects_start {decls : Bool} {actual : Name}
    (hinspects : context.Inspects program config start name decls start actual) :
    decls = config.decls ∧ actual = name := by
  obtain ⟨imports, found, reached, rest, hwalk, hid, -⟩ := hinspects
  cases hwalk with
  | refl => exact ⟨rfl, rfl⟩
  | seen hseen _ => cases hseen
  | enter _ hrest => exact absurd (hrest.subset List.mem_cons_self) hid

namespace Sound

variable (hsound : context.Sound program)
include hsound

/-- Where a lookup begins stays the same in later contexts. -/
theorem beginnings_of_grows {later : Context} (hid : context.Has start)
    (hgrows : context.Grows later) (config : LookupConfig) (name : Name) :
    program.beginnings later config start name = program.beginnings context config start name := by
  rw [Program.beginnings, Program.beginnings, hsound.climb_of_grows hid hgrows]

/-- What a lookup comes to is led to by the clauses from a scope where it begins. -/
theorem leadsTo_of_enters {decls imports : Bool} {id : ScopeId} {actual : Name}
    (henters : (program.atRest context).Enters config.innermost []
      (program.beginnings context config start name) decls imports id actual) :
    imports = config.imports ∧ (decls = true ∨ decls = config.decls ∧ id = start) ∧
      ∃ outer, (outer = start ∨ config.parents = true ∧ outer ∈ context.climb start) ∧
        context.LeadsTo program (outer, name) (id, actual) := by
  obtain ⟨first, hfirst, hpath⟩ := henters.ledTo
  cases first with
  | set overloads => cases World.eq_of_opened_set hpath
  | scope decls' imports' outer other =>
    obtain ⟨rfl, rfl, hdecls, houter⟩ := Program.eq_of_mem_beginnings hfirst
    obtain ⟨hleads, -⟩ := hsound.leadsTo_of_opened hpath
    rcases hsound.eq_or_follows_of_opened hpath with ⟨rfl, rfl, rfl, -⟩ | ⟨himports, rfl, rfl, -⟩
    · exact ⟨rfl, hdecls, id, houter, hleads⟩
    · exact ⟨himports.symm, .inl rfl, outer, houter, hleads⟩

/-- Beyond its first scope a lookup asks for declarations. -/
theorem decls_of_inspects {decls : Bool} {id : ScopeId} {actual : Name}
    (hinspects : context.Inspects program config start name decls id actual) (hne : id ≠ start) :
    decls = true := by
  obtain ⟨imports, henters⟩ := hinspects
  exact (hsound.leadsTo_of_enters henters).2.1.resolve_right fun hfirst => hne hfirst.2

/-- Where nothing renames the name, a lookup looks for it everywhere, and if it asks for
declarations then it asks for them everywhere. -/
theorem looksAlike_of_unrenamed (hname : context.Unrenamed name) (hdecls : config.decls = true)
    (config' : LookupConfig) (start start' : ScopeId) :
    context.LooksAlike program config config' start start' name := by
  rintro id decls decls' actual actual' ⟨imports, henters⟩ ⟨imports', henters'⟩
  obtain ⟨-, hset, first, -, hleads⟩ := hsound.leadsTo_of_enters henters
  obtain ⟨-, -, first', -, hleads'⟩ := hsound.leadsTo_of_enters henters'
  obtain rfl := hsound.eq_of_leadsTo hname hleads
  exact ⟨hsound.eq_of_leadsTo hname hleads', fun _ => hset.elim (fun htrue => htrue)
    fun hfirst => hfirst.1.trans hdecls⟩

/-- Looking for a name goes on to scopes of the context only. -/
theorem has_of_leadsTo {id target : ScopeId} {actual : Name} (hid : context.Has id)
    (hleads : context.LeadsTo program (id, name) (target, actual)) : context.Has target := by
  generalize hlast : (target, actual) = last at hleads
  induction hleads generalizing target actual with
  | refl =>
    cases hlast
    exact hid
  | tail _ hfollows _ =>
    cases hfollows with
    | clause hclause _ =>
      cases hlast
      exact (hsound.fits_of_mem_clausesAt hclause).target
    | auto _ hauto =>
      cases hlast
      obtain ⟨_, _, -, -, howned⟩ := hauto
      exact howned.1

theorem has_of_inspects (hstart : context.Has start) {decls : Bool} {id : ScopeId} {actual : Name}
    (hinspects : context.Inspects program config start name decls id actual) : context.Has id := by
  obtain ⟨imports, henters⟩ := hinspects
  obtain ⟨-, -, outer, houter, hleads⟩ := hsound.leadsTo_of_enters henters
  rcases houter with rfl | ⟨-, hclimb⟩
  · exact hsound.has_of_leadsTo hstart hleads
  · exact hsound.has_of_leadsTo (hsound.has_of_climb hstart hclimb) hleads

/-- A lookup that has gone through to the end has entered what it inspects, and has dealt
with all that leads out of there. -/
theorem done_of_inspects {found : List Overloads} {entered : List ScopeId}
    (hwalk : (program.atRest context).Walks [] (program.beginnings context config start name)
      found entered []) {decls : Bool} {id : ScopeId} {actual : Name}
    (hinspects : context.Inspects program config start name decls id actual) :
    id ∈ entered ∧ ∀ source ∈ (program.atRest context).sources decls config.imports id actual,
      World.Done entered found source := by
  obtain ⟨imports, henters⟩ := hinspects
  obtain rfl := (hsound.leadsTo_of_enters henters).1
  exact henters.done hwalk

end Sound

/-- A lookup inspects every scope that it enters. -/
theorem exists_inspects {found : List Overloads} {entered : List ScopeId}
    (hyields : (program.atRest context).Yields config.innermost []
      (program.beginnings context config start name) found entered) {id : ScopeId}
    (hid : id ∈ entered) :
    ∃ decls actual, context.Inspects program config start name decls id actual := by
  obtain ⟨decls, imports, actual, henters⟩ := hyields.exists_enters hid List.not_mem_nil
  exact ⟨decls, actual, imports, henters⟩

/-- A lookup enters scopes of the context only. -/
theorem Sound.has_of_entered (hsound : context.Sound program) (hstart : context.Has start)
    {found : List Overloads} {entered : List ScopeId}
    (hyields : (program.atRest context).Yields config.innermost []
      (program.beginnings context config start name) found entered) {id : ScopeId}
    (hid : id ∈ entered) : context.Has id := by
  obtain ⟨decls, actual, hinspects⟩ := exists_inspects hyields hid
  exact hsound.has_of_inspects hstart hinspects

/-- A lookup finds what another one finds if it deals with whatever that one begins with,
and looks for the same where both come to. -/
theorem Sound.subset_of_looksAlike (hsound : context.Sound program) {config' : LookupConfig}
    {start' : ScopeId} {found found' : List Overloads} {entered entered' : List ScopeId}
    (halike : context.LooksAlike program config config' start start' name)
    (himports : config'.imports = true → config.imports = true)
    (hall : config.innermost = false) (hall' : config'.innermost = false)
    (hwalk : (program.atRest context).Walks [] (program.beginnings context config start name)
      found entered [])
    (hother : (program.atRest context).Walks [] (program.beginnings context config' start' name)
      found' entered' [])
    (hbegins : ∀ source ∈ program.beginnings context config' start' name,
      World.Done entered found source) :
    found' ⊆ found := by
  refine (hother.carries hbegins fun decls imports id actual henters hid source hsource => ?_).1
  rw [← hall'] at henters
  obtain ⟨decls', actual', hinspects⟩ := exists_inspects (hwalk.yields hall) hid
  obtain ⟨rfl, hdecls⟩ := halike id decls' decls actual' actual hinspects ⟨imports, henters⟩
  obtain rfl := (hsound.leadsTo_of_enters henters).1
  exact (hsound.done_of_inspects hwalk hinspects).2 source
    (World.sources_subset hdecls himports hsource)

end Context

namespace Program

variable {keeps : Context → Prop} (hforest : program.tree.IsForest)
variable (hserves : program.Serves keeps) (hkeeps : keeps context)
include hforest hserves hkeeps

/-- A search yields what a walk from its beginnings yields in any later context, or nothing
if its scope was entered before. -/
theorem searchSharing_yields {id : ScopeId} (hid : context.Has id) (config : LookupConfig)
    (name : Name) (entered : List ScopeId) :
    Ends (Resolving keeps) (program.search program.clausesOf config id name entered) context
      fun result later => ∀ final, later.Grows final → keeps final →
        (program.atRest final).Yields config.innermost entered
          (if id ∈ entered then [] else program.beginnings final config id name)
          result.1 result.2 := by
  refine (searchSharing_ends hforest hserves hkeeps hid config name entered).mono ?_
  rintro ⟨found, entered'⟩ later hchanges ⟨-, hyields⟩ final hfinal hkept
  rw [(hserves.sound _ hkeeps).beginnings_of_grows hid (hchanges.1.toGrows.trans hfinal)]
  exact hyields final hfinal hkept

/-- A lookup yields what a walk from its beginnings yields in any later context. -/
theorem lookup_yields {id : ScopeId} (hid : context.Has id) (config : LookupConfig)
    (name : Name) :
    Ends (Resolving keeps) (program.lookup config none id name) context fun found later =>
      ∃ entered, ∀ final, later.Grows final → keeps final →
        (program.atRest final).Yields config.innermost []
          (program.beginnings final config id name) found entered := by
  refine (lookup_ends hforest hserves hkeeps hid config name).mono ?_
  rintro found later hchanges ⟨entered, hyields⟩
  refine ⟨entered, fun final hfinal hkept => ?_⟩
  rw [(hserves.sound _ hkeeps).beginnings_of_grows hid (hchanges.1.toGrows.trans hfinal)]
  exact hyields final hfinal hkept

/-- A lookup with a receiver yields what a walk from the beginnings of the receiver yields,
and then, unless the scope has been entered by that, what one from its own beginnings
yields past the scopes entered so far. -/
theorem lookup_receiver_yields {receiver id : ScopeId} (hreceiver : context.Has receiver)
    (hid : context.Has id) (config : LookupConfig) (name : Name) :
    Ends (Resolving keeps) (program.lookup config (some receiver) id name) context
      fun found later => ∃ first rest, found = first ++ rest ∧
        ∀ final, later.Grows final → keeps final → ∃ before entered,
          (program.atRest final).Yields config.innermost []
            (program.beginnings final config receiver name) first before ∧
          (program.atRest final).Yields config.innermost before
            (if id ∈ before then [] else program.beginnings final config id name)
            rest entered := by
  refine Ends.map (fun later hchanges => ⟨.refl later, hchanges.2⟩) ?_
  unfold lookupSharing
  dsimp only
  rw [Search.bind_run]
  refine (searchSharing_yields hforest hserves hkeeps hreceiver config name []).bind ?_
  rintro ⟨first, before⟩ middle hfirst hyields
  rw [Search.bind_run]
  refine (searchSharing_yields hforest hserves hfirst.2 (hfirst.1.toGrows.has hid) config name
    before).bind ?_
  rintro ⟨rest, entered⟩ later hrest hmore
  refine .same hrest.2 ⟨first, rest, rfl, fun final hfinal hkept => ⟨before, entered, ?_, ?_⟩⟩
  · simpa using hyields final (hrest.1.toGrows.trans hfinal) hkept
  · exact hmore final hfinal hkept

end Program

end Scoping
