import Scoping.Proofs.Lookup.Following
import Scoping.Proofs.Request

/-!
Why a lookup reports what it does. Every set in an answer has a derivation: from a
scope where the lookup begins, along clauses and the automatic module, to a scope
that declares the name it has become by then, or to a clause that makes this name
stand for its target. The only other sets are single top-level modules.
-/

namespace Scoping

open Context Resolve

namespace Context

/-- One step of a derivation: a name in a scope, by a clause of the scope, for a name
in the target of the clause; or the same name in the automatic module. -/
inductive Derives (program : Program) (context : Context) : ScopeId × Name → ScopeId × Name → Prop
  | clause {id : ScopeId} {name actual : Name} {clauses : List Clause} {clause : Clause}
    (hclauses : program.visibility id context = some (some clauses, context))
    (hclause : clause ∈ clauses) (hcarries : clause.Carries name actual) :
    Derives program context (id, name) (clause.target, actual)
  | auto {id target : ScopeId} {name : Name} (huses : (context.scope id).autoUses = true)
    (hauto : context.IsAuto program (some target)) :
    Derives program context (id, name) (target, name)

/-- The scopes that a lookup starts from, and whether it looks at what they declare:
its own scope, those around it out to the first module, and the root scope. -/
inductive Starts (config : LookupConfig) (context : Context) (id : ScopeId) : ScopeId → Bool → Prop
  | here : Starts config context id id config.decls
  | around {before after : List ScopeId} {outer : ScopeId} (hparents : config.parents = true)
    (henclosing : (context.scope id).enclosing = before ++ outer :: after)
    (hbefore : ∀ inner ∈ before, (context.scope inner).isModule = false) :
    Starts config context id outer true
  | root {outer : ScopeId} (hparents : config.parents = true)
    (houter : outer ∈ (context.scope id).enclosing) (howner : (context.scope outer).owner = none) :
    Starts config context id outer true

/-- What the sets are that a lookup of a name from a scope may report. -/
inductive Means (program : Program) (config : LookupConfig) (context : Context) (id : ScopeId)
    (name : Name) : Overloads → Prop
  | declared {start : ScopeId} {overloads : Overloads}
    (hstart : context.Starts config id start true)
    (hdeclared : (context.scope start).declared.get? name = some overloads) :
    Means program config context id name overloads
  | brought {start target : ScopeId} {decls : Bool} {actual : Name} {overloads : Overloads}
    (hstart : context.Starts config id start decls) (himports : config.imports = true)
    (hderives : Relation.TransGen (context.Derives program) (start, name) (target, actual))
    (hdeclared : (context.scope target).declared.get? actual = some overloads) :
    Means program config context id name overloads
  | symbol {start target : ScopeId} {decls : Bool} {visible : Name} {clauses : List Clause}
    {clause : Clause} {pair : Name × Name} {owner : NodeId}
    (hstart : context.Starts config id start decls) (himports : config.imports = true)
    (hderives : Relation.ReflTransGen (context.Derives program) (start, name) (target, visible))
    (hclauses : program.visibility target context = some (some clauses, context))
    (hclause : clause ∈ clauses) (hkind : clause.kind = .symbolOnly)
    (hpair : pair ∈ clause.names) (hvisible : pair.2 = visible)
    (howner : (context.scope clause.target).owner = some owner) :
    Means program config context id name (.single (.node owner))
  | toplevel {node : NodeId} (htoplevel : config.toplevel = true)
    (hnode : program.tree.toplevel? name = some node) :
    Means program config context id name (.single (.node node))

variable {program : Program} {context : Context}

theorem Sound.derives_of_follows (hsound : context.Sound program) {first last : ScopeId × Name}
    (hfollows : context.Follows program first last) : context.Derives program first last := by
  cases hfollows with
  | clause hclause hroute =>
    have hcarries := Clause.carries_of_route (hsound.fits_of_mem_clausesAt hclause).whole hroute
    exact .clause (program.visibility_of_mem_clausesAt hsound hclause) hclause hcarries
  | auto huses hauto => exact .auto huses hauto

/-- The scopes that a lookup climbs to are scopes that it starts from. -/
theorem Sound.starts_of_mem_climb (hsound : context.Sound program) {config : LookupConfig}
    {id outer : ScopeId} (hid : context.Has id) (hparents : config.parents = true)
    (houter : outer ∈ context.climb id) : context.Starts config id outer true := by
  rcases List.mem_append.mp houter with hnear | hlast
  · obtain ⟨before, after, henclosing, hbefore⟩ := mem_upToModule_iff.mp hnear
    exact .around hparents henclosing hbefore
  · have hlast := Option.mem_toList.mp hlast
    exact .root hparents (List.mem_of_mem_getLast? hlast) (hsound.ownedBy_of_getLast? hid hlast).2

/-- What a walk comes to by way of clauses is derived from where it starts. -/
theorem Sound.eq_or_derives_of_opened (hsound : context.Sound program)
    {decls imports decls' imports' : Bool} {id target : ScopeId} {name actual : Name}
    (hopened : Relation.ReflTransGen (program.atRest context).Opens (.scope decls imports id name)
      (.scope decls' imports' target actual)) :
    (decls' = decls ∧ imports' = imports ∧ target = id ∧ actual = name) ∨
      (imports = true ∧
        Relation.TransGen (context.Derives program) (id, name) (target, actual)) := by
  refine (hsound.eq_or_follows_of_opened hopened).imp_right ?_
  rintro ⟨himports, -, -, hfollows⟩
  exact ⟨himports, Relation.TransGen.mono (fun _ _ => hsound.derives_of_follows) _ _ hfollows⟩

/-- A set that a walk reports has a derivation from where the walk starts. -/
theorem Sound.means_of_opened (hsound : context.Sound program) {config : LookupConfig}
    {id start target : ScopeId} {name actual : Name} {decls decls' imports' : Bool}
    (hstart : context.Starts config id start decls)
    (hopened : Relation.ReflTransGen (program.atRest context).Opens
      (.scope decls config.imports start name) (.scope decls' imports' target actual))
    {overloads : Overloads}
    (hset : (program.atRest context).Opens (.scope decls' imports' target actual)
      (.set overloads)) :
    context.Means program config id name overloads := by
  have hled := hsound.eq_or_derives_of_opened hopened
  rcases World.declared_or_symbol_of_opens hset with
    ⟨hdecls, hdeclared⟩ | ⟨himports', clause, hclause, hroute, owner, howner, rfl⟩
  · rcases hled with ⟨rfl, rfl, rfl, rfl⟩ | ⟨himports, hderives⟩
    · exact .declared (hdecls ▸ hstart) hdeclared
    · exact .brought hstart himports hderives hdeclared
  · obtain ⟨hkind, pair, hpair, hvisible⟩ := Clause.exists_of_route_eq_symbol hroute
    have hclauses := program.visibility_of_mem_clausesAt hsound hclause
    rcases hled with ⟨rfl, rfl, rfl, rfl⟩ | ⟨himports, hderives⟩
    · exact .symbol hstart himports' .refl hclauses hclause hkind hpair hvisible howner
    · exact .symbol hstart himports hderives.to_reflTransGen hclauses hclause hkind hpair hvisible
        howner

/-- So has every set that a search yields; a top-level module needs no derivation. -/
theorem Sound.means_of_yields (hsound : context.Sound program) {config : LookupConfig}
    {id : ScopeId} (hid : context.Has id) {name : Name} {entered entered' : List ScopeId}
    {found : List Overloads}
    (hyields : (program.atRest context).Yields config.innermost entered
      (.scope config.decls config.imports id name ::
        program.beyond config (context.climb id) name) found entered')
    {overloads : Overloads} (hfound : overloads ∈ found) :
    context.Means program config id name overloads := by
  obtain ⟨first, hfirst, hpath⟩ := hyields.ledTo hfound
  have hstarted : ∀ {start decls}, context.Starts config id start decls →
      Relation.ReflTransGen (program.atRest context).Opens
        (.scope decls config.imports start name) (.set overloads) →
      context.Means program config id name overloads := by
    intro start decls hstart hpath
    rcases Relation.ReflTransGen.cases_tail hpath with heq | ⟨source, hopened, hset⟩
    · cases heq
    · cases source with
      | set other => exact hset.elim
      | scope => exact hsound.means_of_opened hstart hopened hset
  rcases List.mem_cons.mp hfirst with rfl | hbeyond
  · exact hstarted .here hpath
  · rcases List.mem_append.mp hbeyond with haround | htop
    · obtain ⟨outer, houter, rfl⟩ := List.mem_map.mp haround
      split at houter
      · next hparents => exact hstarted (hsound.starts_of_mem_climb hid hparents houter) hpath
      · cases houter
    · split at htop
      · next htoplevel =>
        obtain ⟨node, hnode, rfl⟩ := List.mem_map.mp htop
        cases World.eq_of_opened_set hpath
        exact .toplevel htoplevel (Option.mem_toList.mp hnode)
      · cases htop

end Context

namespace Program

variable {program : Program} {keeps : Context → Prop} {context : Context}

/-- What one search reports has a meaning in any context that is given time. -/
theorem searchSharing_means (hforest : program.tree.IsForest) (hserves : program.Serves keeps)
    (hkeeps : keeps context) {id : ScopeId} (hid : context.Has id) (config : LookupConfig)
    (name : Name) (entered : List ScopeId) :
    Ends (Resolving keeps) (program.search program.clausesOf config id name entered) context
      fun result later => ∀ final, later.Grows final → keeps final →
        ∀ overloads ∈ result.1, final.Means program config id name overloads := by
  refine (searchSharing_ends hforest hserves hkeeps hid config name entered).mono ?_
  rintro ⟨found, entered'⟩ later hchanges ⟨-, hyields⟩ final hfinal hkept overloads hfound
  have hgrows := hchanges.1.toGrows.trans hfinal
  have hyields := hyields final hfinal hkept
  rw [← (hserves.sound _ hkeeps).climb_of_grows hid hgrows] at hyields
  split at hyields
  · obtain ⟨start, hstart, -⟩ := hyields.ledTo hfound
    cases hstart
  · exact (hserves.sound _ hkept).means_of_yields (hgrows.has hid) hyields hfound

theorem lookupSharing_means (hforest : program.tree.IsForest) (hserves : program.Serves keeps)
    (hkeeps : keeps context) {receiver : Option ScopeId} {id : ScopeId}
    (hreceiver : ∀ other ∈ receiver, context.Has other) (hid : context.Has id)
    (config : LookupConfig) (name : Name) (entered : List ScopeId) :
    Ends (Resolving keeps) (program.lookupSharing config receiver id name entered) context
      fun result later => ∀ final, later.Grows final → keeps final →
        ∀ overloads ∈ result.1, ∃ start, (start = id ∨ receiver = some start) ∧
          final.Means program config start name overloads := by
  unfold lookupSharing
  cases receiver with
  | none =>
    refine (searchSharing_means hforest hserves hkeeps hid config name entered).mono ?_
    rintro result later - hall final hfinal hkept overloads hfound
    exact ⟨id, .inl rfl, hall final hfinal hkept overloads hfound⟩
  | some receiver =>
    dsimp only
    rw [Search.bind_run]
    refine (searchSharing_means hforest hserves hkeeps (hreceiver receiver rfl) config name
      entered).bind ?_
    rintro ⟨found, middle⟩ later hchanges hfirst
    rw [Search.bind_run]
    refine (searchSharing_means hforest hserves hchanges.2 (hchanges.1.toGrows.has hid) config
      name middle).bind ?_
    rintro ⟨more, last⟩ last' hmore hsecond
    refine .same hmore.2 fun final hfinal hkept overloads hfound => ?_
    rcases List.mem_append.mp hfound with hleft | hright
    · exact ⟨receiver, .inr rfl, hfirst final (hmore.1.toGrows.trans hfinal) hkept overloads hleft⟩
    · exact ⟨id, .inl rfl, hsecond final hfinal hkept overloads hright⟩

/-- Every set that a lookup reports, whatever receiver it has and whatever scopes it
skips, has a meaning in the scope asked about or in that of the receiver. -/
theorem lookupSharing_sound {tree : Tree} (hfinished : tree.Finished) (hgrounded : tree.Grounded)
    (htree : program.tree = tree) (hreachable : program.Reachable context)
    {receiver : Option ScopeId} {id : ScopeId} (hreceiver : ∀ other ∈ receiver, context.Has other)
    (hid : context.Has id) (config : LookupConfig) (name : Name) (entered : List ScopeId) :
    ∃ found entered' after,
      program.lookupSharing config receiver id name entered context =
        some ((found, entered'), after) ∧
      ∀ final, program.Reaches after final → ∀ overloads ∈ found,
        ∃ start, (start = id ∨ receiver = some start) ∧
          final.Means program config start name overloads := by
  have hforest : program.tree.IsForest := htree ▸ hfinished.isForest hgrounded
  have hserves := serves_sound hforest
  obtain ⟨⟨found, entered'⟩, after, hrun, hchanges, hmeans⟩ := lookupSharing_means hforest hserves
    (hreachable.settled hforest).sound hreceiver hid config name entered
  refine ⟨found, entered', after, hrun, fun final hreaches => ?_⟩
  obtain ⟨hgrows, hfinal⟩ := hreaches.answering hforest hserves hchanges.2
  exact hmeans final hgrows hfinal

/-- Both declarations of the variable have a derivation, whatever the root scope adds. -/
theorem mutualUse_lookupSharing_sound :
    ∃ found entered after,
      mutualUse.lookupSharing .allVisible (some ⟨0⟩) ⟨1⟩ mutualUseName [] mutualUseAsked =
        some ((found, entered), after) ∧ found.length = 2 ∧
      ∀ overloads ∈ found, ∃ start, (start = ⟨1⟩ ∨ some ⟨0⟩ = some start) ∧
        after.Means mutualUse .allVisible start mutualUseName overloads := by
  have hroot : ∀ other ∈ some (ScopeId.mk 0), mutualUseAsked.Has other := by decide +kernel
  obtain ⟨found, entered, after, hrun, hmeans⟩ := lookupSharing_sound mutualUse_finished
    mutualUse_grounded rfl mutualUse_reachable hroot mutualUse_has .allVisible mutualUseName []
  have hlength : (mutualUse.lookupSharing .allVisible (some ⟨0⟩) ⟨1⟩ mutualUseName []
      mutualUseAsked).map (fun result => result.1.1.length) = some 2 := by decide +kernel
  rw [hrun] at hlength
  exact ⟨found, entered, after, hrun, Option.some.inj hlength, hmeans after .refl⟩

end Program

end Scoping
