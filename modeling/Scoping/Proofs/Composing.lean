import Scoping.Proofs.Lookup.Tally
import Scoping.Proofs.Request

/-!
Lookups that share the scopes that they enter. Each skips what those before it have been
in, so that a scope's own declarations are reported once by all of them together. A clause
that stands for its target and the search for a top-level module report nodes without
entering their scopes, so these may be reported again.
-/

namespace Scoping

open Context Resolve

/-- A lookup of a name that others are to share. -/
structure SharedLookup where
  config : LookupConfig
  receiver : Option ScopeId
  scope : ScopeId
deriving DecidableEq

namespace SharedLookup

/-- The scopes that it searches from, in this order. -/
def starts (call : SharedLookup) : List ScopeId := call.receiver.toList ++ [call.scope]

/-- The question that it asks after others that have entered some scopes. -/
def request (call : SharedLookup) (name : Name) (entered : List ScopeId) : Request :=
  .lookup call.config call.receiver call.scope name entered

end SharedLookup

namespace Program

/-- What lookups of one name find and which scopes they enter, each going on where those
before it have been. Other questions may be asked in between. -/
inductive Composed (program : Program) (name : Name) :
    List SharedLookup → List Overloads → List ScopeId → Context → Prop
  | start {context : Context} (hreachable : program.Reachable context) :
    Composed program name [] [] [] context
  | wait {calls : List SharedLookup} {found : List Overloads} {entered : List ScopeId}
    {context later : Context} (hcomposed : Composed program name calls found entered context)
    (hreaches : program.Reaches context later) : Composed program name calls found entered later
  | call {calls : List SharedLookup} {found more : List Overloads} {entered entered' : List ScopeId}
    {context later : Context} {call : SharedLookup}
    (hcomposed : Composed program name calls found entered context)
    (hvalid : (call.request name entered).Valid program context)
    (hresponse : program.respond (call.request name entered) context =
      some (.sets more entered', later)) :
    Composed program name (calls ++ [call]) (found ++ more) entered' later

/-- Whether one of some lookups asks at a scope for a declaration as the top-level module
of the name. -/
def asksFor (program : Program) (name : Name) (calls : List SharedLookup) (decl : Decl)
    (id : ScopeId) : Bool :=
  (program.tree.toplevel? name).map .node == some decl &&
    calls.any fun call => call.config.toplevel && call.starts.contains id

variable {program : Program} {keeps : Context → Prop} {context later : Context}
variable {name : Name} {calls : List SharedLookup} {call : SharedLookup}
variable {found more : List Overloads} {entered entered' : List ScopeId} {decl : Decl}

theorem respond_request_eq_some_iff :
    program.respond (call.request name entered) context = some (.sets more entered', later) ↔
      program.lookupSharing call.config call.receiver call.scope name entered context =
        some ((more, entered'), later) := by
  rw [SharedLookup.request, respond, bind_eq_some_iff]
  constructor
  · rintro ⟨⟨sets, reached⟩, middle, hrun, hpure⟩
    cases hpure
    exact hrun
  · intro hrun
    exact ⟨_, _, hrun, rfl⟩

end Program

namespace Context

/-- Searches for a name from several scopes, each of which goes on where those before it
have been. -/
inductive Searches (program : Program) (context : Context) (config : LookupConfig) (name : Name) :
    List ScopeId → List ScopeId → List Overloads → List ScopeId → Prop
  | nil {entered : List ScopeId} : Searches program context config name [] entered [] entered
  | cons {id : ScopeId} {rest entered middle entered' : List ScopeId}
    {found more : List Overloads}
    (hyields : (program.atRest context).Yields config.innermost entered
      (if id ∈ entered then [] else program.beginnings context config id name) found middle)
    (hrest : Searches program context config name rest middle more entered') :
    Searches program context config name (id :: rest) entered (found ++ more) entered'

variable {program : Program} {context : Context} {config : LookupConfig} {name : Name}
variable {starts entered entered' : List ScopeId} {id : ScopeId} {found : List Overloads}
variable {decl : Decl} {asks : ScopeId → Bool}

/-- A search begins with one report, of the top-level module, which its first scope pays
for. -/
theorem offers_beginnings_le (context : Context)
    (hasks : config.toplevel = true → (program.tree.toplevel? name).map .node = some decl →
      asks id = true) :
    decl.offers (program.beginnings context config id name) ≤ if asks id then 1 else 0 := by
  have haround : decl.offers ((if config.parents then context.climb id else []).map fun outer =>
      .scope true config.imports outer name) = 0 := by
    apply decl.offers_eq_zero
    intro source hsource
    obtain ⟨outer, -, rfl⟩ := List.mem_map.mp hsource
    exact ⟨_, _, _, _, rfl⟩
  rw [Program.beginnings, Decl.offers_scope, Program.beyond, Decl.offers_append, haround,
    Nat.zero_add]
  cases htoplevel : config.toplevel with
  | false => exact Nat.zero_le _
  | true =>
    cases htop : program.tree.toplevel? name with
    | none => exact Nat.zero_le _
    | some node =>
      by_cases heq : Decl.node node = decl
      · simp [heq, hasks htoplevel (by rw [htop, ← heq]; rfl)]
      · simp [heq]

/-- A search enters its first scope. -/
theorem mem_of_yields
    (hyields : (program.atRest context).Yields config.innermost entered
      (program.beginnings context config id name) found entered') : id ∈ entered' := by
  unfold World.Yields at hyields
  split at hyields
  · obtain ⟨first, rest, -, hwalk⟩ := hyields
    cases hwalk with
    | seen hid hrest => exact hrest.subset hid
    | enter _ hrest => exact hrest.subset List.mem_cons_self
  · cases hyields with
    | seen hid hrest => exact hrest.subset hid
    | enter _ hrest => exact hrest.subset List.mem_cons_self

/-- What one search reports is paid for by the scopes that it enters. -/
theorem Sound.listings_search_le (hsound : context.Sound program)
    (hacyclic : program.tree.Acyclic) (hformed : program.tree.WellFormed)
    (hyields : (program.atRest context).Yields config.innermost entered
      (if id ∈ entered then [] else program.beginnings context config id name) found entered')
    (hasks : config.toplevel = true → (program.tree.toplevel? name).map .node = some decl →
      asks id = true) :
    decl.listings found + entered.countP (context.declares decl) +
        entered.countP (context.refersTo decl) + entered.countP asks ≤
      entered'.countP (context.declares decl) + entered'.countP (context.refersTo decl) +
        entered'.countP asks := by
  have hpaid := hyields.listings_le (hsound.offers_sources_le hacyclic hformed decl)
  obtain ⟨hsuffix, -⟩ := hyields.suffix_nodup
  have hasked : decl.offers (if id ∈ entered then []
      else program.beginnings context config id name) + entered.countP asks ≤
        entered'.countP asks := by
    split at hyields
    · next hid =>
      rw [if_pos hid, Decl.offers_nil, Nat.zero_add]
      exact hsuffix.sublist.countP_le
    · next hid =>
      have hbegins := offers_beginnings_le context hasks
      obtain ⟨visited, rfl⟩ := hsuffix
      have hvisited : id ∈ visited :=
        (List.mem_append.mp (mem_of_yields hyields)).resolve_right hid
      have hcount : (if asks id then 1 else 0) ≤ visited.countP asks := by
        split
        · next hid => exact List.countP_pos_iff.mpr ⟨id, hvisited, hid⟩
        · exact Nat.zero_le _
      rw [if_neg hid, List.countP_append]
      omega
  omega

/-- The induction is on the scopes that are searched from. -/
theorem Searches.listings_le
    (hsearches : context.Searches program config name starts entered found entered')
    (hsound : context.Sound program) (hacyclic : program.tree.Acyclic)
    (hformed : program.tree.WellFormed)
    (hasks : config.toplevel = true → (program.tree.toplevel? name).map .node = some decl →
      ∀ start ∈ starts, asks start = true) :
    decl.listings found + entered.countP (context.declares decl) +
        entered.countP (context.refersTo decl) + entered.countP asks ≤
      entered'.countP (context.declares decl) + entered'.countP (context.refersTo decl) +
        entered'.countP asks := by
  induction hsearches with
  | nil => simp
  | cons hyields _ ih =>
    have hfirst := hsound.listings_search_le hacyclic hformed hyields fun htoplevel htop =>
      hasks htoplevel htop _ List.mem_cons_self
    have hrest := ih fun htoplevel htop start hstart =>
      hasks htoplevel htop start (List.mem_cons_of_mem _ hstart)
    rw [Decl.listings_append]
    omega

theorem Searches.nodup
    (hsearches : context.Searches program config name starts entered found entered')
    (hentered : entered.Nodup) : entered'.Nodup := by
  induction hsearches with
  | nil => exact hentered
  | cons hyields _ ih => exact ih (hyields.suffix_nodup.2 hentered)

end Context

namespace Program

variable {program : Program} {keeps : Context → Prop} {context later : Context}
variable {name : Name} {calls : List SharedLookup}
variable {found : List Overloads} {entered : List ScopeId} {decl : Decl}

/-- A lookup searches from its receiver and then from its scope. -/
theorem lookupSharing_searches (hforest : program.tree.IsForest) (hserves : program.Serves keeps)
    (hkeeps : keeps context) {receiver : Option ScopeId} {id : ScopeId}
    (hreceiver : ∀ other ∈ receiver, context.Has other) (hid : context.Has id)
    (config : LookupConfig) (name : Name) (entered : List ScopeId) :
    Ends (Resolving keeps) (program.lookupSharing config receiver id name entered) context
      fun result later => ∀ final, later.Grows final → keeps final →
        final.Searches program config name (receiver.toList ++ [id]) entered result.1 result.2 := by
  unfold lookupSharing
  cases receiver with
  | none =>
    refine (searchSharing_yields hforest hserves hkeeps hid config name entered).mono ?_
    rintro ⟨found, entered'⟩ later hchanges hyields final hfinal hkept
    have hsearches := Searches.cons (hyields final hfinal hkept) .nil
    rwa [List.append_nil] at hsearches
  | some receiver =>
    dsimp only
    rw [Search.bind_run]
    refine (searchSharing_yields hforest hserves hkeeps (hreceiver receiver rfl) config name
      entered).bind ?_
    rintro ⟨first, middle⟩ later hfirst hyields
    rw [Search.bind_run]
    refine (searchSharing_yields hforest hserves hfirst.2 (hfirst.1.toGrows.has hid) config name
      middle).bind ?_
    rintro ⟨rest, entered'⟩ last hrest hmore
    refine .same hrest.2 fun final hfinal hkept => ?_
    have hsearches := Searches.cons (hmore final hfinal hkept) .nil
    rw [List.append_nil] at hsearches
    exact .cons (hyields final (hrest.1.toGrows.trans hfinal) hkept) hsearches

/-- Composed lookups are questions, so they lead to reachable contexts. -/
theorem Composed.reachable (hcomposed : program.Composed name calls found entered context) :
    program.Reachable context := by
  induction hcomposed with
  | start hreachable => exact hreachable
  | wait _ hreaches ih => exact ih.trans hreaches
  | call _ hvalid hresponse ih => exact ih.asked hvalid hresponse

/-- The induction is on the lookups; what those before it are paid with stays paid in the
contexts that later ones lead to. -/
theorem Composed.listings_le (hforest : program.tree.IsForest) (hacyclic : program.tree.Acyclic)
    (hformed : program.tree.WellFormed)
    (hcomposed : program.Composed name calls found entered context) :
    entered.Nodup ∧ ∀ final, context.Grows final → final.Sound program → ∀ decl,
      decl.listings found ≤ entered.countP (final.declares decl) +
        entered.countP (final.refersTo decl) +
        entered.countP (program.asksFor name calls decl) := by
  have hserves := serves_sound hforest
  induction hcomposed with
  | start => exact ⟨List.nodup_nil, fun _ _ _ _ => Nat.zero_le _⟩
  | wait hcomposed hreaches ih =>
    obtain ⟨hnodup, hpaid⟩ := ih
    have hsound := (hcomposed.reachable.settled hforest).sound
    have hgrows := (hreaches.answering hforest hserves hsound).1
    exact ⟨hnodup, fun final hfinal => hpaid final (hgrows.trans hfinal)⟩
  | @call calls found more entered entered' context later call hcomposed hvalid hresponse ih =>
    obtain ⟨hnodup, hpaid⟩ := ih
    have hsound := (hcomposed.reachable.settled hforest).sound
    obtain ⟨hchanges, hsearches⟩ := (lookupSharing_searches hforest hserves hsound hvalid.1 hvalid.2
      call.config name entered).of_run (respond_request_eq_some_iff.mp hresponse)
    refine ⟨(hsearches later (.refl later) hchanges.2).nodup hnodup, ?_⟩
    intro final hfinal hkept decl
    have hbefore := hpaid final (hchanges.1.toGrows.trans hfinal) hkept decl
    -- the scopes that earlier lookups asked at still pay for what they asked for
    have hmore : entered.countP (program.asksFor name calls decl) ≤
        entered.countP (program.asksFor name (calls ++ [call]) decl) := by
      apply List.countP_mono_left
      intro id _ hasked
      simp only [asksFor, List.any_append, Bool.and_eq_true, Bool.or_eq_true] at hasked ⊢
      exact ⟨hasked.1, .inl hasked.2⟩
    have hasks : call.config.toplevel = true →
        (program.tree.toplevel? name).map .node = some decl →
        ∀ start ∈ call.starts, program.asksFor name (calls ++ [call]) decl start = true := by
      intro htoplevel htop start hstart
      simp [asksFor, htoplevel, htop, hstart]
    have hcall := (hsearches final hfinal hkept).listings_le hkept hacyclic hformed hasks
    dsimp only at hcall
    rw [Decl.listings_append]
    omega

/-- However lookups of one name are composed, the next one has an answer, no scope is entered
twice, and each scope that is entered accounts for at most three reports of a declaration:
one because the scope declares it, one because a clause of the scope stands for it, and one
because a lookup asks there for it as the top-level module of the name. At most one scope
declares it, unless it is a pattern variable. -/
theorem composed_count_le {tree : Tree} (hfinished : tree.Finished) (hgrounded : tree.Grounded)
    (htree : program.tree = tree)
    (hcomposed : program.Composed name calls found entered context) :
    (∀ call : SharedLookup, (call.request name entered).Valid program context →
      ∃ more entered' later, program.respond (call.request name entered) context =
        some (.sets more entered', later)) ∧
    entered.Nodup ∧
    ∀ decl : Decl,
      (found.flatMap Overloads.toList).count decl ≤ entered.countP (context.declares decl) +
        entered.countP (context.refersTo decl) +
        entered.countP (program.asksFor name calls decl) ∧
      ((∀ node, decl = .node node → tree.tag? node ≠ some .typeQuery) →
        entered.countP (context.declares decl) ≤ 1) := by
  subst htree
  have hforest := hfinished.isForest hgrounded
  have hformed : program.tree.WellFormed := by
    obtain ⟨texts, steps, hbuild⟩ := hfinished
    exact Tree.wellFormed_of_build hbuild
  have hsound := (hcomposed.reachable.settled hforest).sound
  obtain ⟨hnodup, hpaid⟩ :=
    hcomposed.listings_le hforest (Tree.grounded_iff_acyclic.mp hgrounded) hformed
  refine ⟨fun call hvalid => ?_, hnodup, fun decl => ⟨hpaid context (.refl context) hsound decl,
    fun hdecl => ?_⟩⟩
  · obtain ⟨⟨more, entered'⟩, later, hrun, -⟩ := lookupSharing_ends hforest (serves_sound hforest)
      hsound hvalid.1 hvalid.2 call.config name entered
    exact ⟨more, entered', later, respond_request_eq_some_iff.mpr hrun⟩
  · rw [List.countP_eq_length_filter]
    have hdeclares := fun id (hid : id ∈ entered.filter (context.declares decl)) =>
      (List.mem_filter.mp hid).2
    have hdistinct := hnodup.filter (context.declares decl)
    generalize entered.filter (context.declares decl) = declaring at hdeclares hdistinct ⊢
    match declaring with
    | [] | [_] => simp
    | first :: second :: rest =>
      have hsame := hsound.eq_of_declares hforest.toPlaced (hdeclares first (by simp))
        (hdeclares second (by simp)) hdecl
      simp [hsame] at hdistinct

/-- A module `A` that declares a module `N` and uses it. -/
def inwardUseTree : Tree :=
  .ofSteps [.moduleDecl false "N" [], .identifier "N", .clause ⟨1⟩ .unlimited [],
    .useStmt .unstated [⟨2⟩], .moduleDecl false "A" [⟨0⟩, ⟨3⟩]]

def inwardUse : Program := (Session.fresh inwardUseTree {}).program

/-- The names of the two modules. -/
def inwardUseName (node : NodeId) : Name := (inwardUse.tree.declName? node).getD .this

/-- What is known once the inner module is looked up in the outer one. -/
def inwardUseAsked : Context :=
  (inwardUse.askAll [.scopeOf ⟨4⟩, .scopeOf ⟨0⟩,
    .lookup .allVisible none ⟨1⟩ (inwardUseName ⟨0⟩) []] .empty).getD .empty

theorem inwardUse_finished : inwardUseTree.Finished := Tree.finished_ofSteps (by decide +kernel)

theorem inwardUse_reachable : inwardUse.Reachable inwardUseAsked := by
  have hasked : inwardUse.askAll [.scopeOf ⟨4⟩, .scopeOf ⟨0⟩,
      .lookup .allVisible none ⟨1⟩ (inwardUseName ⟨0⟩) []] .empty = some inwardUseAsked := by
    decide +kernel
  exact .askAll .refl hasked

/-- The inner module is found among the declarations of the outer one and by the name that
its `use` brings in. -/
theorem inwardUse_composed : inwardUse.Composed (inwardUseName ⟨0⟩) [⟨.allVisible, none, ⟨1⟩⟩]
    [.single (.node ⟨0⟩), .single (.node ⟨0⟩)] [⟨0⟩, ⟨1⟩] inwardUseAsked := by
  have hresponse : inwardUse.respond (.lookup .allVisible none ⟨1⟩ (inwardUseName ⟨0⟩) [])
      inwardUseAsked = some (.sets [.single (.node ⟨0⟩), .single (.node ⟨0⟩)] [⟨0⟩, ⟨1⟩],
        inwardUseAsked) := by decide +kernel
  exact .call (.start inwardUse_reachable) (by decide +kernel) hresponse

/-- Both of the two reports are accounted for by the scope of the outer module. -/
theorem inwardUse_composed_count_le :
    let found : List Overloads := [.single (.node ⟨0⟩), .single (.node ⟨0⟩)]
    let entered : List ScopeId := [⟨0⟩, ⟨1⟩]
    inwardUse.Composed (inwardUseName ⟨0⟩) [⟨.allVisible, none, ⟨1⟩⟩] found entered inwardUseAsked ∧
    (found.flatMap Overloads.toList).count (.node ⟨0⟩) = 2 ∧
    entered.countP (inwardUseAsked.declares (.node ⟨0⟩)) = 1 ∧
    1 ≤ entered.countP (inwardUseAsked.refersTo (.node ⟨0⟩)) := by
  intro found entered
  obtain ⟨-, -, hcount⟩ :=
    composed_count_le inwardUse_finished (by decide +kernel) rfl inwardUse_composed
  have hasks : entered.countP (inwardUse.asksFor (inwardUseName ⟨0⟩)
      [⟨.allVisible, none, ⟨1⟩⟩] (.node ⟨0⟩)) = 0 := by decide +kernel
  have htotal : (found.flatMap Overloads.toList).count (.node ⟨0⟩) ≤
      entered.countP (inwardUseAsked.declares (.node ⟨0⟩)) +
        entered.countP (inwardUseAsked.refersTo (.node ⟨0⟩)) +
        entered.countP (inwardUse.asksFor (inwardUseName ⟨0⟩) [⟨.allVisible, none, ⟨1⟩⟩]
          (.node ⟨0⟩)) := (hcount (.node ⟨0⟩)).1
  have hdeclares : entered.countP (inwardUseAsked.declares (.node ⟨0⟩)) ≤ 1 :=
    (hcount (.node ⟨0⟩)).2 (by rintro node ⟨⟩; decide +kernel)
  have hfound : (found.flatMap Overloads.toList).count (.node ⟨0⟩) = 2 := by decide +kernel
  have hsome : 0 < entered.countP (inwardUseAsked.declares (.node ⟨0⟩)) := by decide +kernel
  refine ⟨inwardUse_composed, hfound, ?_, ?_⟩ <;> omega

/-- Lookups report a module twice, be it that one lookup finds it as a declaration and through
a clause, or that two lookups from different scopes ask for a top-level module. -/
theorem inwardUse_reports_twice :
    inwardUseTree.Finished ∧ inwardUseTree.Grounded ∧
    ∀ case ∈ [((⟨0⟩ : NodeId), [SharedLookup.mk .allVisible none ⟨1⟩]),
        (⟨4⟩, [⟨{ toplevel := true }, none, ⟨1⟩⟩, ⟨{ toplevel := true }, none, ⟨2⟩⟩])],
      let (node, calls) := case
      ∃ entered, inwardUse.Composed (inwardUseName node) calls
        [.single (.node node), .single (.node node)] entered inwardUseAsked := by
  refine ⟨inwardUse_finished, by decide +kernel, ?_⟩
  have hfirst : inwardUse.respond
      (SharedLookup.request ⟨{ toplevel := true }, none, ⟨1⟩⟩ (inwardUseName ⟨4⟩) [])
      inwardUseAsked = some (.sets [.single (.node ⟨4⟩)] [⟨1⟩], inwardUseAsked) := by decide +kernel
  have hsecond : inwardUse.respond
      (SharedLookup.request ⟨{ toplevel := true }, none, ⟨2⟩⟩ (inwardUseName ⟨4⟩) [⟨1⟩])
      inwardUseAsked = some (.sets [.single (.node ⟨4⟩)] [⟨2⟩, ⟨1⟩], inwardUseAsked) := by
    decide +kernel
  rw [List.forall_mem_cons, List.forall_mem_singleton]
  constructor
  · exact ⟨_, inwardUse_composed⟩
  · have hone := Composed.call (.start inwardUse_reachable) (by decide +kernel) hfirst
    exact ⟨_, .call hone (by decide +kernel) hsecond⟩

end Program

end Scoping
