import Scoping.Proofs.Lookup.Inspecting
import Scoping.Proofs.Lookup.Resuming
import Scoping.Proofs.Nearest

/-!
What a receiver does to a lookup. The scope is searched past the scopes that the
receiver's search has inspected. Where that search has looked for the same in them, no
match of the scope is lost; where it has not, one may be. A lookup that stops at the first match
stops within each of the two searches only.
-/

namespace Scoping

open Context Resolve

variable {program : Program} {context : Context} {config : LookupConfig}
variable {receiver id : ScopeId} {name : Name}

namespace Context

/-- Whether a receiver's search leaves out nothing that the search from a scope would
have found in the scopes that both inspect. -/
structure Accommodates (program : Program) (context : Context) (config : LookupConfig)
    (receiver id : ScopeId) (name : Name) : Prop where
  alike : context.LooksAlike program config config receiver id name
  /-- Not to come to the scope again does not keep the lookup from climbing. -/
  around : ∀ decls actual, context.Inspects program config receiver name decls id actual →
    config.parents = true → ∀ outer ∈ context.climb id,
      ∃ decls actual, context.Inspects program config receiver name decls outer actual

/-- Whether no scope is inspected by both searches. -/
def Apart (program : Program) (context : Context) (config : LookupConfig)
    (receiver id : ScopeId) (name : Name) : Prop :=
  ∀ other decls decls' actual actual',
    context.Inspects program config receiver name decls other actual →
    ¬ context.Inspects program config id name decls' other actual'

/-- What a search still has to go through past the scopes that another one has entered. -/
abbrev remaining (program : Program) (context : Context) (config : LookupConfig) (id : ScopeId)
    (name : Name) (before : List ScopeId) : List Source :=
  if id ∈ before then [] else program.beginnings context config id name

variable {first found : List Overloads} {before entered : List ScopeId}

/-- Where nothing renames the name, it is enough that the receiver's search climbs at
least as far. -/
theorem Sound.accommodates_of_unrenamed (hsound : context.Sound program)
    (hname : context.Unrenamed name) (hdecls : config.decls = true)
    (hfirst : (program.atRest context).Walks [] (program.beginnings context config receiver name)
      first before [])
    (hnone : config.innermost = true → first = [])
    (haround : ∀ outer ∈ context.climb id, outer ∈ receiver :: context.climb receiver) :
    context.Accommodates program config receiver id name where
  alike := hsound.looksAlike_of_unrenamed hname hdecls config receiver id
  around decls actual hinspects hparents outer houter := by
    have hbegins : ∃ decls imports,
        .scope decls imports outer name ∈ program.beginnings context config receiver name := by
      rcases List.mem_cons.mp (haround outer houter) with rfl | hclimb
      · exact ⟨_, _, List.mem_cons_self⟩
      · exact ⟨_, _, Program.mem_beginnings_iff.mpr (.inr (.inl ⟨hparents, outer, hclimb, rfl⟩))⟩
    obtain ⟨decls', imports', hmem⟩ := hbegins
    obtain ⟨decls, imports, actual, henters⟩ :=
      hfirst.exists_enters hnone (hfirst.pending_done hmem) List.not_mem_nil
    exact ⟨decls, actual, imports, henters⟩

/-- A lookup that stops at the first match, from a scope that declares the name, inspects
no other scope. -/
theorem eq_of_inspects_of_declared (hdecls : config.decls = true) (hstop : config.innermost = true)
    {start : ScopeId} {overloads : Overloads}
    (hdeclared : (context.scope start).declared.get? name = some overloads) {decls : Bool}
    {other : ScopeId} {actual : Name}
    (hinspects : context.Inspects program config start name decls other actual) :
    other = start := by
  obtain ⟨imports, sets, reached, rest, hwalk, -, hnone⟩ := hinspects
  obtain rfl := hnone hstop
  have hsources : (program.atRest context).sources config.decls config.imports start name =
      .set overloads :: if config.imports then (program.atRest context).imports start name
        else [] := by
    rw [World.sources, if_pos hdecls,
      show (program.atRest context).scope start = context.scope start from rfl, Scope.lookup,
      hdeclared]
    rfl
  cases hwalk with
  | refl => rfl
  | seen hid _ => cases hid
  | enter _ hrest =>
    rw [hsources] at hrest
    cases hrest

/-- Two scopes that both declare the name keep apart. -/
theorem apart_of_declared (hdecls : config.decls = true) (hstop : config.innermost = true)
    {overloads overloads' : Overloads}
    (hreceiver : (context.scope receiver).declared.get? name = some overloads)
    (hid : (context.scope id).declared.get? name = some overloads') (hne : receiver ≠ id) :
    context.Apart program config receiver id name := by
  intro other decls decls' actual actual' hinspects hinspects'
  exact hne ((eq_of_inspects_of_declared hdecls hstop hreceiver hinspects).symm.trans
    (eq_of_inspects_of_declared hdecls hstop hid hinspects'))

/-- Past an accommodating search the scope is searched as on its own, but for what that
search has found. -/
theorem Accommodates.yields (haccommodates : context.Accommodates program config receiver id name)
    (hsound : context.Sound program)
    (hfirst : (program.atRest context).Yields config.innermost []
      (program.beginnings context config receiver name) first before)
    (hnone : config.innermost = true → first = [])
    (hfound : (program.atRest context).Yields config.innermost []
      (program.beginnings context config id name) found entered) :
    ∃ more resumed, (program.atRest context).Yields config.innermost before
        (context.remaining program config id name before) more resumed ∧
      Padded Eq (· ∈ first) more found := by
  have hwalk := hfirst.walks_of_nil hnone
  have hstart : World.Resumes before first [] (program.beginnings context config id name) before
      (context.remaining program config id name before) := by
    unfold remaining
    split
    · next hid =>
      refine .start_of_done fun source hsource => ?_
      rcases Program.mem_beginnings_iff.mp hsource with
        rfl | ⟨hparents, outer, houter, rfl⟩ | htoplevel
      · exact hid
      · obtain ⟨decls, actual, hinspects⟩ := exists_inspects hfirst hid
        obtain ⟨decls', actual', hinspects'⟩ :=
          haccommodates.around decls actual hinspects hparents outer houter
        exact (hsound.done_of_inspects hwalk hinspects').1
      · exact hwalk.pending_done (Program.mem_beginnings_iff.mpr (.inr (.inr htoplevel)))
    · exact .start _
  refine hfound.resumes hstart (fun decls imports other actual henters hother source hsource => ?_)
    hnone
  obtain ⟨decls', actual', hinspects⟩ := exists_inspects hfirst hother
  obtain ⟨rfl, hdecls⟩ :=
    haccommodates.alike other decls' decls actual' actual hinspects ⟨imports, henters⟩
  obtain rfl := (hsound.leadsTo_of_enters henters).1
  exact (hsound.done_of_inspects hwalk hinspects).2 source
    (World.sources_subset hdecls (fun himports => himports) hsource)

/-- Past a search that keeps apart the scope is searched as on its own. -/
theorem Apart.yields (hapart : context.Apart program config receiver id name)
    (hfirst : (program.atRest context).Yields config.innermost []
      (program.beginnings context config receiver name) first before)
    (hfound : (program.atRest context).Yields config.innermost []
      (program.beginnings context config id name) found entered) :
    ∃ resumed, (program.atRest context).Yields config.innermost before
      (context.remaining program config id name before) found resumed := by
  have hid : id ∉ before := by
    intro hid
    obtain ⟨decls, actual, hstart⟩ := exists_inspects hfirst hid
    exact hapart id _ _ _ _ hstart inspects_start
  unfold remaining
  rw [if_neg hid]
  have hdone : ∀ decls imports other actual,
      (program.atRest context).Enters config.innermost []
        (program.beginnings context config id name) decls imports other actual →
      other ∈ before → ∀ source ∈ (program.atRest context).sources decls imports other actual,
        World.Done before [] source := by
    intro decls imports other actual henters hother
    obtain ⟨decls', actual', hother⟩ := exists_inspects hfirst hother
    exact absurd ⟨imports, henters⟩ (hapart other _ _ _ _ hother)
  obtain ⟨more, resumed, hmore, hpadded⟩ := hfound.resumes (.start _) hdone fun _ => rfl
  obtain rfl := hpadded.eq_of_not_spare fun _ => List.not_mem_nil
  exact ⟨resumed, hmore⟩

end Context

namespace Program

/-- Where the receiver's search accommodates that of the scope, every set that a lookup
finds without the receiver is found with it. -/
theorem mem_lookup_of_receiver {tree : Tree} (hfinished : tree.Finished)
    (hgrounded : tree.Grounded) (htree : program.tree = tree)
    (hreachable : program.Reachable context) (hreceiver : context.Has receiver)
    (hid : context.Has id) (name : Name) (hall : config.innermost = false) :
    ∃ found middle both last,
      program.lookup config none id name context = some (found, middle) ∧
      program.lookup config (some receiver) id name middle = some (both, last) ∧
      ∀ final, program.Reaches last final →
        final.Accommodates program config receiver id name →
        ∀ overloads ∈ found, overloads ∈ both := by
  have hforest : program.tree.IsForest := htree ▸ hfinished.isForest hgrounded
  have hserves := serves_sound hforest
  have hsound := (hreachable.settled hforest).sound
  obtain ⟨found, middle, hrun, hchanges, entered, hyields⟩ :=
    lookup_yields hforest hserves hsound hid config name
  obtain ⟨both, last, hboth, hmore, first, rest, rfl, hyieldsBoth⟩ :=
    lookup_receiver_yields hforest hserves hchanges.2 (hchanges.1.toGrows.has hreceiver)
      (hchanges.1.toGrows.has hid) config name
  refine ⟨found, middle, first ++ rest, last, hrun, hboth, ?_⟩
  intro final hreaches haccommodates overloads hfound
  obtain ⟨hgrows, hfinal⟩ := hreaches.answering hforest hserves hmore.2
  have halone := hyields final (hmore.1.toGrows.trans hgrows) hfinal
  obtain ⟨before, after, hfirst, hrest⟩ := hyieldsBoth final hgrows hfinal
  obtain ⟨more, resumed, hresumed, hpadded⟩ :=
    haccommodates.yields hfinal hfirst (by simp [hall]) halone
  obtain ⟨rfl, -⟩ := hresumed.unique hrest
  rcases hpadded.exists_or_spare hfound with ⟨_, hmem, rfl⟩ | hmem
  · exact List.mem_append_right _ hmem
  · exact List.mem_append_left _ hmem

/-- What is found from the first of the two modules is also found with the second one as
the receiver. -/
theorem mutualUse_mem_lookup_of_receiver : ∃ found both,
    mutualUse.lookup .allVisible none ⟨1⟩ mutualUseName mutualUseAnswered =
      some (found, mutualUseAnswered) ∧
    mutualUse.lookup .allVisible (some ⟨2⟩) ⟨1⟩ mutualUseName mutualUseAnswered =
      some (both, mutualUseAnswered) ∧
    found ≠ [] ∧ ∀ overloads ∈ found, overloads ∈ both := by
  have hasked : mutualUse.askAll [mutualUseRequest] mutualUseAsked = some mutualUseAnswered := by
    decide +kernel
  have hreachable : mutualUse.Reachable mutualUseAnswered := mutualUse_reachable.askAll hasked
  have hreceiver : mutualUseAnswered.Has ⟨2⟩ := by decide +kernel
  have hid : mutualUseAnswered.Has ⟨1⟩ := by decide +kernel
  obtain ⟨found, middle, both, last, hfound, hboth, hmem⟩ :=
    mem_lookup_of_receiver mutualUse_finished mutualUse_grounded rfl hreachable hreceiver hid
      mutualUseName (show LookupConfig.allVisible.innermost = false from rfl)
  have hrun : mutualUse.lookup .allVisible none ⟨1⟩ mutualUseName mutualUseAnswered =
      some ([.single (.node ⟨3⟩), .single (.node ⟨8⟩)], mutualUseAnswered) := by decide +kernel
  have hrun' : mutualUse.lookup .allVisible (some ⟨2⟩) ⟨1⟩ mutualUseName mutualUseAnswered =
      some ([.single (.node ⟨8⟩), .single (.node ⟨3⟩)], mutualUseAnswered) := by decide +kernel
  obtain ⟨rfl, rfl⟩ := Prod.mk.inj (Option.some.inj (hfound.symm.trans hrun))
  obtain ⟨rfl, rfl⟩ := Prod.mk.inj (Option.some.inj (hboth.symm.trans hrun'))
  refine ⟨_, _, hfound, hboth, by decide, hmem _ .refl ?_⟩
  have hforest := mutualUse_finished.isForest mutualUse_grounded
  have hsound := (hreachable.settled hforest).sound
  obtain ⟨-, first, rest, -, hyields⟩ := (lookup_receiver_yields hforest (serves_sound hforest)
    hsound hreceiver hid .allVisible mutualUseName).of_run hboth
  obtain ⟨before, entered, hfirst, -⟩ := hyields mutualUseAnswered (.refl _) hsound
  refine hsound.accommodates_of_unrenamed ?_ rfl hfirst.walks nofun (by decide +kernel)
  rw [hsound.unrenamed_iff]
  decide +kernel

/-- A module `Inner` that holds a function, inside a module that declares `x`; and a
module `T` with the variables `o` and `n`, of which one module imports `o` as `n`, while
another one uses `T` as a whole. -/
def receiving : Program :=
  (Session.fresh (.ofSteps
    [.variableDecl "x" none, .functionDecl "f" [] [], .moduleDecl false "Inner" [⟨1⟩],
      .moduleDecl false "Outer" [⟨0⟩, ⟨2⟩],
      .variableDecl "o" none, .variableDecl "n" none, .moduleDecl false "T" [⟨4⟩, ⟨5⟩],
      .identifier "T", .identifier "o", .renameTo ⟨8⟩ "n", .clause ⟨7⟩ .braces [⟨10⟩],
      .importStmt .unstated [⟨11⟩], .moduleDecl false "R" [⟨12⟩],
      .identifier "T", .clause ⟨14⟩ .unlimited [], .useStmt .unstated [⟨15⟩],
      .moduleDecl false "S" [⟨16⟩]]) {}).program

/-- What is known once the function and the last three modules are asked for. -/
def receivingAsked : Context :=
  (receiving.askAll [.scopeOf ⟨1⟩, .scopeOf ⟨6⟩, .scopeOf ⟨12⟩, .scopeOf ⟨16⟩] .empty).getD .empty

/-- Each of three receivers loses the match: the function, because `Inner` is then entered
without climbing on from there; the importing module, because `T` is then entered for `o`;
and `T` itself, because it is then entered without asking for its declarations. -/
theorem receiving_lookup_not_mem :
    receiving.tree.Finished ∧ receiving.tree.Grounded ∧ receiving.Reachable receivingAsked ∧
    ∀ case ∈ [(LookupConfig.allVisible, (⟨3⟩ : ScopeId), (⟨2⟩ : ScopeId), (⟨0⟩ : NodeId)),
        (.allVisible, ⟨5⟩, ⟨6⟩, ⟨5⟩), ({ imports := true }, ⟨4⟩, ⟨6⟩, ⟨5⟩)],
      let (config, receiver, id, node) := case
      let name := (receiving.tree.declName? node).getD .this
      receivingAsked.Has receiver ∧ receivingAsked.Has id ∧ config.innermost = false ∧
      (receiving.lookup config none id name receivingAsked).map Prod.fst =
        some [.single (.node node)] ∧
      ∀ found ∈ (receiving.lookup config (some receiver) id name receivingAsked).map Prod.fst,
        .single (.node node) ∉ found := by
  have hasked : receiving.askAll [.scopeOf ⟨1⟩, .scopeOf ⟨6⟩, .scopeOf ⟨12⟩, .scopeOf ⟨16⟩] .empty =
      some receivingAsked := by decide +kernel
  exact ⟨Tree.finished_ofSteps (by decide +kernel), by decide +kernel, .askAll .refl hasked,
    by decide +kernel⟩

/-- With a receiver, a lookup that stops at the first match returns what the lookup from the
receiver finds and then at most one set more, whether or not the receiver has a match. What
comes second is what a lookup finds from the scope alone if the searches have no scope
in common, or if the receiver's search finds nothing and accommodates the other. -/
theorem lookup_receiver_append {tree : Tree} (hfinished : tree.Finished)
    (hgrounded : tree.Grounded) (htree : program.tree = tree)
    (hreachable : program.Reachable context) (hreceiver : context.Has receiver)
    (hid : context.Has id) (name : Name) (hstop : config.innermost = true) :
    ∃ first found both rest middle middle' last,
      program.lookup config none receiver name context = some (first, middle) ∧
      program.lookup config none id name middle = some (found, middle') ∧
      program.lookup config (some receiver) id name middle' = some (both, last) ∧
      both = first ++ rest ∧ first.length ≤ 1 ∧ found.length ≤ 1 ∧ rest.length ≤ 1 ∧
      ∀ final, program.Reaches last final →
        final.Apart program config receiver id name ∨
          first = [] ∧ final.Accommodates program config receiver id name →
        rest = found := by
  have hforest : program.tree.IsForest := htree ▸ hfinished.isForest hgrounded
  have hserves := serves_sound hforest
  have hsound := (hreachable.settled hforest).sound
  obtain ⟨first, middle, hrun, hchanges, entered, hyields⟩ :=
    lookup_yields hforest hserves hsound hreceiver config name
  obtain ⟨found, middle', hrun', hchanges', entered', hyields'⟩ :=
    lookup_yields hforest hserves hchanges.2 (hchanges.1.toGrows.has hid) config name
  have hlater := hchanges.1.toGrows.trans hchanges'.1.toGrows
  obtain ⟨both, last, hboth, hmore, same, rest, rfl, hyieldsBoth⟩ :=
    lookup_receiver_yields hforest hserves hchanges'.2 (hlater.has hreceiver) (hlater.has hid)
      config name
  -- the receiver's search finds in both lookups what it finds alone
  have hgrows := hchanges'.1.toGrows.trans hmore.1.toGrows
  obtain ⟨before, after, hsame, hrest⟩ := hyieldsBoth last (.refl last) hmore.2
  have hfirst := hyields last hgrows hmore.2
  have hfound := hyields' last hmore.1.toGrows hmore.2
  obtain ⟨rfl, -⟩ := hfirst.unique hsame
  refine ⟨first, found, first ++ rest, rest, middle, middle', last, hrun, hrun', hboth, rfl,
    hfirst.length_le hstop, hfound.length_le hstop, hrest.length_le hstop, ?_⟩
  intro final hreaches hharmless
  obtain ⟨hfinally, hfinal⟩ := hreaches.answering hforest hserves hmore.2
  obtain ⟨before, after, hfirst, hrest⟩ := hyieldsBoth final hfinally hfinal
  have hfound := hyields' final (hmore.1.toGrows.trans hfinally) hfinal
  rcases hharmless with hapart | ⟨rfl, haccommodates⟩
  · obtain ⟨resumed, hresumed⟩ := hapart.yields hfirst hfound
    exact (hrest.unique hresumed).1
  · obtain ⟨more, resumed, hresumed, hpadded⟩ :=
      haccommodates.yields hfinal hfirst (fun _ => rfl) hfound
    obtain rfl := hpadded.eq_of_not_spare fun _ => List.not_mem_nil
    exact (hrest.unique hresumed).1

/-- Both modules declare the variable, and with the second one as the receiver of a lookup
from the first both declarations are found at once. -/
theorem mutualUse_lookup_receiver_append : ∃ first found middle middle' last,
    mutualUse.lookup ⟨true, true, true, false, true⟩ none ⟨2⟩ mutualUseName mutualUseAnswered =
      some (first, middle) ∧
    mutualUse.lookup ⟨true, true, true, false, true⟩ none ⟨1⟩ mutualUseName middle =
      some (found, middle') ∧
    mutualUse.lookup ⟨true, true, true, false, true⟩ (some ⟨2⟩) ⟨1⟩ mutualUseName middle' =
      some (first ++ found, last) ∧
    first.length = 1 ∧ found.length = 1 := by
  have hasked : mutualUse.askAll [mutualUseRequest] mutualUseAsked = some mutualUseAnswered := by
    decide +kernel
  have hreachable : mutualUse.Reachable mutualUseAnswered := mutualUse_reachable.askAll hasked
  obtain ⟨first, found, both, rest, middle, middle', last, hfirst, hfound, hboth, rfl, -, -, -,
      hrest⟩ :=
    lookup_receiver_append mutualUse_finished mutualUse_grounded rfl hreachable
      (show mutualUseAnswered.Has ⟨2⟩ by decide +kernel)
      (show mutualUseAnswered.Has ⟨1⟩ by decide +kernel) mutualUseName
      (show (⟨true, true, true, false, true⟩ : LookupConfig).innermost = true by rfl)
  have hrun : ∀ case ∈ [((⟨2⟩ : ScopeId), (⟨8⟩ : NodeId)), (⟨1⟩, ⟨3⟩)],
      mutualUse.lookup ⟨true, true, true, false, true⟩ none case.1 mutualUseName
        mutualUseAnswered = some ([.single (.node case.2)], mutualUseAnswered) := by decide +kernel
  obtain ⟨rfl, rfl⟩ := Prod.mk.inj
    (Option.some.inj (hfirst.symm.trans (hrun (⟨2⟩, ⟨8⟩) (.head _))))
  obtain ⟨rfl, rfl⟩ := Prod.mk.inj
    (Option.some.inj (hfound.symm.trans (hrun (⟨1⟩, ⟨3⟩) (.tail _ (.head _)))))
  have hrun' : (mutualUse.lookup ⟨true, true, true, false, true⟩ (some ⟨2⟩) ⟨1⟩ mutualUseName
      mutualUseAnswered).map Prod.snd = some mutualUseAnswered := by decide +kernel
  obtain rfl : last = mutualUseAnswered := by
    rw [hboth] at hrun'
    exact Option.some.inj hrun'
  have hdeclared : ∀ id ∈ [(⟨1⟩ : ScopeId), ⟨2⟩],
      ((mutualUseAnswered.scope id).declared.get? mutualUseName).isSome = true := by decide +kernel
  obtain ⟨overloads, hoverloads⟩ := Option.isSome_iff_exists.mp (hdeclared ⟨2⟩ (by simp))
  obtain ⟨overloads', hoverloads'⟩ := Option.isSome_iff_exists.mp (hdeclared ⟨1⟩ (by simp))
  obtain rfl := hrest mutualUseAnswered .refl
    (.inl (apart_of_declared rfl rfl hoverloads hoverloads' (by decide)))
  exact ⟨_, _, _, _, _, hfirst, hfound, hboth, rfl, rfl⟩

/-- A record with a field, beside a function with a variable of the same name. -/
def fieldAndLocalTree : Tree :=
  .ofSteps [.variableDecl "v" none, .recordDecl "R" [⟨0⟩], .variableDecl "v" none,
    .functionDecl "f" [] [⟨2⟩], .moduleDecl false "M" [⟨1⟩, ⟨3⟩]]

def fieldAndLocal : Program := (Session.fresh fieldAndLocalTree {}).program

/-- The name of the field and of the variable. -/
def fieldAndLocalName : Name := (fieldAndLocal.tree.declName? ⟨0⟩).getD .this

/-- What is known once the record and the function are asked for. -/
def fieldAndLocalAsked : Context :=
  (fieldAndLocal.askAll [.scopeOf ⟨1⟩, .scopeOf ⟨3⟩] .empty).getD .empty

/-- The field is found in the record, and yet the lookup goes on to the variable. -/
theorem fieldAndLocal_lookup_two :
    fieldAndLocal.tree.Finished ∧ fieldAndLocal.tree.Grounded ∧
    fieldAndLocal.Reachable fieldAndLocalAsked ∧
    fieldAndLocalAsked.Has ⟨2⟩ ∧ fieldAndLocalAsked.Has ⟨3⟩ ∧
    ∀ config ∈ [{ decls := true, innermost := true },
        { LookupConfig.allVisible with innermost := true }],
      (fieldAndLocal.lookup config none ⟨2⟩ fieldAndLocalName fieldAndLocalAsked).map Prod.fst =
        some [.single (.node ⟨0⟩)] ∧
      (fieldAndLocal.lookup config (some ⟨2⟩) ⟨3⟩ fieldAndLocalName fieldAndLocalAsked).map
        Prod.fst = some [.single (.node ⟨0⟩), .single (.node ⟨2⟩)] := by
  have hasked : fieldAndLocal.askAll [.scopeOf ⟨1⟩, .scopeOf ⟨3⟩] .empty =
      some fieldAndLocalAsked := by decide +kernel
  have hfinished : fieldAndLocalTree.Finished := Tree.finished_ofSteps (by decide +kernel)
  exact ⟨hfinished, by decide +kernel, .askAll .refl hasked, by decide +kernel, by decide +kernel,
    by decide +kernel⟩

end Program

end Scoping
