import Scoping.Proofs.CandidateScope
import Scoping.Proofs.Request

/-!
What the short form of a chain of instantiation points loses. Links are left out when
they are taken to be wholly visible from the call, and the site of the first link is not
the call itself but a scope around it that offers candidates. Every function that the long
form lets be found is found through the short form, as long as the scopes passed over do
not see the automatic module and the links left out are rightly taken to be visible.
-/

namespace Scoping

open Context Resolve

namespace Context

/-- What makes it safe to leave out a link to a site that can be climbed to: the lookup
from the call is steady, the climb does not leave it, and wherever else the lookup from
the site begins, the one from the call gets to. -/
structure Redundant (program : Program) (context : Context) (scope site : ScopeId) (name : Name) :
    Prop where
  steady : context.Steady program scope name
  straight : ¬ context.Strays scope site
  around : ∀ outer, context.Begins site outer → outer = site ∨ ∃ first,
    context.Begins scope first ∧ context.LeadsTo program (first, name) (outer, name)

variable {program : Program} {context : Context}

/-- A name leads along unrestricted use. -/
theorem Sound.leadsTo_of_uses (hsound : context.Sound program) {first target : ScopeId}
    (hused : Relation.ReflTransGen context.Uses first target) (name : Name) :
    context.LeadsTo program (first, name) (target, name) := by
  refine hused.lift (fun id => (id, name)) fun id target huses => ?_
  obtain ⟨hclause, hkind⟩ := huses
  exact .clause hclause (hsound.route_of_allContents hclause hkind name)

/-- A lookup comes to wherever one from a redundant site begins. -/
theorem Sound.subsumes_of_redundant (hsound : context.Sound program) {scope site : ScopeId}
    {name : Name} (hsees : context.Sees scope site)
    (hredundant : context.Redundant program scope site name) :
    context.Subsumes program scope site name := by
  intro outer houter
  rcases hredundant.around outer houter with rfl | hled
  · obtain ⟨first, hbegins, hused⟩ := hsees.uses_or_strays.resolve_right hredundant.straight
    exact ⟨first, hbegins, hsound.leadsTo_of_uses hused name⟩
  · exact hled

/-- Whether the root scope is the only one that lies around others. -/
def Flat (context : Context) : Prop :=
  ∀ index < context.scopes.size, ∀ outer ∈ (context.scope ⟨index⟩).enclosing, outer = ⟨0⟩

instance decidableFlat (context : Context) : Decidable context.Flat :=
  inferInstanceAs (Decidable (∀ _ < _, _))

/-- Among modules that lie in no other, every site is redundant where lookups are steady. -/
theorem Sound.redundant_of_flat (hsound : context.Sound program) (hflat : context.Flat)
    {scope site : ScopeId} (hsite : context.Has site) {name : Name}
    (hsteady : context.Steady program scope name) : context.Redundant program scope site name where
  steady := hsteady
  straight := by
    rintro ⟨inner, outer, -, houter, hnot, -⟩
    have hinner := has_of_mem_enclosing houter
    obtain rfl := hflat inner.index hinner outer houter
    exact hnot (.root (hsound.root_of_has hinner))
  around outer hbegins := by
    rcases List.mem_cons.mp ((hsound.begins_iff hsite).mp hbegins) with heq | hclimb
    · exact .inl heq
    · obtain rfl := hflat site.index hsite outer (mem_enclosing_of_mem_climb hclimb)
      exact .inr ⟨⟨0⟩, .root (hsound.root_of_has hsite), .refl⟩

/-- Every function found from the call or from the outer chain is found from the chain of
the point. A site that is left out is redundant; what is found from it is found from the
call, and what is found from the call is found from the first site of the chain. -/
theorem Collapses.mem_of_collects {scope : ScopeId} {outer : Option PoiId} {link : PoiId}
    (hcollapses : context.Collapses scope outer link) (hsound : context.Sound program)
    (hsites : ∀ site ∈ context.sitesFrom outer, context.Has site)
    (hsecluded : program.Secluded context scope) {name : Name}
    (hredundant : ∀ site ∈ context.sitesFrom outer, site ∉ context.sitesFrom (some link) →
      context.Redundant program scope site name)
    {before after : List Overloads}
    (hbefore : context.Collects program name (scope :: context.sitesFrom outer) before)
    (hafter : context.Collects program name (context.sitesFrom (some link)) after)
    {overloads : Overloads} (hfunction : program.tree.OffersFunction overloads)
    (hfound : overloads ∈ before) : overloads ∈ after := by
  have hcall : ∀ part, context.Looks program scope name part → overloads ∈ part →
      overloads ∈ after := by
    intro part hlooks hmem
    obtain ⟨taken, htaken, hall⟩ :=
      hsound.mem_of_secluded hcollapses.has hsecluded hlooks hmem hfunction
    have hsite : taken ∈ context.sitesFrom (some link) :=
      mem_sitesFrom_iff.mpr ⟨link, List.mem_cons_self, by rw [hcollapses.site, htaken]⟩
    obtain ⟨found, hfound, hsubset⟩ := hafter.all taken hsite
    exact hsubset (hall found hfound)
  obtain ⟨start, hstart, part, hlooks, hmem⟩ := hbefore.only overloads hfound
  rcases List.mem_cons.mp hstart with rfl | hsite
  · exact hcall part hlooks hmem
  by_cases hkept : start ∈ context.sitesFrom (some link)
  · exact hafter.mem hkept hlooks hmem
  obtain ⟨found, hlooks', -⟩ := hbefore.all scope List.mem_cons_self
  refine hcall found hlooks' ?_
  have hless := hredundant start hsite hkept
  obtain ⟨other, hother, hsite'⟩ := mem_sitesFrom_iff.mp hsite
  obtain ⟨dropped, hchain, hdropped⟩ := hcollapses.dropped
  rw [hchain] at hother
  rcases List.mem_append.mp hother with hgone | hbehind
  · obtain ⟨site, hsame, hsees⟩ := hdropped other hgone
    obtain rfl := Option.some.inj (hsite'.symm.trans hsame)
    exact hsound.subset_of_subsumes hcollapses.has (hsites start hsite) hless.steady
      (hsound.subsumes_of_redundant hsees hless) hlooks hlooks' hmem
  · have hmember : other ∈ context.chainFrom (some link) := List.mem_cons_of_mem _ hbehind
    exact absurd (mem_sitesFrom_iff.mpr ⟨other, hmember, hsite'⟩) hkept

end Context

namespace Program

variable {program : Program} {context : Context}

/-- The point of a call is found, and so is every function under it: whatever lookups
from the call and from the links of the outer chain find together, those from the links
of the chain of the point find, if the links left out are redundant and no scope that is
passed over sees the automatic module. -/
theorem instantiationPoint_candidates {tree : Tree} (hfinished : tree.Finished)
    (hgrounded : tree.Grounded) (htree : program.tree = tree)
    (hreachable : program.Reachable context) {scope : ScopeId} (hscope : context.Has scope)
    {outer : Option PoiId} (houter : ∀ link ∈ outer, context.HasLink link) (name : Name) :
    ∃ link later before middle after last,
      program.instantiationPoint scope outer context = some (link, later) ∧
      program.candidates name (scope :: later.sitesFrom outer) later = some (before, middle) ∧
      program.candidates name (later.sitesFrom (some link)) middle = some (after, last) ∧
      ∀ final, program.Reaches last final → program.Secluded final scope →
        (∀ site ∈ later.sitesFrom outer, site ∉ later.sitesFrom (some link) →
          final.Redundant program scope site name) →
        ∀ overloads ∈ before, program.tree.OffersFunction overloads → overloads ∈ after := by
  have hforest : program.tree.IsForest := htree ▸ hfinished.isForest hgrounded
  have hserves := serves_sound hforest
  obtain ⟨link, later, hrun, ⟨-, hsound⟩, hknown, hlinks⟩ :=
    instantiationPoint_ends hserves (hreachable.settled hforest).sound hscope houter
  have hlinked := hlinks (hreachable.linked hforest)
  have hcollapses := hlinked.collapsed scope outer link hknown
  have hlink : ∀ other ∈ some link, later.HasLink other := fun other hother =>
    Option.some.inj hother ▸ hcollapses.hasLink
  obtain ⟨before, middle, hbefore, hmiddle, hcollects⟩ := candidates_ends hforest hserves hsound name
    (List.forall_mem_cons.mpr
      ⟨hcollapses.has, fun site (hsite : site ∈ later.sitesFrom outer) =>
        hlinked.has_of_mem_sitesFrom hsite⟩)
  obtain ⟨after, last, hafter, hlast, hcollects'⟩ := candidates_ends hforest hserves hmiddle.2 name
    fun site (hsite : site ∈ later.sitesFrom (some link)) =>
      hmiddle.1.toGrows.has (hlinked.has_of_mem_sitesFrom hsite)
  refine ⟨link, later, before, middle, after, last, hrun, hbefore, hafter, ?_⟩
  intro final hreaches hsecluded hredundant overloads hfound hfunction
  obtain ⟨hgrows, hfinal⟩ := hreaches.answering hforest hserves hlast.2
  have hmore := hlast.1.toGrows.trans hgrows
  have hall := hmiddle.1.toGrows.trans hmore
  have hsites : ∀ site ∈ later.sitesFrom outer, final.Has site := fun _ hsite =>
    hall.has (hlinked.has_of_mem_sitesFrom hsite)
  rw [← hlinked.sitesFrom_of_grows hall hcollapses.hasOuter] at hredundant hcollects hsites
  rw [← hlinked.sitesFrom_of_grows hall hlink] at hredundant hcollects'
  exact (hsound.collapses_of_grows hall hcollapses).mem_of_collects hfinal hsites hsecluded
    hredundant (hcollects final hmore hfinal) (hcollects' final hgrows hfinal) hfunction hfound

/-- A library with one function, and a module that uses it and has a function too. -/
def libraryUse : Program :=
  (Session.fresh (.ofSteps
    [.functionDecl "g" [] [], .moduleDecl false "Lib" [⟨0⟩], .identifier "Lib",
      .clause ⟨2⟩ .unlimited [], .useStmt .unstated [⟨3⟩], .functionDecl "f" [] [],
      .moduleDecl false "User" [⟨4⟩, ⟨5⟩]]) {}).program

/-- The name of the function of the library. -/
def libraryUseName : Name := (libraryUse.tree.declName? ⟨0⟩).getD .this

/-- What is known once the instantiation point of a call in the library is asked for. -/
def libraryUseAsked : Context :=
  (libraryUse.askAll [.scopeOf ⟨1⟩, .scopeOf ⟨6⟩, .instantiation ⟨1⟩ none] .empty).getD .empty

/-- What is known once that of a call in the module is asked for, under the first. -/
def libraryUsePointed : Context :=
  ((libraryUse.instantiationPoint ⟨2⟩ (some ⟨0⟩) libraryUseAsked).map Prod.snd).getD .empty

/-- What is known once the function is looked up along both chains. -/
def libraryUseLookedUp : Context :=
  (((libraryUse.candidates libraryUseName [⟨2⟩, ⟨1⟩] libraryUsePointed).bind fun before =>
    libraryUse.candidates libraryUseName [⟨2⟩] before.2).map Prod.snd).getD .empty

theorem libraryUse_finished : libraryUse.tree.Finished := Tree.finished_ofSteps (by decide +kernel)

theorem libraryUse_grounded : libraryUse.tree.Grounded := by decide +kernel

/-- The library is redundant where it is used. -/
theorem libraryUse_redundant :
    libraryUseLookedUp.Redundant libraryUse ⟨2⟩ ⟨1⟩ libraryUseName := by
  have hasked : libraryUse.askAll [.scopeOf ⟨1⟩, .scopeOf ⟨6⟩, .instantiation ⟨1⟩ none,
      .instantiation ⟨2⟩ (some ⟨0⟩), .lookup .allVisible none ⟨2⟩ libraryUseName []] .empty =
      some libraryUseLookedUp := by decide +kernel
  have hforest := libraryUse_finished.isForest libraryUse_grounded
  have hsound := (Reachable.settled hforest (.askAll .refl hasked)).sound
  have hname : libraryUseLookedUp.Unrenamed libraryUseName := by
    rw [hsound.unrenamed_iff]
    decide +kernel
  exact hsound.redundant_of_flat (by decide +kernel) (by decide +kernel)
    (hsound.steady_of_unrenamed hname ⟨2⟩)

/-- The link of the library is left out, and its function is found from the module. -/
theorem libraryUse_candidates :
    ∃ before middle after,
      libraryUse.instantiationPoint ⟨2⟩ (some ⟨0⟩) libraryUseAsked = some (⟨1⟩, libraryUsePointed) ∧
      libraryUse.candidates libraryUseName [⟨2⟩, ⟨1⟩] libraryUsePointed = some (before, middle) ∧
      libraryUse.candidates libraryUseName [⟨2⟩] middle = some (after, libraryUseLookedUp) ∧
      .single (.node ⟨0⟩) ∈ before ∧ .single (.node ⟨0⟩) ∈ after := by
  have hasked : libraryUse.askAll [.scopeOf ⟨1⟩, .scopeOf ⟨6⟩, .instantiation ⟨1⟩ none] .empty =
      some libraryUseAsked := by decide +kernel
  have hscope : libraryUseAsked.Has ⟨2⟩ := by decide +kernel
  have houter : ∀ link ∈ some (⟨0⟩ : PoiId), libraryUseAsked.HasLink link := fun link hlink =>
    Option.some.inj hlink ▸ (show 0 < libraryUseAsked.pois.size by decide +kernel)
  obtain ⟨link, later, before, middle, after, last, hrun, hbefore, hafter, hall⟩ :=
    instantiationPoint_candidates libraryUse_finished libraryUse_grounded rfl
      (.askAll .refl hasked) hscope houter libraryUseName
  have hlater : libraryUsePointed = later := by rw [libraryUsePointed, hrun]; rfl
  subst hlater
  have hlink : (libraryUse.instantiationPoint ⟨2⟩ (some ⟨0⟩) libraryUseAsked).map Prod.fst =
      some ⟨1⟩ := by decide +kernel
  rw [hrun] at hlink
  obtain rfl := Option.some.inj hlink
  have hsites : libraryUsePointed.sitesFrom (some ⟨0⟩) = [⟨1⟩] := by decide +kernel
  have hsites' : libraryUsePointed.sitesFrom (some ⟨1⟩) = [⟨2⟩] := by decide +kernel
  rw [hsites] at hbefore hall
  rw [hsites'] at hafter hall
  have hlast : libraryUseLookedUp = last := by simp [libraryUseLookedUp, hbefore, hafter]
  subst hlast
  have hfound : (libraryUse.candidates libraryUseName [⟨2⟩, ⟨1⟩] libraryUsePointed).map
      (fun result => decide (.single (.node ⟨0⟩) ∈ result.1)) = some true := by decide +kernel
  rw [hbefore] at hfound
  have hmem : .single (.node ⟨0⟩) ∈ before := of_decide_eq_true (Option.some.inj hfound)
  have hfunction : libraryUse.tree.OffersFunction (.single (.node ⟨0⟩)) :=
    ⟨⟨0⟩, by decide +kernel, List.mem_singleton_self _⟩
  refine ⟨before, middle, after, hrun, hbefore, hafter, hmem, ?_⟩
  refine hall libraryUseLookedUp .refl (fun _ _ _ => by decide +kernel) ?_ _ hmem hfunction
  intro site hsite _
  rw [List.mem_singleton.mp hsite]
  exact libraryUse_redundant

/-- Whether a function that lookups from a call and from an outer chain find is not found
from the chain of the point of the call. -/
def Loses (program : Program) (context : Context) (scope : ScopeId) (outer : Option PoiId)
    (node : NodeId) : Prop :=
  let name := (program.tree.declName? node).getD .this
  let finds := fun (result : List Overloads × Context) => result.1.any (·.contains (.node node))
  program.tree.tag? node = some .functionDecl ∧
    (program.instantiationPoint scope outer context).bind (fun point =>
      (program.candidates name (scope :: point.2.sitesFrom outer) point.2).bind fun before =>
        (program.candidates name (point.2.sitesFrom (some point.1)) before.2).map fun after =>
          (finds before, finds after)) = some (true, false)

instance decidableLoses (program : Program) (context : Context) (scope : ScopeId)
    (outer : Option PoiId) (node : NodeId) : Decidable (program.Loses context scope outer node) :=
  inferInstanceAs (Decidable (_ ∧ _))

/-- Four calls that lose a function. `User` is passed over although it sees the automatic
module. `S` uses a module of `Outer`, but not `Outer`; `Inner` lies two modules within
`Outer`. `U` imports `o` of `T` under the name of another function of `T` before it uses
`T`. -/
def lostFunction : Program :=
  (Session.fresh (.ofSteps
    [.functionDecl "helper" [] [], .moduleDecl true "Standard" [⟨0⟩], .moduleDecl false "User" [],
      .functionDecl "g" [] [], .functionDecl "h" [] [], .moduleDecl false "Lib" [⟨4⟩],
      .functionDecl "k" [] [], .moduleDecl false "Inner" [⟨6⟩], .moduleDecl false "Mid" [⟨7⟩],
      .moduleDecl false "Outer" [⟨3⟩, ⟨5⟩, ⟨8⟩],
      .identifier "Outer", .dot ⟨10⟩ "Lib", .clause ⟨11⟩ .unlimited [], .useStmt .unstated [⟨12⟩],
      .functionDecl "f" [] [], .moduleDecl false "S" [⟨13⟩, ⟨14⟩],
      .functionDecl "o" [] [], .functionDecl "n" [] [], .moduleDecl false "T" [⟨16⟩, ⟨17⟩],
      .identifier "T", .identifier "o", .renameTo ⟨20⟩ "n", .clause ⟨19⟩ .braces [⟨22⟩],
      .importStmt .unstated [⟨23⟩], .identifier "T", .clause ⟨25⟩ .unlimited [],
      .useStmt .unstated [⟨26⟩], .moduleDecl false "U" [⟨24⟩, ⟨27⟩]]) {}).program

/-- What is known once the points of calls in `Lib`, `Outer` and `T` are asked for. -/
def lostFunctionAsked : Context :=
  (lostFunction.askAll [.scopeOf ⟨2⟩, .scopeOf ⟨5⟩, .instantiation ⟨3⟩ none, .scopeOf ⟨15⟩,
    .instantiation ⟨2⟩ none, .scopeOf ⟨7⟩, .scopeOf ⟨18⟩, .instantiation ⟨7⟩ none,
    .scopeOf ⟨28⟩] .empty).getD .empty

/-- Each of the four calls loses a function. -/
theorem lostFunction_loses :
    lostFunction.tree.Finished ∧ lostFunction.tree.Grounded ∧
    lostFunction.Reachable lostFunctionAsked ∧
    lostFunction.Loses lostFunctionAsked ⟨1⟩ none ⟨0⟩ ∧
    lostFunction.Loses lostFunctionAsked ⟨4⟩ (some ⟨0⟩) ⟨3⟩ ∧
    lostFunction.Loses lostFunctionAsked ⟨6⟩ (some ⟨1⟩) ⟨3⟩ ∧
    lostFunction.Loses lostFunctionAsked ⟨8⟩ (some ⟨2⟩) ⟨17⟩ := by
  have hasked : lostFunction.askAll [.scopeOf ⟨2⟩, .scopeOf ⟨5⟩, .instantiation ⟨3⟩ none,
      .scopeOf ⟨15⟩, .instantiation ⟨2⟩ none, .scopeOf ⟨7⟩, .scopeOf ⟨18⟩, .instantiation ⟨7⟩ none,
      .scopeOf ⟨28⟩] .empty = some lostFunctionAsked := by decide +kernel
  exact ⟨Tree.finished_ofSteps (by decide +kernel), by decide +kernel, .askAll .refl hasked,
    by decide +kernel, by decide +kernel, by decide +kernel, by decide +kernel⟩

end Program

end Scoping
