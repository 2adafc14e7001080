import Scoping.Proofs.Lookup.Exposure

/-!
What whole visibility means for lookups. A scope is wholly visible when a climb comes to
it, by scopes around and by unrestricted use, from wherever it has got to. A lookup goes
out of its own scope only, and of that no further than the first module and the root;
where the climb takes no other way out, the lookup finds what the scope declares, unless
a clause or a new name gets there first.
-/

namespace Scoping

open Context Resolve

namespace Context

/-- Whether a climb from one scope to another may on its way go out to a scope where a
lookup does not begin. -/
def Strays (context : Context) (start goal : ScopeId) : Prop :=
  ∃ inner outer, context.Sees start inner ∧ outer ∈ (context.scope inner).enclosing ∧
    ¬ context.Begins start outer ∧ context.Sees outer goal

/-- The scopes that a lookup of a name is bound to come to by unrestricted use: no clause
before such a use stands for its target under the name, and no other name leads there. -/
inductive Shown (program : Program) (context : Context) (start : ScopeId) (name : Name) :
    ScopeId → Prop
  | begins {first : ScopeId} (hbegins : context.Begins start first)
    (hmet : context.MetAs program start name first name) : Shown program context start name first
  | uses {id : ScopeId} {before after : List Clause} {clause : Clause}
    (hshown : Shown program context start name id)
    (hclauses : context.clausesAt id = before ++ clause :: after)
    (hbefore : ∀ earlier ∈ before, earlier.kind = .symbolOnly →
      ∀ pair ∈ earlier.names, pair.2 ≠ name)
    (hkind : clause.kind = .allContents)
    (hmet : context.MetAs program start name clause.target name) :
    Shown program context start name clause.target

variable {program : Program} {context : Context}

/-- A climb stays where a lookup begins, unrestricted use apart, or it may stray. -/
theorem Sees.uses_or_strays {start goal : ScopeId} (hsees : context.Sees start goal) :
    (∃ first, context.Begins start first ∧ Relation.ReflTransGen context.Uses first goal) ∨
      context.Strays start goal := by
  induction hsees with
  | refl => exact .inl ⟨start, .here, .refl⟩
  | @tail inner outer hpath hstep ih =>
    rcases ih with ⟨first, hbegins, hused⟩ | ⟨inner', outer', hinner, houter, hnot, hsees⟩
    · cases hstep with
      | uses huses => exact .inl ⟨first, hbegins, hused.tail huses⟩
      | around houter =>
        by_cases hbegins' : context.Begins start outer
        · exact .inl ⟨outer, hbegins', .refl⟩
        · exact .inr ⟨inner, outer, hpath, houter, hbegins', .refl⟩
    · exact .inr ⟨inner', outer', hinner, houter, hnot, hsees.tail hstep⟩

theorem Sound.exposed_of_shown (hsound : context.Sound program) {start id : ScopeId} {name : Name}
    (hshown : context.Shown program start name id) :
    context.Exposed program start name id name := by
  induction hshown with
  | begins hbegins hmet => exact .begins hbegins hmet
  | @uses id before after clause _ hclauses hbefore hkind hmet ih =>
    have hclause : clause ∈ context.clausesAt id := by
      rw [hclauses]
      exact List.mem_append_right _ List.mem_cons_self
    refine .clause ih hclauses (fun earlier hearlier hsymbol => ?_)
      (hsound.route_of_allContents hclause hkind name) hmet
    obtain ⟨hsymbolOnly, pair, hpair, hvisible⟩ := Clause.exists_of_route_eq_symbol hsymbol
    exact hbefore earlier hearlier hsymbolOnly pair hpair hvisible

end Context

namespace Program

variable {program : Program} {context : Context}

/-- If a scope is wholly visible, a climb comes to it from where a lookup begins by
unrestricted use, or strays from where a lookup goes. What the scope declares under a
name is found where it is shown under the name. -/
theorem lookup_of_seesWhole {tree : Tree} (hfinished : tree.Finished) (hgrounded : tree.Grounded)
    (htree : program.tree = tree) (hreachable : program.Reachable context) {goal start : ScopeId}
    (hstart : context.Has start) :
    ∃ visible after, program.seesWhole goal start context = some (visible, after) ∧
      (visible = true → ∀ name, ∃ found last,
        program.lookup .allVisible none start name after = some (found, last) ∧
        ∀ final, program.Reaches last final →
          ((∃ first, final.Begins start first ∧ Relation.ReflTransGen final.Uses first goal) ∨
            final.Strays start goal) ∧
          (final.Shown program start name goal → ∀ overloads,
            (final.scope goal).declared.get? name = some overloads → overloads ∈ found)) := by
  have hforest : program.tree.IsForest := htree ▸ hfinished.isForest hgrounded
  have hserves := serves_sound hforest
  obtain ⟨visible, after, hrun, hchanges, hsees⟩ :=
    seesWhole_ends hserves (hreachable.settled hforest).sound hstart
  refine ⟨visible, after, hrun, fun hvisible name => ?_⟩
  obtain ⟨found, last, hlook, hlooked, hfound⟩ := lookup_exposed_ends hforest hserves hchanges.2
    (hchanges.1.toGrows.has hstart) name
  refine ⟨found, last, hlook, fun final hreaches => ?_⟩
  obtain ⟨hgrows, hfinal⟩ := hreaches.answering hforest hserves hlooked.2
  constructor
  · exact ((hlooked.1.toGrows.trans hgrows).sees (hsees hvisible)).uses_or_strays
  · intro hshown overloads hdeclared
    exact hfound final hgrows hfinal goal name overloads (hfinal.exposed_of_shown hshown) hdeclared

/-- What is known of the two modules once the scopes of both are asked for. -/
def mutualUseBoth : Context :=
  (mutualUse.askAll [.scopeOf ⟨4⟩, .scopeOf ⟨9⟩] .empty).getD .empty

/-- What is known once the second module is found to be visible from the first, and the
variable is looked up there. -/
def mutualUseSeen : Context :=
  (((mutualUse.seesWhole ⟨2⟩ ⟨1⟩ mutualUseBoth).bind fun visible =>
    mutualUse.lookup .allVisible none ⟨1⟩ mutualUseName visible.2).map Prod.snd).getD .empty

/-- The second module is wholly visible from the first, and its variable is found. -/
theorem mutualUse_lookup_of_seesWhole :
    ∃ after found overloads, mutualUse.seesWhole ⟨2⟩ ⟨1⟩ mutualUseBoth = some (true, after) ∧
      mutualUse.lookup .allVisible none ⟨1⟩ mutualUseName after = some (found, mutualUseSeen) ∧
      (mutualUseSeen.scope ⟨2⟩).declared.get? mutualUseName = some overloads ∧
      overloads ∈ found := by
  have hasked : mutualUse.askAll [.scopeOf ⟨4⟩, .scopeOf ⟨9⟩] .empty = some mutualUseBoth := by
    decide +kernel
  have hreachable : mutualUse.Reachable mutualUseBoth := .askAll .refl hasked
  have hhas : mutualUseBoth.Has ⟨1⟩ := by decide +kernel
  obtain ⟨visible, after, hrun, hvisible⟩ := lookup_of_seesWhole mutualUse_finished
    mutualUse_grounded rfl hreachable hhas
  have htrue : (mutualUse.seesWhole ⟨2⟩ ⟨1⟩ mutualUseBoth).map Prod.fst = some true := by
    decide +kernel
  rw [hrun] at htrue
  obtain rfl := Option.some.inj htrue
  obtain ⟨found, last, hlook, hlast⟩ := hvisible rfl mutualUseName
  have hseen : mutualUseSeen = last := by simp [mutualUseSeen, hrun, hlook]
  subst hseen
  have hsound : mutualUseSeen.Sound mutualUse := by
    have hforest := mutualUse_finished.isForest mutualUse_grounded
    have hserves := serves_sound hforest
    have hafter := (seesWhole_ends hserves (hreachable.settled hforest).sound hhas).of_run hrun
    exact ((lookup_ends hforest hserves hafter.1.2 (hafter.1.1.toGrows.has hhas) _ _).of_run
      hlook).1.2
  have hname : mutualUseSeen.Unrenamed mutualUseName := by
    rw [hsound.unrenamed_iff]
    decide +kernel
  have hmet := hsound.metAs_of_unrenamed hname ⟨1⟩
  obtain ⟨symbol, clause, hclauses, hkind, hsymbol, htarget⟩ : ∃ symbol clause,
      mutualUseSeen.clausesAt ⟨1⟩ = [symbol] ++ clause :: [] ∧ clause.kind = .allContents ∧
      (∀ pair ∈ symbol.names, pair.2 ≠ mutualUseName) ∧ clause.target = ⟨2⟩ :=
    ⟨(mutualUseSeen.clausesAt ⟨1⟩)[0]!, (mutualUseSeen.clausesAt ⟨1⟩)[1]!, by decide +kernel⟩
  have hshown : mutualUseSeen.Shown mutualUse ⟨1⟩ mutualUseName ⟨2⟩ :=
    htarget ▸ .uses (.begins .here (hmet ⟨1⟩)) hclauses
      (fun _ hearlier _ => List.mem_singleton.mp hearlier ▸ hsymbol) hkind (hmet clause.target)
  have hdeclared : ((mutualUseSeen.scope ⟨2⟩).declared.get? mutualUseName).isSome = true := by
    decide +kernel
  obtain ⟨overloads, hoverloads⟩ := Option.isSome_iff_exists.mp hdeclared
  exact ⟨after, found, overloads, hrun, hlook, hoverloads,
    (hlast mutualUseSeen .refl).2 hshown overloads hoverloads⟩

/-- Four ways in which a wholly visible scope is missed. `Inner` lies two modules within
`Outer`, and `V` uses a module of `Outer`; `S` uses a module that declares its own name;
`U` imports `o` of `T` under the name of another variable of `T` before it uses `T`. -/
def missedUse : Program :=
  (Session.fresh (.ofSteps
    [.variableDecl "x" none, .moduleDecl false "Inner" [], .moduleDecl false "Mid" [⟨1⟩],
      .moduleDecl false "Outer" [⟨0⟩, ⟨2⟩],
      .variableDecl "M" none, .moduleDecl false "M" [⟨4⟩], .identifier "M",
      .clause ⟨6⟩ .unlimited [], .useStmt .unstated [⟨7⟩], .moduleDecl false "S" [⟨8⟩],
      .variableDecl "o" none, .variableDecl "n" none, .moduleDecl false "T" [⟨10⟩, ⟨11⟩],
      .identifier "T", .identifier "o", .renameTo ⟨14⟩ "n", .clause ⟨13⟩ .braces [⟨16⟩],
      .importStmt .unstated [⟨17⟩], .identifier "T", .clause ⟨19⟩ .unlimited [],
      .useStmt .unstated [⟨20⟩], .moduleDecl false "U" [⟨18⟩, ⟨21⟩],
      .identifier "Outer", .dot ⟨23⟩ "Mid", .clause ⟨24⟩ .unlimited [], .useStmt .unstated [⟨25⟩],
      .moduleDecl false "V" [⟨26⟩]]) {}).program

/-- What is known once the scopes of the modules are asked for. -/
def missedUseAsked : Context :=
  (missedUse.askAll ([⟨1⟩, ⟨5⟩, ⟨9⟩, ⟨12⟩, ⟨22⟩, ⟨27⟩].map .scopeOf) .empty).getD .empty

/-- Whether a scope is wholly visible from another that finds no such declaration of it. -/
def Misses (program : Program) (context : Context) (goal start : ScopeId) (node : NodeId) : Prop :=
  let name := (program.tree.declName? node).getD .this
  (program.seesWhole goal start context).map Prod.fst = some true ∧
    (context.scope goal).lookup name = [.single (.node node)] ∧
    (program.lookup .allVisible none start name context).map
      (fun result => result.1.any (·.contains (.node node))) = some false

instance decidableMisses (program : Program) (context : Context) (goal start : ScopeId)
    (node : NodeId) : Decidable (program.Misses context goal start node) :=
  inferInstanceAs (Decidable (_ ∧ _ ∧ _))

/-- Each time the goal is wholly visible from the start and declares the variable, which
a lookup from the start does not find. -/
theorem missedUse_misses :
    missedUse.tree.Finished ∧ missedUse.tree.Grounded ∧ missedUse.Reachable missedUseAsked ∧
    missedUse.Misses missedUseAsked ⟨1⟩ ⟨3⟩ ⟨0⟩ ∧ missedUse.Misses missedUseAsked ⟨1⟩ ⟨8⟩ ⟨0⟩ ∧
    missedUse.Misses missedUseAsked ⟨4⟩ ⟨5⟩ ⟨4⟩ ∧ missedUse.Misses missedUseAsked ⟨6⟩ ⟨7⟩ ⟨11⟩ := by
  have hasked : missedUse.askAll ([⟨1⟩, ⟨5⟩, ⟨9⟩, ⟨12⟩, ⟨22⟩, ⟨27⟩].map .scopeOf) .empty =
      some missedUseAsked := by decide +kernel
  exact ⟨Tree.finished_ofSteps (by decide +kernel), by decide +kernel, .askAll .refl hasked,
    by decide +kernel, by decide +kernel, by decide +kernel, by decide +kernel⟩

end Program

end Scoping
