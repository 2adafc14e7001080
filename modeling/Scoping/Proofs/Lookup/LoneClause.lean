import Scoping.Proofs.Clause
import Scoping.Proofs.Context.Arrangement
import Scoping.Proofs.Gathering
import Scoping.Proofs.Lookup.Fuel

/-!
What a `use` or `import` means, told from how it is written. Where a node holds a single
clause, whatever is brought into its scope under a name is what that clause says of the
name: nothing, the target itself, or what a name means in the contents of the target.
-/

namespace Scoping

open Context Resolve

namespace Tree

/-- The actual name behind a visible one, by the first entry of a list that stands for
it. -/
def listedAs? (tree : Tree) (entries : List NodeId) (name : Name) : Option Name :=
  ((tree.listed entries).find? fun pair => pair.2 = name).map Prod.fst

/-- Where the contents of a target are taken from under a name by a list. -/
def leadsByList (tree : Tree) (entries : List NodeId) (name : Name) : Route :=
  match tree.listedAs? entries name with
  | some actual => .contents actual
  | none => .blocked

/-- The field that an expression takes from its receiver. -/
def field? (tree : Tree) (expr : NodeId) : Option Name :=
  match tree.kind? expr with
  | some (.dot _ field) => some field
  | _ => none

/-- Where a name leads through a clause, as it is written. The target of a `use` goes by
its new name or by the last name of its path, and so does that of an `import` of a module;
all other names are those of contents. -/
def leads (tree : Tree) (written : WrittenClause) (name : Name) : Route :=
  match tree.renamed? written.symbol with
  | none => .blocked
  | some (expr, newName) =>
    match written.stmt with
    | .use =>
      if newName.or (tree.lastName? expr) = some name then .symbol
      else
        match written.limitation with
        | .unlimited => .contents name
        | .except =>
          if (tree.listedAs? written.limitations name).isSome then .blocked else .contents name
        | .only => tree.leadsByList written.limitations name
        | .braces => .blocked
    | .imports =>
      match written.limitation, tree.field? expr with
      | .braces, _ => tree.leadsByList written.limitations name
      | _, some field => if newName.getD field = name then .contents field else .blocked
      | _, none => if newName.or (tree.lastName? expr) = some name then .symbol else .blocked

end Tree

namespace Search

variable {contents : ScopeId → Name → Search (List Overloads)} {name : Name}
variable {entered : List ScopeId} {context : Context}

/-- What a search among clauses ends with that is led to by a route: nothing, the owner
of the target, or what is found in its contents. -/
def along (contents : ScopeId → Name → Search (List Overloads)) (target : ScopeId) (node : NodeId) :
    Route → Search (Bool × List Overloads)
  | .blocked => return (false, [])
  | .symbol => return (true, [.single (.node node)])
  | .contents actual => do return (false, ← contents target actual)

/-- A clause that names its target alone is passed by under any other name. -/
theorem throughClauses_symbolOnly {target : ScopeId} {node : NodeId}
    (howner : (context.scope target).owner = some node) (isPrivate : Bool) (last visible : Name)
    (rest : List Clause) :
    throughClauses false contents name (⟨target, .symbolOnly, isPrivate, [(last, visible)]⟩ :: rest)
        entered context =
      if visible = name then along contents target node .symbol entered context
      else throughClauses false contents name rest entered context := by
  rw [throughClauses]
  by_cases hvisible : visible = name
  · rw [if_pos hvisible]
    simp only [Clause.route, Clause.actual?, hvisible, List.find?_cons, decide_true,
      Option.map_some]
    rw [lift_bind_run]
    refine bind_eq_some_iff.mpr ⟨context.scope target, context, rfl, ?_⟩
    rw [howner]
    rfl
  · rw [if_neg hvisible]
    simp [Clause.route, Clause.actual?, hvisible]

/-- What the last clause leads to is all there is. -/
theorem throughClauses_last {clause : Clause} (hkind : clause.kind ≠ .symbolOnly) (node : NodeId) :
    throughClauses false contents name [clause] entered context =
      along contents clause.target node (clause.route name) entered context := by
  rw [throughClauses]
  cases hroute : clause.route name with
  | blocked => rfl
  | symbol => exact absurd (Clause.exists_of_route_eq_symbol hroute).1 hkind
  | contents actual =>
    simp [throughClauses, along]

/-- A clause that names a target answers for that name, and the one for its contents for all
others. -/
theorem throughClauses_pair {whole : Clause} (hkind : whole.kind ≠ .symbolOnly) {node : NodeId}
    (howner : (context.scope whole.target).owner = some node) (isPrivate : Bool)
    (last visible : Name) :
    throughClauses false contents name
        [⟨whole.target, .symbolOnly, isPrivate, [(last, visible)]⟩, whole] entered context =
      along contents whole.target node (if visible = name then .symbol else whole.route name)
        entered context := by
  rw [throughClauses_symbolOnly howner, throughClauses_last hkind node]
  split <;> rfl

end Search

namespace Tree

variable {tree : Tree} {entries : List NodeId} {name : Name}

theorem actual?_listed (target : ScopeId) (kind : ClauseKind) (isPrivate : Bool) :
    Clause.actual? ⟨target, kind, isPrivate, tree.listed entries⟩ name =
      tree.listedAs? entries name := rfl

theorem route_onlyContents (target : ScopeId) (isPrivate : Bool) :
    Clause.route ⟨target, .onlyContents, isPrivate, tree.listed entries⟩ name =
      tree.leadsByList entries name := by
  rw [Clause.route, actual?_listed, leadsByList]
  cases tree.listedAs? entries name <;> rfl

theorem route_contentsExcept (target : ScopeId) (isPrivate : Bool) :
    Clause.route ⟨target, .contentsExcept, isPrivate, tree.listed entries⟩ name =
      if (tree.listedAs? entries name).isSome then .blocked else .contents name := by
  rw [Clause.route, actual?_listed]
  cases tree.listedAs? entries name <;> rfl

end Tree

namespace Program

variable {program : Program}

theorem splitField_of_field?_eq_some {expr : NodeId} {field : Name}
    (hfield : program.tree.field? expr = some field) :
    ∃ receiver, program.splitField .unlimited expr = (receiver, some field) := by
  unfold Tree.field? at hfield
  split at hfield
  · next receiver _ hkind =>
    obtain rfl := Option.some.inj hfield
    exact ⟨receiver, by simp [splitField, hkind]⟩
  · cases hfield

theorem splitField_of_field?_eq_none {expr : NodeId} (hfield : program.tree.field? expr = none) :
    program.splitField .unlimited expr = (expr, none) := by
  unfold Tree.field? at hfield
  unfold splitField
  cases hkind : program.tree.kind? expr with
  | none => rfl
  | some kind =>
    rw [hkind] at hfield
    cases kind with
    | dot receiver field => cases hfield
    | _ => rfl

/-- The clauses that are made of a written one lead names where it says. -/
theorem throughClauses_made {written : WrittenClause} {target : ScopeId} {clauses : List Clause}
    (hmade : program.made written target = some clauses) {context : Context} {node : NodeId}
    (howner : (context.scope target).owner = some node)
    (contents : ScopeId → Name → Search (List Overloads)) (name : Name) (entered : List ScopeId) :
    Search.throughClauses false contents name clauses entered context =
      Search.along contents target node (program.tree.leads written name) entered context := by
  unfold made at hmade
  obtain ⟨⟨expr, newName⟩, hrenamed, hmade⟩ := Option.bind_eq_some_iff.mp hmade
  obtain ⟨stmt, access, site, symbol, limitation, limitations⟩ := written
  dsimp only at hrenamed hmade
  have hvisible : ∀ last : Name, newName.or (some last) = some name ↔ newName.getD last = name := by
    intro last
    cases newName <;> simp
  cases stmt with
  | use =>
    obtain ⟨last, hlast, hmade⟩ := Option.bind_eq_some_iff.mp hmade
    simp only [Tree.leads, hrenamed, hlast, hvisible]
    cases limitation with
    | braces => cases hmade
    | unlimited =>
      obtain rfl := Option.some.inj hmade
      exact Search.throughClauses_pair (by simp) howner _ _ _
    | except =>
      obtain rfl := Option.some.inj hmade
      rw [← Tree.route_contentsExcept target access.isPrivate]
      exact Search.throughClauses_pair (by simp) howner _ _ _
    | only =>
      obtain rfl := Option.some.inj hmade
      rw [← Tree.route_onlyContents target access.isPrivate]
      exact Search.throughClauses_pair (by simp) howner _ _ _
  | imports =>
    simp only [Tree.leads, hrenamed]
    cases limitation with
    | except => cases hmade
    | only => cases hmade
    | braces =>
      obtain rfl := Option.some.inj hmade
      rw [Search.throughClauses_last (by simp) node, Tree.route_onlyContents]
    | unlimited =>
      cases hfield : program.tree.field? expr with
      | some field =>
        obtain ⟨receiver, hsplit⟩ := splitField_of_field?_eq_some hfield
        rw [hsplit] at hmade
        obtain rfl := Option.some.inj hmade
        rw [Search.throughClauses_last (by simp) node]
        by_cases hname : newName.getD field = name
        · simp [Clause.route, Clause.actual?, hname]
        · simp [Clause.route, Clause.actual?, hname]
      | none =>
        rw [splitField_of_field?_eq_none hfield] at hmade
        obtain ⟨last, hlast, hmade⟩ := Option.bind_eq_some_iff.mp hmade
        obtain rfl := Option.some.inj hmade
        rw [Search.throughClauses_symbolOnly howner, hlast]
        simp only [hvisible]
        split <;> rfl

end Program

namespace Search

/-- Where there is one source only, nothing is joined. -/
theorem collect_alone (search : Search (List Overloads)) :
    collect false [search, return []] = search := by
  simp [collect]

end Search

namespace Program

variable {program : Program} {view : ClauseView}

/-- A search of one scope, without those around it. -/
theorem search_alone (decls imports : Bool) (id : ScopeId) (name : Name) :
    program.search view ⟨decls, imports, false, false, false⟩ id name =
      Search.enter id (program.searchLevel view false program.depth decls imports id name) := by
  refine congrArg (Search.enter id) ?_
  refine (bind_congr fun context => Search.collect_alone
    (program.searchLevel view false program.depth decls imports id name)).trans ?_
  rfl

theorem searchLevel_imports (fuel : Nat) (id : ScopeId) (name : Name) :
    program.searchLevel view false (fuel + 1) false true id name =
      program.searchImports view false (fun target actual => Search.enter target
        (program.searchLevel view false fuel true true target actual)) id name := by
  rw [searchLevel]
  simp [Search.collect, Search.gate]

/-- The automatic module brings nothing in where it is not visible, or where there is
none. -/
theorem eq_nil_of_searchAuto (hforest : program.tree.IsForest) {context later : Context}
    (hsound : context.Sound program) {id : ScopeId}
    (hauto : (context.scope id).autoUses = false ∨
      program.tree.toplevel? program.autoModule = none)
    {contents : ScopeId → Name → Search (List Overloads)} {name : Name}
    {entered further : List ScopeId} {found : List Overloads}
    (hrun : program.searchAuto contents id name entered context = some ((found, further), later)) :
    found = [] := by
  unfold searchAuto at hrun
  rw [Search.lift_bind_run] at hrun
  obtain ⟨_, _, hscope, hrest⟩ := bind_eq_some_iff.mp hrun
  cases hscope
  cases hvisible : (context.scope id).autoUses with
  | false =>
    rw [hvisible] at hrest
    cases hrest
    rfl
  | true =>
    rw [hvisible, if_pos rfl, Search.lift_bind_run] at hrest
    obtain ⟨auto, middle, hfound, hrest⟩ := bind_eq_some_iff.mp hrest
    obtain ⟨hbuilding, hknown⟩ := (autoScope_ends hforest hsound).of_run hfound
    cases auto with
    | none =>
      cases hrest
      rfl
    | some auto =>
      obtain ⟨node, -, htop, -⟩ := hbuilding.2.autoScope _ hknown
      rw [hvisible, htop] at hauto
      simp at hauto

/-- How a lookup of imports alone runs: the clauses of the scope are worked out and gone
through, and then the automatic module is asked unless one of them ended that. -/
theorem lookup_imports_run {context final : Context} {id : ScopeId} {name : Name}
    {found : List Overloads}
    (hrun : program.lookup { imports := true } none id name context = some (found, final)) :
    ∃ fuel, fuel ≤ program.depth ∧ ∃ clauses later closed first further middle,
      program.clausesOf id context = some (clauses, later) ∧
      Search.throughClauses false (fun target actual => Search.enter target
        (program.searchLevel program.clausesOf false fuel true true target actual)) name clauses
        [id] later = some (((closed, first), further), middle) ∧
      (closed = true ∧ found = first ∨ closed = false ∧ ∃ more last,
        program.searchAuto (fun target actual => Search.enter target
          (program.searchLevel program.clausesOf false fuel true true target actual)) id name
          further middle = some ((more, last), final) ∧ found = first ++ more) := by
  refine ⟨program.tree.size + 1, Nat.le_succ _, ?_⟩
  obtain ⟨⟨_, entered⟩, hsearch, rfl⟩ := map_eq_some_iff.mp hrun
  change program.search program.clausesOf ⟨false, true, false, false, false⟩ id name [] context =
    _ at hsearch
  rw [search_alone, Search.enter_run, if_neg List.not_mem_nil, depth, searchLevel_imports,
    searchImports_eq, Search.lift_bind_run] at hsearch
  obtain ⟨clauses, later, hclauses, hrest⟩ := bind_eq_some_iff.mp hsearch
  rw [Search.bind_run] at hrest
  obtain ⟨⟨⟨closed, first⟩, further⟩, middle, hthrough, hrest⟩ := bind_eq_some_iff.mp hrest
  refine ⟨clauses, later, closed, first, further, middle, hclauses, hthrough, ?_⟩
  cases closed with
  | true =>
    cases hrest
    exact .inl ⟨rfl, rfl⟩
  | false =>
    change (program.searchAuto _ id name >>= fun more => pure (first ++ more) :
      Search (List Overloads)) further middle = _ at hrest
    rw [Search.bind_run] at hrest
    obtain ⟨⟨more, last⟩, _, hauto, hrest⟩ := bind_eq_some_iff.mp hrest
    cases hrest
    exact .inr ⟨rfl, more, last, hauto, rfl⟩

/-- Coming to a target inside a search is a lookup there that shares what was entered. -/
theorem lookupSharing_of_enter {fuel : Nat} (hfuel : fuel ≤ program.depth) {target : ScopeId}
    {actual : Name} {entered : List ScopeId} {context : Context}
    {result : (List Overloads × List ScopeId) × Context}
    (hrun : Search.enter target (program.searchLevel program.clausesOf false fuel true true target
      actual) entered context = some result) :
    program.lookupSharing { decls := true, imports := true } none target actual entered context =
      some result := by
  change program.search program.clausesOf ⟨true, true, false, false, false⟩ target actual entered
    context = _
  rw [search_alone]
  exact Search.Extends.enter _ (searchLevel_extends hfuel true true target actual) _ _ _ hrun

/-- A scope whose owner holds a `use` or `import` with clauses has its clauses worked out,
and they are made of what is written. -/
theorem visibility_madeOf (hforest : program.tree.IsForest) {context : Context}
    (hsettled : program.Settled context) {scope : ScopeId} {owner : NodeId}
    (howned : context.OwnedBy scope (some owner))
    (hwritten : program.tree.writtenClauses owner ≠ []) :
    ∃ clauses later, program.visibility scope context = some (some clauses, later) ∧
      Resolving (Context.Sound program) context later ∧ later.AllFit clauses ∧
      program.MadeOf (program.tree.writtenClauses owner) clauses := by
  have hsound := hsettled.sound
  obtain ⟨found, later, hrun, hchanges, hanswers⟩ := visibility_ends hforest hsound howned.1
  have himports : (context.scope scope).hasImports = true := by
    rw [(hsound.reflects hforest howned).hasImports]
    obtain ⟨child, hchild, hstatement⟩ : ∃ child ∈ program.tree.children owner,
        program.tree.clausesOfStatement child ≠ [] := by
      simpa [Tree.writtenClauses] using hwritten
    exact Tree.hasImports_of_mem_children hchild hstatement _
  have hscope := hchanges.1.toGrows.scope howned.1
  have hsome := hanswers.isSome_eq hchanges.2 fun hrunning =>
    hsettled.idle scope (hchanges.1.toGrows.running scope hrunning)
  rw [hscope, himports] at hsome
  obtain ⟨clauses, rfl⟩ := Option.isSome_iff_exists.mp hsome
  have hknown := hanswers.1.symm
  exact ⟨clauses, later, hrun, hchanges, hchanges.2.fits scope clauses hknown,
    hchanges.2.made scope clauses hknown owner (by rw [hscope, howned.2])⟩

/-- Where a node holds a single clause, a lookup of what is brought into its scope ends with
what the clause says of the name, as it is written: with nothing, with the owner of the
target, or with what a name means in the contents of the target to a search that has been
in the scope already. -/
theorem lookup_of_loneClause {tree : Tree} (hfinished : tree.Finished) (hgrounded : tree.Grounded)
    (htree : program.tree = tree) {context : Context} (hreachable : program.Reachable context)
    {scope : ScopeId} (hscope : context.Has scope) {owner : NodeId}
    (howner : (context.scope scope).owner = some owner) {written : WrittenClause}
    (hwritten : tree.writtenClauses owner = [written])
    (hauto : (context.scope scope).autoUses = false ∨ tree.toplevel? program.autoModule = none) :
    ∃ clauses later, program.visibility scope context = some (some clauses, later) ∧
      ∀ target, (∃ clause ∈ clauses, clause.target = target) →
        ∃ node, later.OwnedBy target (some node) ∧ ∀ name, ∃ found final,
          program.lookup { imports := true } none scope name context = some (found, final) ∧
          match tree.leads written name with
          | .blocked => found = []
          | .symbol => found = [.single (.node node)]
          | .contents actual => ∃ last,
            (program.lookupSharing { decls := true, imports := true } none target actual).run'
              [scope] later = some (found, last) := by
  subst htree
  have hforest := hfinished.isForest hgrounded
  have hserves := serves_sound hforest
  have hsettled := hreachable.settled hforest
  obtain ⟨clauses, later, hvisibility, hchanges, hfits, hmade⟩ :=
    visibility_madeOf hforest hsettled ⟨hscope, howner⟩ (by rw [hwritten]; simp)
  refine ⟨clauses, later, hvisibility, ?_⟩
  rintro _ ⟨clause, hclause, rfl⟩
  rw [hwritten, madeOf_single_iff] at hmade
  obtain rfl | ⟨target, hmade⟩ := hmade
  · cases hclause
  obtain rfl := target_of_made hmade hclause
  obtain ⟨node, howned⟩ := (hfits clause hclause).inner
  refine ⟨node, howned, fun name => ?_⟩
  obtain ⟨found, final, hlookup, -⟩ :=
    lookup_ends hforest hserves hsettled.sound hscope { imports := true } name
  refine ⟨found, final, hlookup, ?_⟩
  obtain ⟨fuel, hfuel, _, _, closed, first, further, middle, hclauses, hthrough, htail⟩ :=
    lookup_imports_run hlookup
  rw [clausesOf, bind_eq_some_iff] at hclauses
  obtain ⟨_, _, hasked, hgiven⟩ := hclauses
  cases hasked.symm.trans hvisibility
  cases hgiven
  rw [Option.getD_some, throughClauses_made hmade howned.2] at hthrough
  -- whatever the clause leads to, the automatic module adds nothing
  have hnothing : ∀ last, Resolving (Context.Sound program) later last →
      middle = last → closed = false → found = first := by
    rintro _ hlast rfl hopen
    rcases htail with ⟨hclosed, -⟩ | ⟨-, more, rest, hrun, rfl⟩
    · cases hopen.symm.trans hclosed
    · have hkept := (hchanges.1.toGrows.trans hlast.1.toGrows).scope hscope
      rw [eq_nil_of_searchAuto hforest hlast.2 (by rwa [hkept]) hrun, List.append_nil]
  cases hroute : program.tree.leads written name with
  | blocked =>
    rw [hroute] at hthrough
    cases hthrough
    exact hnothing later ⟨.refl later, hchanges.2⟩ rfl rfl
  | symbol =>
    rw [hroute] at hthrough
    cases hthrough
    rcases htail with ⟨-, hfound⟩ | ⟨hopen, -⟩
    · exact hfound
    · cases hopen
  | contents actual =>
    rw [hroute, Search.along, Search.bind_run] at hthrough
    obtain ⟨⟨inside, reached⟩, middle, hinside, hrest⟩ := bind_eq_some_iff.mp hthrough
    cases hrest
    have hwhole := lookupSharing_of_enter hfuel hinside
    have hnone : ∀ other ∈ (none : Option ScopeId), later.Has other := nofun
    have hends := (lookupSharing_ends hforest hserves hchanges.2 hnone howned.1
      { decls := true, imports := true } actual [scope]).of_run hwhole
    refine ⟨middle, map_eq_some_iff.mpr ⟨_, hwhole, ?_⟩⟩
    exact (hnothing middle hends.1 rfl rfl).symm

/-- A module that uses another one as `Q` and takes the variable `x` of it as `y`. -/
def renamedUse : Program :=
  (Session.fresh (.ofSteps
    [.variableDecl "x" none, .moduleDecl false "M" [⟨0⟩], .identifier "M", .renameTo ⟨2⟩ "Q",
      .identifier "x", .renameTo ⟨5⟩ "y", .clause ⟨4⟩ .only [⟨7⟩], .useStmt .unstated [⟨8⟩],
      .moduleDecl false "A" [⟨9⟩]]) {}).program

/-- The name of the variable where it is declared. -/
def renamedUseActual : Name := (renamedUse.tree.declName? ⟨0⟩).getD .this

/-- The name of the variable where it is used. -/
def renamedUseVisible : Name := (renamedUse.tree.identifier? ⟨6⟩).getD .this

/-- What is known once the scope of the using module is asked for. -/
def renamedUseAsked : Context := (renamedUse.askAll [.scopeOf ⟨10⟩] .empty).getD .empty

theorem renamedUse_lookup_of_loneClause :
    ∃ clauses later, renamedUse.visibility ⟨1⟩ renamedUseAsked = some (some clauses, later) ∧
      (∃ clause ∈ clauses, clause.target = ⟨2⟩) ∧ ∃ found final last,
        renamedUse.lookup { imports := true } none ⟨1⟩ renamedUseVisible renamedUseAsked =
          some (found, final) ∧
        (renamedUse.lookupSharing { decls := true, imports := true } none ⟨2⟩
          renamedUseActual).run' [⟨1⟩] later = some (found, last) := by
  have hasked : renamedUse.askAll [.scopeOf ⟨10⟩] .empty = some renamedUseAsked := by
    decide +kernel
  have hwritten : renamedUse.tree.writtenClauses ⟨10⟩ =
      [⟨.use, .unstated, ⟨8⟩, ⟨4⟩, .only, [⟨7⟩]⟩] := by decide +kernel
  have hleads : renamedUse.tree.leads ⟨.use, .unstated, ⟨8⟩, ⟨4⟩, .only, [⟨7⟩]⟩ renamedUseVisible =
      .contents renamedUseActual := by decide +kernel
  have hfinished : renamedUse.tree.Finished := Tree.finished_ofSteps (by decide +kernel)
  obtain ⟨clauses, later, hrun, hmeans⟩ :=
    lookup_of_loneClause hfinished (by decide +kernel) rfl (Reaches.askAll .refl hasked)
      (show renamedUseAsked.Has ⟨1⟩ by decide +kernel) (by decide +kernel) hwritten
      (.inr (by decide +kernel))
  have htargets : (renamedUse.visibility ⟨1⟩ renamedUseAsked).map (fun result =>
      (result.1.getD []).map Clause.target) = some [⟨2⟩, ⟨2⟩] := by decide +kernel
  rw [hrun, Option.map_some, Option.getD_some] at htargets
  obtain ⟨clause, hclause, htarget⟩ := List.mem_map.mp
    (show (⟨2⟩ : ScopeId) ∈ clauses.map Clause.target by
      rw [Option.some.inj htargets]; exact List.mem_cons_self)
  obtain ⟨node, -, hnames⟩ := hmeans ⟨2⟩ ⟨clause, hclause, htarget⟩
  obtain ⟨found, final, hlookup, hfound⟩ := hnames renamedUseVisible
  rw [hleads] at hfound
  obtain ⟨last, hlast⟩ := hfound
  exact ⟨clauses, later, hrun, ⟨clause, hclause, htarget⟩, found, final, last, hlookup, hlast⟩

end Program

end Scoping
