import Scoping.Proofs.Visibility.Path

/-!
Turning statements into clauses ends when the searches that it asks for end. The
paths and the lists of statements are finite, so nothing else could go on, and
all clauses come of written ones whose paths lead to their targets.
-/

namespace Scoping

open Context Resolve

/-- A finder whose searches end, in every context that a given one grows to. -/
def Finder.Total (keeps : Context → Prop) (base : Context) (find : Finder) : Prop :=
  ∀ config scope name context, base.Grows context → keeps context → context.Has scope →
    Ends (Resolving keeps) (find config scope name) context fun _ _ => True

/-- Whether clauses can have been resolved in this context. -/
def Context.AllFit (context : Context) (clauses : List Clause) : Prop :=
  ∀ clause ∈ clauses, context.Fits clause

theorem Finder.Total.mono {keeps : Context → Prop} {base later : Context} {find : Finder}
    (hfind : find.Total keeps base) (hgrows : base.Grows later) : find.Total keeps later :=
  fun config scope name context hmore => hfind config scope name context (hgrows.trans hmore)

theorem Context.AllFit.mono {context later : Context} {clauses : List Clause}
    (hfits : context.AllFit clauses) (hgrows : context.Grows later) :
    later.AllFit clauses :=
  fun clause hclause => hgrows.fits (hfits clause hclause)

theorem Context.AllFit.append {context : Context} {clauses more : List Clause}
    (hclauses : context.AllFit clauses) (hmore : context.AllFit more) :
    context.AllFit (clauses ++ more) :=
  fun clause hclause => (List.mem_append.mp hclause).elim (hclauses clause) (hmore clause)

theorem Program.AllCome.allFit {program : Program} {find : List Clause → Finder}
    {context : Context} {scope : ScopeId} {written : List WrittenClause} {clauses : List Clause}
    (hforest : program.tree.IsForest)
    (hcome : program.AllCome find context scope written clauses) : context.AllFit clauses := by
  intro clause hclause
  obtain ⟨source, -, before, found?, -, hcomes⟩ := hcome clause hclause
  exact hcomes.fits hforest

/-- Steps that each add clauses, one after another. -/
theorem Resolve.foldlM_ends {keeps : Context → Prop} {holds : List Clause → Context → Prop}
    {context : Context} {before : List Clause} {nodes : List NodeId}
    {step : List Clause → NodeId → Resolve (List Clause)} (hkeeps : keeps context)
    (hbefore : holds before context)
    (hstep : ∀ node ∈ nodes, ∀ clauses later, context.Grows later → keeps later →
      holds clauses later → Ends (Resolving keeps) (step clauses node) later holds) :
    Ends (Resolving keeps) (nodes.foldlM step before) context holds := by
  induction nodes generalizing context before with
  | nil => exact .same hkeeps hbefore
  | cons node rest ih =>
    rw [List.foldlM_cons]
    refine (hstep node List.mem_cons_self before context (.refl _) hkeeps hbefore).bind
      fun clauses later hchanges hholds => ?_
    exact ih hchanges.2 hholds fun next hnext more last hgrows =>
      hstep next (List.mem_cons_of_mem node hnext) more last (hchanges.1.toGrows.trans hgrows)

namespace Program

variable {program : Program} {keeps : Context → Prop} {context : Context}
variable (hforest : program.tree.IsForest) (hupholds : program.Upholds keeps)
variable (hkeeps : keeps context)

section

include hupholds hkeeps

theorem report_resolving (diagnostic : Diagnostic) :
    Ends (Resolving keeps) (Resolve.report diagnostic) context fun _ _ => True :=
  (report_ends (hupholds.sound _ hkeeps) diagnostic).resolving hupholds hkeeps

/-- Reporting a problem and giving up. -/
theorem report_return {α : Type} {value : α} {post : α → Context → Prop}
    (diagnostic : Diagnostic) (hpost : ∀ later, post value later) :
    Ends (Resolving keeps) (do Resolve.report diagnostic; return value) context post :=
  (report_resolving hupholds hkeeps diagnostic).bind fun _ later hchanges _ =>
    .same hchanges.2 (hpost later)

theorem splitRename_ends (symbol : NodeId) :
    Ends (Resolving keeps) (program.splitRename symbol) context
      fun parts _ => parts = program.tree.renamed? symbol := by
  have hends : Ends (Resolving keeps) (program.splitRename symbol) context fun _ _ => True := by
    unfold splitRename
    split
    · split
      · exact .same hkeeps trivial
      · exact report_return hupholds hkeeps _ fun _ => trivial
    · exact .same hkeeps trivial
  exact (hends.returning (splitRename_returns symbol)).mono fun _ _ _ hpost => hpost.1

theorem listedPair_ends (entry : NodeId) :
    Ends (Resolving keeps) (program.listedPair entry) context fun _ _ => True := by
  unfold listedPair
  split
  · exact .same hkeeps trivial
  · exact report_return hupholds hkeeps _ fun _ => trivial
  · split
    · exact report_return hupholds hkeeps _ fun _ => trivial
    · exact report_return hupholds hkeeps _ fun _ => trivial
    · exact .same hkeeps trivial
  · exact report_return hupholds hkeeps _ fun _ => trivial

theorem listedPairs_ends (entries : List NodeId) :
    Ends (Resolving keeps) (program.listedPairs entries) context fun _ _ => True := by
  induction entries generalizing context with
  | nil => exact .same hkeeps trivial
  | cons entry rest ih =>
    refine (listedPair_ends hupholds hkeeps entry).bind fun pair later hchanges _ => ?_
    exact (ih hchanges.2).bind fun pairs last hmore _ => .same hmore.2 trivial

/-- The last step of a clause with a list: its pairs, and clauses made of them. -/
theorem listedPairs_return {clauses : List (Name × Name) → List Clause}
    {post : List Clause → Context → Prop} (entries : List NodeId)
    (hpost : ∀ names later, context.Grows later → post (clauses names) later) :
    Ends (Resolving keeps)
      (do let names ← program.listedPairs entries
          return clauses names) context post :=
  (listedPairs_ends hupholds hkeeps entries).bind fun names later hchanges _ =>
    .same hchanges.2 (hpost names later hchanges.1.toGrows)

theorem refuseRenames_ends (entries : List NodeId) :
    Ends (Resolving keeps) (program.refuseRenames entries) context fun _ _ => True := by
  induction entries generalizing context with
  | nil => exact .same hkeeps trivial
  | cons entry rest ih =>
    rw [refuseRenames]
    split
    · exact (report_resolving hupholds hkeeps _).bind fun _ later hchanges _ => ih hchanges.2
    · exact ih hkeeps

theorem checkName_ends {find : Finder} (hfind : find.Total keeps context) {target : ScopeId}
    (htarget : context.Has target) (stmt : Statement) (name : Name) (site : NodeId) :
    Ends (Resolving keeps) (program.checkName find stmt target name site) context
      fun _ _ => True := by
  unfold checkName
  refine (hfind _ _ _ context (.refl _) hkeeps htarget).bind fun found later hchanges _ => ?_
  split
  · exact report_resolving hupholds hchanges.2 _
  · exact .same hchanges.2 trivial

theorem checkListed_ends {find : Finder} (hfind : find.Total keeps context) {target : ScopeId}
    (htarget : context.Has target) (stmt : Statement) (entries : List NodeId) :
    Ends (Resolving keeps) (program.checkListed find stmt target entries) context
      fun _ _ => True := by
  induction entries generalizing context with
  | nil => exact .same hkeeps trivial
  | cons entry rest ih =>
    rw [checkListed]
    split
    · refine (checkName_ends hupholds hkeeps hfind htarget _ _ _).bind fun _ later hchanges _ => ?_
      exact ih hchanges.2 (hfind.mono hchanges.1.toGrows) (hchanges.1.toGrows.has htarget)
    · exact ih hkeeps hfind htarget

end

omit hforest hupholds hkeeps in
/-- One more clause, from where its path leads and what it contributes. -/
theorem addPart_ends {find : List Clause → Finder} {scope : ScopeId} {before : List Clause}
    {written : List WrittenClause} (hbefore : program.AllCome find context scope written before)
    {source : WrittenClause} (hsource : source ∈ written) {action : Resolve (List Clause)}
    (hreturns : action.Returns (program.Contributes source))
    (hends : Ends (Resolving keeps) action context fun part later => ∀ clause ∈ part,
      ∃ found?, program.AimsAt (find before) later scope source found? clause.target) :
    Ends (Resolving keeps) (do return before ++ (← action)) context
      fun clauses later => program.AllCome find later scope written clauses := by
  refine (hends.returning hreturns).bind fun part later hchanges ⟨hpart, haims⟩ => ?_
  refine .same hchanges.2 ((hbefore.mono hchanges.1.toGrows.scopes).append hsource ?_)
  intro clause hclause
  obtain ⟨found?, haims⟩ := haims clause hclause
  rcases hpart with rfl | ⟨target, hmade⟩
  · cases hclause
  · obtain rfl := target_of_made hmade hclause
    exact ⟨found?, ⟨part, hmade, hclause⟩, haims⟩

include hforest hupholds hkeeps

theorem resolveSegment_ends {find : Finder} (hfind : find.Total keeps context) {scope : ScopeId}
    (hscope : context.Has scope) (stmt : Statement) (config : LookupConfig) (name : Name)
    (site : NodeId) :
    Ends (Resolving keeps) (program.resolveSegment find stmt config scope name site) context
      fun target? later => ∀ target, target? = some target →
        ∃ decl, program.Finds find stmt later config scope name decl target := by
  unfold resolveSegment
  refine (hfind config scope name context (.refl _) hkeeps hscope).run.bind
    fun found middle hchanges hrun => ?_
  split
  · exact report_return hupholds hchanges.2 _ (by simp)
  · next decl =>
    split
    · next id hnode hadmitted =>
      obtain rfl : decl = .node id := by cases decl <;> simp_all [Decl.node?]
      apply Ends.map (fun last hlast => ⟨.refl last, hlast.2⟩)
      refine ((scopeOf_ends hforest (hupholds.sound _ hchanges.2) id).resolving hupholds
        hchanges.2).mono ?_
      rintro target last hlast howner other hother
      obtain rfl := Option.some.inj hother
      have hscopes := (hchanges.1.toGrows.trans hlast.1.toGrows).scopes
      exact ⟨id, ⟨context, middle, ⟨hupholds.sound _ hkeeps, hscopes⟩, hrun.1⟩, hadmitted, howner⟩
    · exact report_return hupholds hchanges.2 _ (by simp)
  · exact report_return hupholds hchanges.2 _ (by simp)

theorem resolveHead_ends {find : Finder} (hfind : find.Total keeps context) {scope : ScopeId}
    (hscope : context.Has scope) (stmt : Statement) (head : NodeId) :
    Ends (Resolving keeps) (program.resolveHead find stmt scope head) context
      fun reached? later => ∀ reached, reached? = some reached →
        ∃ found?, program.Traces find stmt later scope head [] found? reached.1 := by
  unfold resolveHead
  split
  · exact report_return hupholds hkeeps _ (by simp)
  · next name hname =>
    split
    · next haround =>
      apply Ends.get_bind
      split
      · next target htarget =>
        refine .same hkeeps ?_
        rintro reached hreached
        obtain rfl := Option.some.inj hreached
        refine ⟨none, .around hname ⟨hupholds.sound _ hkeeps, List.prefix_rfl⟩ hscope ?_⟩
        split at htarget
        · next hthis => exact .inl ⟨hthis, htarget⟩
        · next hthis => exact .inr ⟨haround.resolve_left hthis, htarget⟩
      · exact report_return hupholds hkeeps _ (by simp)
    · next hordinary =>
      apply (resolveSegment_ends hforest hupholds hkeeps hfind hscope _ _ _ _).bind
      intro target? later hchanges htarget
      refine .same hchanges.2 ?_
      rintro reached hreached
      obtain ⟨target, hsome, rfl⟩ := Option.map_eq_some_iff.mp hreached
      obtain ⟨decl, hfinds⟩ := htarget target hsome
      exact ⟨some decl, .head hname hordinary hfinds⟩

/-- The induction is on the fields that are left; those before them lead to the scope that was
reached. -/
theorem resolveFields_ends {find : Finder} (hfind : find.Total keeps context)
    {stmt : Statement} {scope : ScopeId} {head : NodeId} {before : List (NodeId × Name)}
    {found? : Option NodeId} {reached : ScopeId × Name}
    (hreached : program.Traces find stmt context scope head before found? reached.1)
    (fields : List (NodeId × Name)) :
    Ends (Resolving keeps) (program.resolveFields find stmt reached fields) context
      fun reached? later => ∀ reached, reached? = some reached → ∃ found?,
        program.Traces find stmt later scope head (before ++ fields) found? reached.1 := by
  induction fields generalizing context before found? reached with
  | nil =>
    refine .same hkeeps fun other hother => ⟨found?, ?_⟩
    rw [List.append_nil]
    exact Option.some.inj hother ▸ hreached
  | cons field rest ih =>
    obtain ⟨site, name⟩ := field
    rw [resolveFields]
    have hinside := (hreached.inner hforest).has
    apply (resolveSegment_ends hforest hupholds hkeeps hfind hinside _ _ _ _).bind
    intro inner? later hchanges hinner
    cases inner? with
    | none => exact .same hchanges.2 (by simp)
    | some inner =>
      obtain ⟨decl, hfinds⟩ := hinner inner rfl
      have hnext : program.Traces find stmt later scope head (before ++ [(site, name)]) (some decl)
          (inner, name).1 := .field (hreached.mono hchanges.1.toGrows.scopes) hfinds
      have hrest := ih hchanges.2 (hfind.mono hchanges.1.toGrows) hnext
      rwa [List.append_assoc, List.singleton_append] at hrest

theorem resolvePath_ends {find : Finder} (hfind : find.Total keeps context) {scope : ScopeId}
    (hscope : context.Has scope) (stmt : Statement) (expr : NodeId) :
    Ends (Resolving keeps) (program.resolvePath find stmt scope expr) context
      fun reached? later => ∀ reached, reached? = some reached →
        ∃ found?, program.Traces find stmt later scope (program.tree.path expr).head
          (program.tree.path expr).fields found? reached.1 := by
  unfold resolvePath
  apply (resolveHead_ends hforest hupholds hkeeps hfind hscope _ _).bind
  intro reached? later hchanges hreached
  cases reached? with
  | none => exact .same hchanges.2 (by simp)
  | some reached =>
    obtain ⟨found?, hhead⟩ := hreached reached rfl
    exact resolveFields_ends hforest hupholds hchanges.2 (hfind.mono hchanges.1.toGrows) hhead _

/-- What is left of a clause takes over at a target that its path leads to. -/
theorem throughTarget_ends (written : WrittenClause) {find : Finder}
    (hfind : find.Total keeps context) {scope : ScopeId} (hscope : context.Has scope)
    {pathOf : NodeId → NodeId}
    {rest : NodeId → Option Name → ScopeId → Name → Resolve (List Clause)}
    {post : List Clause → Context → Prop}
    (hpath : ∀ parts, program.tree.renamed? written.symbol = some parts →
      program.pathOf? written = some (program.tree.path (pathOf parts.1)))
    (hnil : ∀ later, post [] later)
    (hrest : ∀ expr newName target name found? later, Resolving keeps context later →
      program.AimsAt find later scope written found? target →
      Ends (Resolving keeps) (rest expr newName target name) later post) :
    Ends (Resolving keeps)
      (program.throughTarget find written.stmt scope written.symbol pathOf rest) context post := by
  refine (splitRename_ends hupholds hkeeps written.symbol).bind
    fun parts? later hchanges hparts => ?_
  cases parts? with
  | none => exact .same hchanges.2 (hnil later)
  | some parts =>
    refine (resolvePath_ends hforest hupholds hchanges.2 (hfind.mono hchanges.1.toGrows)
      (hchanges.1.toGrows.has hscope) _ _).bind fun reached? middle hmore hreached => ?_
    cases reached? with
    | none => exact .same hmore.2 (hnil middle)
    | some reached =>
      obtain ⟨found?, htraces⟩ := hreached reached rfl
      exact hrest _ _ _ _ found? middle (IsTrans.trans _ _ _ hchanges hmore)
        ⟨_, hpath parts hparts.symm, htraces⟩

section

variable {find : List Clause → Finder} {scope : ScopeId} {before : List Clause}
variable (hfind : ∀ clauses later, context.Grows later → later.AllFit clauses →
  (find clauses).Total keeps later)
variable (hscope : context.Has scope)

section

variable (hbefore : context.AllFit before)
include hfind hscope hbefore

theorem useClauses_ends (access : Access) (site symbol : NodeId) (limitation : Limitation)
    (limitations : List NodeId) :
    Ends (Resolving keeps)
      (program.useClauses find scope access.isPrivate before site symbol limitation limitations)
      context fun part later => ∀ clause ∈ part, ∃ found?, program.AimsAt (find before) later scope
        ⟨.use, access, site, symbol, limitation, limitations⟩ found? clause.target := by
  rw [useClauses_eq]
  split
  · exact report_return hupholds hkeeps _ (by simp)
  refine throughTarget_ends hforest hupholds hkeeps
    ⟨.use, access, site, symbol, limitation, limitations⟩
    (hfind before context (.refl _) hbefore) hscope (fun _ hparts => by rw [pathOf?, hparts]; rfl)
    (by simp) fun expr newName target name found? middle hchanges haims => ?_
  have hinner := haims.inner hforest
  have hboth : ∀ {last} kind names kind' names', middle.Grows last →
      ∀ clause ∈ [Clause.mk target kind access.isPrivate names,
          ⟨target, kind', access.isPrivate, names'⟩],
        ∃ found?, program.AimsAt (find before) last scope
          ⟨.use, access, site, symbol, limitation, limitations⟩ found? clause.target := by
    intro last kind names kind' names' hlast
    have haims := haims.mono hlast.scopes
    exact List.forall_mem_cons.mpr ⟨⟨found?, haims⟩, List.forall_mem_singleton.mpr ⟨found?, haims⟩⟩
  dsimp only
  split
  · refine (refuseRenames_ends hupholds hchanges.2 _).bind fun _ last hlast _ => ?_
    refine listedPairs_return hupholds hlast.2 _ fun names final hfinal => ?_
    exact hboth _ _ _ _ (hlast.1.toGrows.trans hfinal)
  · have hitself : middle.AllFit
        [⟨target, .symbolOnly, access.isPrivate, [(name, newName.getD name)]⟩] :=
      List.forall_mem_singleton.mpr ⟨hinner, nofun⟩
    have hlisted := hfind _ middle hchanges.1.toGrows
      ((hbefore.mono hchanges.1.toGrows).append hitself)
    refine (checkListed_ends hupholds hchanges.2 hlisted hinner.has _ _).bind
      fun _ last hlast _ => ?_
    refine listedPairs_return hupholds hlast.2 _ fun names final hfinal => ?_
    exact hboth _ _ _ _ (hlast.1.toGrows.trans hfinal)
  all_goals exact .same hchanges.2 (hboth _ _ _ _ (.refl middle))

theorem importClauses_ends (access : Access) (site symbol : NodeId) (limitation : Limitation)
    (limitations : List NodeId) :
    Ends (Resolving keeps)
      (program.importClauses find scope access.isPrivate before site symbol limitation limitations)
      context fun part later => ∀ clause ∈ part, ∃ found?, program.AimsAt (find before) later scope
        ⟨.imports, access, site, symbol, limitation, limitations⟩ found? clause.target := by
  rw [importClauses_eq]
  split
  · exact report_return hupholds hkeeps _ (by simp)
  refine throughTarget_ends hforest hupholds hkeeps
    ⟨.imports, access, site, symbol, limitation, limitations⟩
    (hfind before context (.refl _) hbefore) hscope (fun _ hparts => by rw [pathOf?, hparts]; rfl)
    (by simp) fun expr newName target name found? middle hchanges haims => ?_
  have hone : ∀ {last} kind names, middle.Grows last →
      ∀ clause ∈ [Clause.mk target kind access.isPrivate names], ∃ found?,
        program.AimsAt (find before) last scope
          ⟨.imports, access, site, symbol, limitation, limitations⟩ found? clause.target :=
    fun _ _ hlast => List.forall_mem_singleton.mpr ⟨found?, haims.mono hlast.scopes⟩
  have hinner := haims.inner hforest
  have hfound := hfind before middle hchanges.1.toGrows (hbefore.mono hchanges.1.toGrows)
  split
  · refine (checkListed_ends hupholds hchanges.2 hfound hinner.has _ _).bind
      fun _ last hlast _ => ?_
    refine listedPairs_return hupholds hlast.2 _ fun names final hfinal => ?_
    exact hone _ _ (hlast.1.toGrows.trans hfinal)
  · refine (checkName_ends hupholds hchanges.2 hfound hinner.has _ _ _).bind
      fun _ last hlast _ => ?_
    exact .same hlast.2 (hone _ _ hlast.1.toGrows)
  · exact .same hchanges.2 (hone _ _ (.refl middle))

end

variable {written : List WrittenClause}
variable (hbefore : program.AllCome find context scope written before)
include hfind hscope hbefore

theorem addClause_ends (stmt : Statement) (access : Access) (site : NodeId)
    (hsource : ∀ source ∈ program.tree.writtenClause? stmt access site, source ∈ written) :
    Ends (Resolving keeps) (program.addClause find stmt scope access.isPrivate before site) context
      fun clauses later => program.AllCome find later scope written clauses := by
  have hfits := hbefore.allFit hforest
  unfold addClause
  split
  · next symbol limitation limitations hkind =>
    have hwritten := hsource ⟨stmt, access, site, symbol, limitation, limitations⟩
      (by rw [Tree.writtenClause?, hkind]; rfl)
    cases stmt with
    | use =>
      exact addPart_ends hbefore hwritten (useClauses_returns find scope before _ _ _ _ _)
        (useClauses_ends hforest hupholds hkeeps hfind hscope hfits _ _ _ _ _)
    | imports =>
      exact addPart_ends hbefore hwritten (importClauses_returns find scope before _ _ _ _ _)
        (importClauses_ends hforest hupholds hkeeps hfind hscope hfits _ _ _ _ _)
  · exact .same hkeeps hbefore

theorem addStatement_ends (node : NodeId)
    (hsource : program.tree.clausesOfStatement node ⊆ written) :
    Ends (Resolving keeps) (program.addStatement find scope before node) context
      fun clauses later => program.AllCome find later scope written clauses := by
  have hadd : ∀ stmt access,
      (program.tree.children node).filterMap (program.tree.writtenClause? stmt access) ⊆ written →
      Ends (Resolving keeps) ((program.tree.children node).foldlM
        (program.addClause find stmt scope access.isPrivate) before) context
        fun clauses later => program.AllCome find later scope written clauses := by
    intro stmt access hsubset
    refine foldlM_ends hkeeps hbefore fun site hsite clauses later hgrows hkept hcome => ?_
    refine addClause_ends hforest hupholds hkept
      (fun more last hlast => hfind more last (hgrows.trans hlast)) (hgrows.has hscope) hcome _ _ _
      fun source hsource => ?_
    exact hsubset (List.mem_filterMap.mpr ⟨site, hsite, hsource⟩)
  unfold Tree.clausesOfStatement at hsource
  unfold addStatement
  dsimp only
  split
  · next access hkind => exact hadd .use access (by rwa [hkind] at hsource)
  · next access hkind => exact hadd .imports access (by rwa [hkind] at hsource)
  · exact .same hkeeps hbefore

end

/-- The statements of a scope are all worked out, whatever they say. -/
theorem resolveStatements_ends {find : List Clause → Finder} {scope : ScopeId}
    (hfind : ∀ clauses later, context.Grows later → later.AllFit clauses →
      (find clauses).Total keeps later)
    (hscope : context.Has scope) :
    Ends (Resolving keeps) (program.resolveStatements find scope) context
      fun clauses later => program.AllCome find later scope
        ((context.scope scope).owner.elim [] program.tree.writtenClauses) clauses := by
  unfold resolveStatements
  apply Ends.scope_bind
  split
  · next owner howner =>
    rw [howner]
    refine foldlM_ends hkeeps .nil fun node hnode clauses later hgrows hkept hcome => ?_
    refine addStatement_ends hforest hupholds hkept
      (fun more last hlast => hfind more last (hgrows.trans hlast)) (hgrows.has hscope) hcome
      node ?_
    exact fun source hsource => List.mem_flatMap.mpr ⟨node, hnode, hsource⟩
  · exact .same hkeeps .nil

end Program

end Scoping
