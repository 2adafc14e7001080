import Scoping.Proofs.Reordering.Walk
import Scoping.Proofs.Request

/-!
What the order of its statements means for the lookups from a scope that go through to
the end. Every scope is entered once, for the first clause that leads there, so what is
found depends on the order where clauses lead to one scope under different names. It does
not depend on the order if no scope is entered under different names, the clauses of
the other scopes stay the same, and none of the reordered clauses stands for its target.
-/

namespace Scoping

open Context Resolve

/-- Whether every set of one answer is in another one too, up to the order in a set. -/
def SetsWithin (found found' : List Overloads) : Prop :=
  ∀ overloads ∈ found, ∃ overloads' ∈ found', overloads.toList.Perm overloads'.toList

namespace Context

variable {left right : Context} {id id' : ScopeId} {nodes nodes' : List NodeId}

/-- Whether the clauses of two scopes, each of its own context, come from statements of
which each says the same in both, wherever it stands. -/
def SameStatements (left right : Context) (id id' : ScopeId) (nodes nodes' : List NodeId) :
    Prop :=
  ∃ clauses clauses' : NodeId → List Clause,
    left.clausesAt id = nodes.flatMap clauses ∧ right.clausesAt id' = nodes'.flatMap clauses' ∧
      ∀ node ∈ nodes, left.SameClauses right (clauses node) (clauses' node)

/-- Whether two lookups, from scopes of one owner in two contexts, agree on the scopes that
both inspect: both look there for the same name, and both find the same clauses there,
except in the scopes that they start from. -/
def SearchesAlike (program program' : Program) (left right : Context) (config : LookupConfig)
    (start start' : ScopeId) (name : Name) : Prop :=
  ∀ id id' decls decls' actual actual', left.SameScope right id id' →
    left.Inspects program config start name decls id actual →
    right.Inspects program' config start' name decls' id' actual' →
    actual = actual' ∧
      (id ≠ start → left.SameClauses right (left.clausesAt id) (right.clausesAt id'))

instance decidableSameScope (left right : Context) (id id' : ScopeId) :
    Decidable (left.SameScope right id id') :=
  decidable_of_iff
    (left.Has id ∧ right.Has id' ∧ (left.scope id).owner = (right.scope id').owner)
    ⟨fun ⟨hid, hid', howner⟩ => ⟨_, ⟨hid, rfl⟩, hid', howner.symm⟩,
      fun ⟨_, howned, howned'⟩ => ⟨howned.1, howned'.1, howned.2.trans howned'.2.symm⟩⟩

instance decidableSameClause (left right : Context) (clause clause' : Clause) :
    Decidable (left.SameClause right clause clause') :=
  decidable_of_iff
    (left.SameScope right clause.target clause'.target ∧ clause.kind = clause'.kind ∧
      clause.isPrivate = clause'.isPrivate ∧ clause.names = clause'.names)
    ⟨fun ⟨htarget, hkind, hprivate, hnames⟩ => ⟨htarget, hkind, hprivate, hnames⟩,
      fun hsame => ⟨hsame.target, hsame.kind, hsame.isPrivate, hsame.names⟩⟩

instance decidableSameClauses (left right : Context) (clauses clauses' : List Clause) :
    Decidable (left.SameClauses right clauses clauses') :=
  inferInstanceAs (Decidable (List.Forall₂ (left.SameClause right) clauses clauses'))

theorem SameClauses.exists_same {clauses clauses' : List Clause}
    (hsame : left.SameClauses right clauses clauses') {clause : Clause}
    (hclause : clause ∈ clauses) : ∃ clause' ∈ clauses', left.SameClause right clause clause' := by
  induction hsame with
  | nil => cases hclause
  | cons hfirst _ ih =>
    rcases List.mem_cons.mp hclause with rfl | hrest
    · exact ⟨_, List.mem_cons_self, hfirst⟩
    · exact (ih hrest).imp fun _ h => ⟨List.mem_cons_of_mem _ h.1, h.2⟩

namespace SameStatements

variable (hsame : left.SameStatements right id id' nodes nodes') (hperm : nodes.Perm nodes')
include hsame hperm

theorem symm : right.SameStatements left id' id nodes' nodes := by
  obtain ⟨clauses, clauses', hclauses, hclauses', hnodes⟩ := hsame
  exact ⟨clauses', clauses, hclauses', hclauses, fun node hnode =>
    (hnodes node (hperm.mem_iff.mpr hnode)).symm⟩

/-- Statements that say the same have the same clauses in any order. -/
theorem exists_same {clause : Clause} (hclause : clause ∈ left.clausesAt id) :
    ∃ clause' ∈ right.clausesAt id', left.SameClause right clause clause' := by
  obtain ⟨clauses, clauses', hclauses, hclauses', hnodes⟩ := hsame
  rw [hclauses] at hclause
  obtain ⟨node, hnode, hclause⟩ := List.mem_flatMap.mp hclause
  obtain ⟨clause', hclause', hboth⟩ := (hnodes node hnode).exists_same hclause
  rw [hclauses']
  exact ⟨clause', List.mem_flatMap.mpr ⟨node, hperm.mem_iff.mp hnode, hclause'⟩, hboth⟩

end SameStatements

theorem SearchesAlike.symm {program program' : Program} {config : LookupConfig}
    {start start' : ScopeId} {name : Name} (hright : right.Sound program')
    (hstart : left.SameScope right start start')
    (halike : left.SearchesAlike program program' right config start start' name) :
    right.SearchesAlike program' program left config start' start name := by
  intro id id' decls decls' actual actual' hsame hinspects hinspects'
  obtain ⟨hname, hclauses⟩ := halike id' id decls' decls actual' actual hsame.symm hinspects'
    hinspects
  refine ⟨hname.symm, fun hne => (hclauses ?_).symm⟩
  rintro rfl
  exact hne (SameScope.eq_of_left hright hsame.symm hstart)

/-- Searches for a name that nothing renames agree if no clauses differ but those of the
scopes that they start from. -/
theorem searchesAlike_of_unrenamed {program program' : Program} {config : LookupConfig}
    {start start' : ScopeId} {name : Name} (hleft : left.Sound program)
    (hright : right.Sound program') (hname : left.Unrenamed name) (hname' : right.Unrenamed name)
    (hothers : ∀ id id', left.SameScope right id id' → id ≠ start →
      left.SameClauses right (left.clausesAt id) (right.clausesAt id')) :
    left.SearchesAlike program program' right config start start' name := by
  rintro id id' decls decls' actual actual' hsame ⟨imports, henters⟩ ⟨imports', henters'⟩
  obtain ⟨-, -, outer, -, hleads⟩ := hleft.leadsTo_of_enters henters
  obtain ⟨-, -, outer', -, hleads'⟩ := hright.leadsTo_of_enters henters'
  exact ⟨(hleft.eq_of_leadsTo hname hleads).trans (hright.eq_of_leadsTo hname' hleads').symm,
    hothers id id' hsame⟩

end Context

namespace Tree.Reorders

variable {program : Program} {tree : Tree} {holder : NodeId} {left right : Context}
variable {config : LookupConfig} {start start' : ScopeId} {name : Name}
variable (hreorders : program.tree.Reorders tree holder) (hleft : left.Sound program)
variable (hright : right.Sound (program.over tree)) (hstart : left.SameScope right start start')
variable (hsame : ∀ clause ∈ left.clausesAt start, ∃ clause' ∈ right.clausesAt start',
  left.SameClause right clause clause')
variable (hopen : ∀ clause ∈ left.clausesAt start, clause.route name ≠ .symbol)
variable (hopen' : ∀ clause ∈ right.clausesAt start', clause.route name ≠ .symbol)
variable (halike : left.SearchesAlike program (program.over tree) right config start start' name)
include hleft hright hstart hsame hopen hopen' halike

/-- Where both lookups come to, they ask for the same, and clauses lead them on to the same. -/
theorem through_of_inspects {decls decls' : Bool} {id id' : ScopeId} {actual actual' : Name}
    (hid : left.SameScope right id id')
    (hinspects : left.Inspects program config start name decls id actual)
    (hinspects' : right.Inspects (program.over tree) config start' name decls' id' actual') :
    decls = decls' ∧ actual = actual' ∧
      ((program.atRest left).through actual (left.clausesAt id)).1 =
        (((program.over tree).atRest right).through actual (right.clausesAt id')).1 ∧
      left.Mirrored right ((program.atRest left).through actual (left.clausesAt id)).2
        (((program.over tree).atRest right).through actual (right.clausesAt id')).2 := by
  obtain ⟨rfl, hclauses⟩ := halike _ _ _ _ _ _ hid hinspects hinspects'
  by_cases hfirst : id = start
  · subst hfirst
    obtain rfl := SameScope.eq_of_left hright hid hstart
    obtain ⟨rfl, rfl⟩ := eq_of_inspects_start hinspects
    obtain ⟨rfl, -⟩ := eq_of_inspects_start hinspects'
    refine ⟨rfl, rfl, ?_, World.through_mirrored hsame hopen hopen'⟩
    rw [World.through_fst_eq_false hopen, World.through_fst_eq_false hopen']
  · have hfirst' : id' ≠ start' := by
      rintro rfl
      exact hfirst (SameScope.eq_of_left hleft hid.symm hstart.symm)
    obtain rfl := hleft.decls_of_inspects hinspects hfirst
    obtain rfl := hright.decls_of_inspects hinspects' hfirst'
    obtain ⟨hclosed, hthrough⟩ := World.through_same
      (show (program.atRest left).scope = left.scope from rfl)
      (show ((program.over tree).atRest right).scope = right.scope from rfl)
      (hclauses hfirst) actual
    exact ⟨rfl, rfl, hclosed, .of_forall₂ hthrough⟩

include hreorders in
/-- What a lookup to the end finds is found after the reordering too: the scopes that it is
led to are entered there as well, so what leads out of them is dealt with. -/
theorem setsWithin {found found' : List Overloads} {entered entered' : List ScopeId}
    (hforest : tree.IsForest) (hall : config.innermost = false)
    (hwalk : (program.atRest left).Walks [] (program.beginnings left config start name)
      found entered [])
    (hwalk' : ∀ final, right.Grows final → final.Sound (program.over tree) →
      ((program.over tree).atRest final).Walks []
        ((program.over tree).beginnings final config start' name) found' entered' []) :
    SetsWithin found found' := by
  have hends := hwalk' right (.refl right) hright
  have hbegins : ∀ source ∈ program.beginnings left config start name,
      ∃ source', left.SameSource right source source' ∧ World.Done entered' found' source' := by
    intro source hsource
    obtain ⟨source', hsource', hlike⟩ :=
      hreorders.beginnings_mirrored hleft hright hstart config name source hsource
    exact ⟨source', hlike, hends.pending_done hsource'⟩
  obtain ⟨hsets, -⟩ := hwalk.carries hbegins (by
    rintro decls imports id actual henters ⟨_, hscope, hdone⟩ source hsource
    cases hscope with
    | @scope _ _ _ id' _ hid =>
      rw [← hall] at henters
      obtain ⟨decls', actual', hinspects'⟩ := exists_inspects (hends.yields hall) hdone
      obtain ⟨rfl, rfl, hclosed, hmirrored⟩ := through_of_inspects hleft hright hstart hsame hopen
        hopen' halike hid ⟨imports, henters⟩ hinspects'
      obtain rfl := (hleft.leadsTo_of_enters henters).1
      obtain ⟨source', hsource', hlike⟩ := hreorders.sources_mirrored hleft hright hid decls
        config.imports hclosed hmirrored (fun himports huses hthrough =>
          hright.isAuto_of_inspects hforest hstart.has.2 hall hwalk' hinspects' himports huses
            hthrough) source hsource
      exact ⟨source', hlike, (hright.done_of_inspects hends hinspects').2 source' hsource'⟩)
  intro overloads hoverloads
  obtain ⟨_, hset, hdone⟩ := hsets overloads hoverloads
  cases hset with
  | set hperm => exact ⟨_, hdone, hperm⟩

end Tree.Reorders

namespace Program

variable {program : Program} {left right : Context}

/-- A lookup to the end finds the same sets in whatever order the statements of its scope
stand, if each statement says the same, none stands for its target under the name looked
for, and the searches agree on the other scopes. -/
theorem lookup_reordered_sets {tree tree' : Tree} {holder : NodeId} (hfinished : tree.Finished)
    (hgrounded : tree.Grounded) (hfinished' : tree'.Finished) (hgrounded' : tree'.Grounded)
    (hreorders : tree.Reorders tree' holder) (htree : program.tree = tree)
    (hreachable : program.Reachable left) (hreachable' : (program.over tree').Reachable right)
    {id id' : ScopeId} (hid : left.OwnedBy id (some holder))
    (hid' : right.OwnedBy id' (some holder)) {config : LookupConfig}
    (hall : config.innermost = false) (name : Name) :
    ∃ found middle found' middle',
      program.lookup config none id name left = some (found, middle) ∧
      (program.over tree').lookup config none id' name right = some (found', middle') ∧
      ∀ final final', program.Reaches middle final →
        (program.over tree').Reaches middle' final' →
        final.SameStatements final' id id' (tree.children holder) (tree'.children holder) →
        (∀ clause ∈ final.clausesAt id, clause.route name ≠ .symbol) →
        final.SearchesAlike program (program.over tree') final' config id id' name →
        SetsWithin found found' ∧ SetsWithin found' found := by
  subst htree
  have hforest : program.tree.IsForest := hfinished.isForest hgrounded
  have hforest' : (program.over tree').tree.IsForest := hfinished'.isForest hgrounded'
  have hserves := serves_sound hforest
  have hserves' := serves_sound hforest'
  obtain ⟨found, middle, hrun, hchanges, entered, hyields⟩ := lookup_yields hforest hserves
    (hreachable.settled hforest).sound hid.1 config name
  obtain ⟨found', middle', hrun', hchanges', entered', hyields'⟩ := lookup_yields hforest' hserves'
    (hreachable'.settled hforest').sound hid'.1 config name
  refine ⟨found, middle, found', middle', hrun, hrun', ?_⟩
  intro final final' hreaches hreaches' hstatements hopen halike
  obtain ⟨hgrows, hfinal⟩ := hreaches.answering hforest hserves hchanges.2
  obtain ⟨hgrows', hfinal'⟩ := hreaches'.answering hforest' hserves' hchanges'.2
  have hsame : final.SameScope final' id id' :=
    ⟨_, (hchanges.1.toGrows.trans hgrows).ownedBy hid,
      (hchanges'.1.toGrows.trans hgrows').ownedBy hid'⟩
  have hwalk : ∀ last, final.Grows last → last.Sound program →
      (program.atRest last).Walks [] (program.beginnings last config id name) found entered [] :=
    fun last hlast hsound =>
      (hyields last (hgrows.trans hlast) hsound).walks_of_nil (by simp [hall])
  have hwalk' : ∀ last, final'.Grows last → last.Sound (program.over tree') →
      ((program.over tree').atRest last).Walks []
        ((program.over tree').beginnings last config id' name) found' entered' [] :=
    fun last hlast hsound =>
      (hyields' last (hgrows'.trans hlast) hsound).walks_of_nil (by simp [hall])
  have hperm := hreorders.perm
  have hopen' : ∀ clause ∈ final'.clausesAt id', clause.route name ≠ .symbol := by
    intro clause hclause
    obtain ⟨other, hother, hboth⟩ := (hstatements.symm hperm).exists_same hperm.symm hclause
    exact hboth.route_eq name ▸ hopen other hother
  exact ⟨hreorders.setsWithin hfinal hfinal' hsame (fun _ => hstatements.exists_same hperm) hopen
      hopen' halike hforest' hall (hwalk final (.refl final) hfinal) hwalk',
    hreorders.symm.setsWithin hfinal' hfinal hsame.symm
      (fun _ => (hstatements.symm hperm).exists_same hperm.symm) hopen' hopen
      (halike.symm hfinal' hsame) hforest hall (hwalk' final' (.refl final') hfinal') hwalk⟩

/-- A module `S` that holds four statements in a given order: an import from `T` of `o`, also
as `n`, and uses of `U` as `V`, of `T` and of `W`. `T` declares `o`, `n`, `V` and a module `M`
with the variable `x`, `U` declares `o` and another `M`, and `W` uses whichever `M` is
visible in `S`. -/
def statementsInOrder (order : List NodeId) : Tree :=
  .ofSteps [.variableDecl "o" none, .variableDecl "n" none, .variableDecl "V" none,
    .variableDecl "x" none, .moduleDecl false "M" [⟨3⟩], .moduleDecl false "T" [⟨0⟩, ⟨1⟩, ⟨2⟩, ⟨4⟩],
    .variableDecl "o" none, .moduleDecl false "M" [], .moduleDecl false "U" [⟨6⟩, ⟨7⟩],
    .identifier "S", .dot ⟨9⟩ "M", .clause ⟨10⟩ .unlimited [], .useStmt .unstated [⟨11⟩],
    .moduleDecl false "W" [⟨12⟩],
    .identifier "T", .identifier "o", .identifier "o", .renameTo ⟨16⟩ "n",
    .clause ⟨14⟩ .braces [⟨15⟩, ⟨18⟩], .importStmt .unstated [⟨19⟩],
    .identifier "T", .clause ⟨21⟩ .unlimited [], .useStmt .unstated [⟨22⟩],
    .identifier "U", .renameTo ⟨24⟩ "V", .clause ⟨26⟩ .unlimited [], .useStmt .unstated [⟨27⟩],
    .identifier "W", .clause ⟨29⟩ .unlimited [], .useStmt .unstated [⟨30⟩],
    .moduleDecl false "S" order]

/-- The import first, then the uses of `U`, `T` and `W`. -/
def importFirst : Tree := statementsInOrder [⟨20⟩, ⟨28⟩, ⟨23⟩, ⟨31⟩]

/-- The use of `U` first, then the import. -/
def importSecond : Tree := statementsInOrder [⟨28⟩, ⟨20⟩, ⟨23⟩, ⟨31⟩]

/-- The uses of `T` and `U` before the import. -/
def importThird : Tree := statementsInOrder [⟨23⟩, ⟨28⟩, ⟨20⟩, ⟨31⟩]

def importing : Program := (Session.fresh importFirst {}).program

/-- The name that a variable declares. -/
def importingName (node : NodeId) : Name := (importFirst.declName? node).getD .this

/-- What is known of one order once the clauses of `S` and `W` are asked for. -/
def importingAsked (tree : Tree) : Context :=
  ((importing.over tree).askAll [.scopeOf ⟨32⟩, .scopeOf ⟨5⟩, .scopeOf ⟨8⟩, .scopeOf ⟨13⟩,
    .visibility ⟨1⟩, .visibility ⟨4⟩] .empty).getD .empty

/-- The clauses that a statement adds, if each statement adds as many as told. -/
def clausesPart (clauses : List Clause) : List (NodeId × Nat) → NodeId → List Clause
  | [], _ => []
  | (node, count) :: rest, other =>
    if other = node then clauses.take count else clausesPart (clauses.drop count) rest other

/-- What evaluation tells of the three orders. -/
theorem importing_evaluated :
    (∀ tree ∈ [importFirst, importSecond, importThird], tree.Grounded ∧
      (importing.over tree).askAll [.scopeOf ⟨32⟩, .scopeOf ⟨5⟩, .scopeOf ⟨8⟩, .scopeOf ⟨13⟩,
          .visibility ⟨1⟩, .visibility ⟨4⟩] .empty = some (importingAsked tree) ∧
        (importingAsked tree).OwnedBy ⟨1⟩ (some ⟨32⟩) ∧
        (importingAsked tree).diagnostics = .empty) ∧
      (importSecond = importFirst.rearrange ⟨32⟩ [⟨28⟩, ⟨20⟩, ⟨23⟩, ⟨31⟩] ∧
        (importFirst.children ⟨32⟩).Perm [⟨28⟩, ⟨20⟩, ⟨23⟩, ⟨31⟩]) ∧
      importThird = importFirst.rearrange ⟨32⟩ [⟨23⟩, ⟨28⟩, ⟨20⟩, ⟨31⟩] ∧
        (importFirst.children ⟨32⟩).Perm [⟨23⟩, ⟨28⟩, ⟨20⟩, ⟨31⟩] := by
  decide +kernel

theorem importing_finished : ∀ tree ∈ [importFirst, importSecond, importThird],
    tree.Finished ∧ tree.Grounded := by
  refine fun tree htree => ⟨?_, (importing_evaluated.1 tree htree).1⟩
  rcases List.mem_cons.mp htree with rfl | htree
  · exact Tree.finished_ofSteps (by decide +kernel)
  rcases List.mem_cons.mp htree with rfl | htree
  · exact Tree.finished_ofSteps (by decide +kernel)
  obtain rfl := List.mem_singleton.mp htree
  exact Tree.finished_ofSteps (by decide +kernel)

theorem importing_reorders : importFirst.Reorders importSecond ⟨32⟩ ∧
    importFirst.Reorders importThird ⟨32⟩ := by
  obtain ⟨-, ⟨hsecond, hperm⟩, hthird, hperm'⟩ := importing_evaluated
  rw [hsecond, hthird]
  exact ⟨Tree.reorders_rearrange hperm, Tree.reorders_rearrange hperm'⟩

theorem importing_known : ∀ tree ∈ [importFirst, importSecond, importThird],
    (importing.over tree).Reachable (importingAsked tree) ∧
      (importingAsked tree).OwnedBy ⟨1⟩ (some ⟨32⟩) ∧
      (importingAsked tree).diagnostics = .empty := by
  intro tree htree
  obtain ⟨-, hasked, hknown⟩ := importing_evaluated.1 tree htree
  exact ⟨.askAll .refl hasked, hknown⟩

/-- Whether the import from `T` stands before the use of `U` or after it, the same two
variables `o` are found, though not in the same order. -/
theorem importing_lookup_reordered_sets : ∃ found found',
    (importing.over importFirst).lookup .allVisible none ⟨1⟩ (importingName ⟨0⟩)
      (importingAsked importFirst) = some (found, importingAsked importFirst) ∧
    (importing.over importSecond).lookup .allVisible none ⟨1⟩ (importingName ⟨0⟩)
      (importingAsked importSecond) = some (found', importingAsked importSecond) ∧
    found ≠ found' ∧ SetsWithin found found' ∧ SetsWithin found' found := by
  obtain ⟨hfinished, hgrounded⟩ := importing_finished importFirst (by simp)
  obtain ⟨hfinished', hgrounded'⟩ := importing_finished importSecond (by simp)
  obtain ⟨hreachable, howned, -⟩ := importing_known importFirst (by simp)
  obtain ⟨hreachable', howned', -⟩ := importing_known importSecond (by simp)
  obtain ⟨found, middle, found', middle', hfound, hfound', hsame⟩ :=
    lookup_reordered_sets hfinished hgrounded hfinished' hgrounded' importing_reorders.1 rfl
      hreachable hreachable' howned howned'
      (show LookupConfig.allVisible.innermost = false from rfl) (importingName ⟨0⟩)
  have hrun : ∀ case ∈ [(importFirst, [(⟨0⟩ : NodeId), ⟨6⟩]), (importSecond, [⟨6⟩, ⟨0⟩])],
      let (tree, nodes) := case
      (importing.over tree).lookup .allVisible none ⟨1⟩ (importingName ⟨0⟩) (importingAsked tree) =
        some (nodes.map (.single <| .node ·), importingAsked tree) := by decide +kernel
  have hfirst := hrun (importFirst, _) (.head _)
  have hsecond := hrun (importSecond, _) (.tail _ (.head _))
  obtain ⟨rfl, rfl⟩ := Prod.mk.inj (Option.some.inj (hfound.symm.trans hfirst))
  obtain ⟨rfl, rfl⟩ := Prod.mk.inj (Option.some.inj (hfound'.symm.trans hsecond))
  refine ⟨_, _, hfound, hfound', by decide, hsame _ _ .refl .refl ?_ (by decide +kernel) ?_⟩
  · exact ⟨clausesPart ((importingAsked importFirst).clausesAt ⟨1⟩)
        [(⟨20⟩, 1), (⟨28⟩, 2), (⟨23⟩, 2), (⟨31⟩, 2)],
      clausesPart ((importingAsked importSecond).clausesAt ⟨1⟩)
        [(⟨28⟩, 2), (⟨20⟩, 1), (⟨23⟩, 2), (⟨31⟩, 2)], by decide +kernel⟩
  · have hsound := (hreachable.settled (hfinished.isForest hgrounded)).sound
    have hsound' := (hreachable'.settled (hfinished'.isForest hgrounded')).sound
    refine searchesAlike_of_unrenamed hsound hsound' ?_ ?_ fun other other' hother hne => ?_
    · rw [hsound.unrenamed_iff]
      decide +kernel
    · rw [hsound'.unrenamed_iff]
      decide +kernel
    · have hothers : ∀ index < (importingAsked importFirst).scopes.size,
          ∀ index' < (importingAsked importSecond).scopes.size,
          (importingAsked importFirst).SameScope (importingAsked importSecond) ⟨index⟩ ⟨index'⟩ →
          (⟨index⟩ : ScopeId) ≠ ⟨1⟩ →
          (importingAsked importFirst).SameClauses (importingAsked importSecond)
            ((importingAsked importFirst).clausesAt ⟨index⟩)
            ((importingAsked importSecond).clausesAt ⟨index'⟩) := by decide +kernel
      exact hothers other.index hother.has.1 other'.index hother.has.2 hother hne

/-- Three things are found differently where the uses of `T` and `U` stand before the
import: the one of them that is called `n`, as `T` is then entered under that name; `V`,
as the use of `U` under that name ends the search before `T` is entered; and `x`, as `W`
uses another module `M`. -/
theorem importing_lookup_not_same :
    (∀ tree ∈ [importFirst, importThird], tree.Finished ∧ tree.Grounded ∧
      (importing.over tree).Reachable (importingAsked tree) ∧
      (importingAsked tree).OwnedBy ⟨1⟩ (some ⟨32⟩) ∧
      (importingAsked tree).diagnostics = .empty) ∧
    importFirst.Reorders importThird ⟨32⟩ ∧
    (∀ node ∈ importFirst.children ⟨32⟩,
      importFirst.tag? node = some .useStmt ∨ importFirst.tag? node = some .importStmt) ∧
    (importingAsked importFirst).SameStatements (importingAsked importThird) ⟨1⟩ ⟨1⟩
      (importFirst.children ⟨32⟩) (importThird.children ⟨32⟩) ∧
    ∀ case ∈ [((⟨1⟩ : NodeId), [(⟨0⟩ : NodeId)], [(⟨1⟩ : NodeId)]), (⟨2⟩, [⟨8⟩], [⟨2⟩, ⟨8⟩]),
        (⟨3⟩, [], [⟨3⟩])],
      let (node, found, found') := case
      ((importing.over importFirst).lookup .allVisible none ⟨1⟩ (importingName node)
        (importingAsked importFirst)).map Prod.fst = some (found.map (.single <| .node ·)) ∧
      ((importing.over importThird).lookup .allVisible none ⟨1⟩ (importingName node)
        (importingAsked importThird)).map Prod.fst = some (found'.map (.single <| .node ·)) := by
  have hincluded : [importFirst, importThird] ⊆ [importFirst, importSecond, importThird] := by simp
  refine ⟨fun tree htree => ?_, importing_reorders.2, by decide +kernel, ?_, by decide +kernel⟩
  · obtain ⟨hfinished, hgrounded⟩ := importing_finished tree (hincluded htree)
    exact ⟨hfinished, hgrounded, importing_known tree (hincluded htree)⟩
  · exact ⟨clausesPart ((importingAsked importFirst).clausesAt ⟨1⟩)
        [(⟨20⟩, 1), (⟨28⟩, 2), (⟨23⟩, 2), (⟨31⟩, 2)],
      clausesPart ((importingAsked importThird).clausesAt ⟨1⟩)
        [(⟨23⟩, 2), (⟨28⟩, 2), (⟨20⟩, 1), (⟨31⟩, 2)], by decide +kernel⟩

end Program

end Scoping
