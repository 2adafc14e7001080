import Scoping.Proofs.Relabeling.Searching
import Scoping.Proofs.Visibility.Resolution

/-!
Resolving clauses under a relabeling. No step of the resolver asks for the access keyword
of a statement, and names are compared and looked up but never ordered; so the clauses of
a relabeled program are the relabeled clauses, with the same reports.
-/

namespace Scoping

open Context Resolve

variable {ρ : Relabeling}

namespace Relabeling

variable (ρ)

/-- What becomes of the pairs of names of a clause. -/
abbrev pairs : List (Name × Name) → List (Name × Name) := List.map (Prod.map ρ.name ρ.name)

/-- What becomes of a place that a path has come to, with the last name in the path. -/
abbrev reached : Option (ScopeId × Name) → Option (ScopeId × Name) :=
  Option.map (Prod.map id ρ.name)

/-- What becomes of an expression and its new name. -/
abbrev renamed : Option (NodeId × Option Name) → Option (NodeId × Option Name) :=
  Option.map (Prod.map id (Option.map ρ.name))

theorem beginning_context (context : Context) (id : ScopeId) :
    (ρ.context context).beginning id = ρ.context (context.beginning id) := by
  have hbegin := Memo.bimap_begin Function.injective_id (List.map ρ.clause) context.visibility id
  simp only [Context.beginning, Relabeling.context, hbegin]
  rfl

theorem finishing_context (context : Context) (id : ScopeId) (clauses : List Clause) :
    (ρ.context context).finishing id (clauses.map ρ.clause) =
      ρ.context (context.finishing id clauses) := by
  have hfinish := Memo.bimap_finish Function.injective_id (List.map ρ.clause) context.visibility id
    clauses
  simp only [Context.finishing, Relabeling.context, hfinish]
  rfl

theorem getD_map (newName : Option Name) (name : Name) :
    (newName.map ρ.name).getD (ρ.name name) = ρ.name (newName.getD name) := by
  cases newName <;> rfl

end Relabeling

/-- A step that is refused. -/
theorem Resolve.Relabels.refuse {α α' : Type} {image : α → α'} (error : Diagnostic) {value : α}
    {value' : α'} (hvalue : value' = image value) :
    Relabels ρ image (do Resolve.report error; return value)
      (do Resolve.report error; return value') :=
  (Relabels.report error).bind fun _ => .pure hvalue

namespace Program

variable {program program' : Program} {find find' : Finder}
variable {finds finds' : List Clause → Finder} {stmt : Statement} {scope : ScopeId}
variable (hrelabeled : program.Relabeled ρ program')
include hrelabeled

theorem splitRename_relabels (symbol : NodeId) :
    Relabels ρ ρ.renamed (program.splitRename symbol) (program'.splitRename symbol) := by
  unfold splitRename
  rw [hrelabeled.tree.kind?]
  cases program.tree.kind? symbol with
  | none => exact .pure rfl
  | some kind =>
    cases kind with
    | rename inner renamed =>
      dsimp only [Option.map_some, Relabeling.kind]
      rw [hrelabeled.tree.identifier?]
      cases program.tree.identifier? renamed with
      | none => exact .refuse _ rfl
      | some newName => exact .pure rfl
    | _ => exact .pure rfl

theorem listedPair_relabels (entry : NodeId) :
    Relabels ρ ρ.pairs (program.listedPair entry) (program'.listedPair entry) := by
  unfold listedPair
  rw [hrelabeled.tree.kind?]
  cases program.tree.kind? entry with
  | none => exact .refuse _ rfl
  | some kind =>
    cases kind with
    | identifier name => exact .pure rfl
    | rename symbol renamed =>
      dsimp only [Option.map_some, Relabeling.kind]
      rw [hrelabeled.tree.identifier?, hrelabeled.tree.identifier?]
      cases program.tree.identifier? symbol with
      | none => exact .refuse _ rfl
      | some name =>
        cases program.tree.identifier? renamed with
        | none => exact .refuse _ rfl
        | some newName => exact .pure rfl
    | _ => exact .refuse _ rfl

theorem listedPairs_relabels (entries : List NodeId) :
    Relabels ρ ρ.pairs (program.listedPairs entries) (program'.listedPairs entries) := by
  induction entries with
  | nil => exact .pure rfl
  | cons entry rest ih =>
    exact (listedPair_relabels hrelabeled entry).bind fun pair =>
      ih.bind fun pairs => .pure (List.map_append ..).symm

theorem refuseRenames_relabels (entries : List NodeId) :
    Relabels ρ id (program.refuseRenames entries) (program'.refuseRenames entries) := by
  induction entries with
  | nil => exact .pure rfl
  | cons entry rest ih =>
    rw [refuseRenames, refuseRenames, hrelabeled.tree.tag?]
    split
    · exact (Relabels.report _).bind fun _ => ih
    · exact ih

/-- A name that an entry takes from the target stands in the tree. -/
theorem display_of_listedName? {entry site : NodeId} {name : Name}
    (hlisted : program.listedName? entry = some (site, name)) :
    program'.tree.names.display (ρ.name name) = program.tree.names.display name := by
  unfold listedName? at hlisted
  split at hlisted
  · next hkind =>
    cases hlisted
    exact hrelabeled.tree.display entry _ hkind name (by simp [NodeKind.names])
  · obtain ⟨found, hfound, hpair⟩ := Option.map_eq_some_iff.mp hlisted
    cases hpair
    unfold Tree.identifier? at hfound
    split at hfound
    · next hinner =>
      obtain rfl := Option.some.inj hfound
      exact hrelabeled.tree.display _ _ hinner _ (by simp [NodeKind.names])
    · cases hfound
  · cases hlisted

/-- So does the last field of an `import`. -/
theorem display_of_splitField {limitation : Limitation} {expr rest : NodeId} {field : Name}
    (hsplit : program.splitField limitation expr = (rest, some field)) :
    program'.tree.names.display (ρ.name field) = program.tree.names.display field := by
  unfold splitField at hsplit
  split at hsplit
  · cases hsplit
  · next hkind =>
    cases hsplit
    exact hrelabeled.tree.display expr _ hkind field (by simp [NodeKind.names])
  · cases hsplit

section

variable (hfind : ∀ config scope name,
  Relabels ρ ρ.sets (find config scope name) (find' config scope (ρ.name name)))
include hfind

omit hrelabeled in
theorem checkName_relabels (target : ScopeId) {name : Name} (site : NodeId)
    (hdisplay : program'.tree.names.display (ρ.name name) = program.tree.names.display name) :
    Relabels ρ id (program.checkName find stmt target name site)
      (program'.checkName find' stmt target (ρ.name name) site) := by
  refine (hfind _ _ _).bind fun found => ?_
  rw [List.isEmpty_map, hdisplay]
  split
  · exact .report _
  · exact .pure rfl

theorem checkListed_relabels (target : ScopeId) (entries : List NodeId) :
    Relabels ρ id (program.checkListed find stmt target entries)
      (program'.checkListed find' stmt target entries) := by
  induction entries with
  | nil => exact .pure rfl
  | cons entry rest ih =>
    rw [checkListed, checkListed, hrelabeled.listedName?]
    cases hlisted : program.listedName? entry with
    | none =>
      show Relabels ρ id (pure () >>= fun _ => program.checkListed find stmt target rest)
        (pure () >>= fun _ => program'.checkListed find' stmt target rest)
      rw [pure_bind, pure_bind]
      exact ih
    | some listed =>
      exact (checkName_relabels hfind target listed.1
        (display_of_listedName? hrelabeled hlisted)).bind fun _ => ih

theorem resolveSegment_relabels (config : LookupConfig) (scope : ScopeId) (name : Name)
    (site : NodeId) :
    Relabels ρ id (program.resolveSegment find stmt config scope name site)
      (program'.resolveSegment find' stmt config scope (ρ.name name) site) := by
  refine (hfind _ _ _).bind fun found => ?_
  rcases found with _ | ⟨⟨decl, _ | _⟩, _ | _⟩
  case cons.nil.nil =>
    have hone : ρ.sets [⟨decl, []⟩] = [⟨ρ.decl decl, []⟩] := rfl
    rw [hone]
    dsimp only
    rw [ρ.node?_decl, hrelabeled.isTarget]
    split
    · exact (scopeOf_relabels hrelabeled _).map fun _ => rfl
    · exact .refuse _ rfl
  all_goals exact .refuse _ rfl

theorem resolveHead_relabels (head : NodeId) :
    Relabels ρ ρ.reached (program.resolveHead find stmt scope head)
      (program'.resolveHead find' stmt scope head) := by
  unfold resolveHead
  rw [hrelabeled.tree.identifier?]
  cases program.tree.identifier? head with
  | none => exact .refuse _ rfl
  | some name =>
    dsimp only [Option.map_some]
    simp only [ρ.name_eq_this_iff, ρ.name_eq_super_iff]
    split
    · refine .get_bind fun context => ?_
      rw [ρ.moduleOf?_context, ρ.superOf?_context]
      split
      · exact .pure rfl
      · exact .refuse _ rfl
    · refine (resolveSegment_relabels hrelabeled hfind _ scope name head).bind fun found => .pure ?_
      cases found <;> rfl

theorem resolveFields_relabels (start : ScopeId × Name) (fields : List (NodeId × Name)) :
    Relabels ρ ρ.reached (program.resolveFields find stmt start fields)
      (program'.resolveFields find' stmt (Prod.map id ρ.name start)
        (fields.map (Prod.map (fun node => node) ρ.name))) := by
  induction fields generalizing start with
  | nil => exact .pure rfl
  | cons field rest ih =>
    refine (resolveSegment_relabels hrelabeled hfind _ start.1 field.2 field.1).bind
      fun inner? => ?_
    cases inner? with
    | none => exact .pure rfl
    | some inner => exact ih (inner, field.2)

theorem resolvePath_relabels (expr : NodeId) :
    Relabels ρ ρ.reached (program.resolvePath find stmt scope expr)
      (program'.resolvePath find' stmt scope expr) := by
  unfold resolvePath
  rw [hrelabeled.tree.path]
  refine (resolveHead_relabels hrelabeled hfind _).bind fun start? => ?_
  cases start? with
  | none => exact .pure rfl
  | some start => exact resolveFields_relabels hrelabeled hfind start _

theorem throughTarget_relabels (symbol : NodeId) {pathOf : NodeId → NodeId}
    {rest rest' : NodeId → Option Name → ScopeId → Name → Resolve (List Clause)}
    (hrest : ∀ expr newName target name, Relabels ρ (List.map ρ.clause)
      (rest expr newName target name) (rest' expr (newName.map ρ.name) target (ρ.name name))) :
    Relabels ρ (List.map ρ.clause)
      (program.throughTarget find stmt scope symbol pathOf rest)
      (program'.throughTarget find' stmt scope symbol pathOf rest') := by
  refine (splitRename_relabels hrelabeled symbol).bind fun parts? => ?_
  rcases parts? with _ | ⟨expr, newName⟩
  · exact .pure rfl
  refine (resolvePath_relabels hrelabeled hfind (pathOf expr)).bind fun reached? => ?_
  rcases reached? with _ | ⟨target, name⟩
  · exact .pure rfl
  exact hrest expr newName target name

end

section

variable (hfinds : ∀ clauses config scope name, Relabels ρ ρ.sets (finds clauses config scope name)
  (finds' (clauses.map ρ.clause) config scope (ρ.name name)))
include hfinds

theorem useClauses_relabels (isPrivate : Bool) (before : List Clause) (site symbol : NodeId)
    (limitation : Limitation) (limitations : List NodeId) :
    Relabels ρ (List.map ρ.clause)
      (program.useClauses finds scope isPrivate before site symbol limitation limitations)
      (program'.useClauses finds' scope (ρ.isPrivate isPrivate) (before.map ρ.clause) site symbol
        limitation limitations) := by
  rw [useClauses_eq, useClauses_eq]
  split
  · exact .refuse _ rfl
  refine throughTarget_relabels hrelabeled (hfinds before) symbol fun expr newName target name => ?_
  have hitself : (⟨target, .symbolOnly, ρ.isPrivate isPrivate,
      [(ρ.name name, (newName.map ρ.name).getD (ρ.name name))]⟩ : Clause) =
        ρ.clause ⟨target, .symbolOnly, isPrivate, [(name, newName.getD name)]⟩ := by
    rw [ρ.getD_map]
    rfl
  dsimp only
  rw [hitself]
  cases limitation with
  | except =>
    exact (refuseRenames_relabels hrelabeled limitations).bind fun _ =>
      (listedPairs_relabels hrelabeled limitations).bind fun names => .pure rfl
  | only =>
    have hmore := hfinds (before ++ [⟨target, .symbolOnly, isPrivate, [(name, newName.getD name)]⟩])
    rw [List.map_append] at hmore
    exact (checkListed_relabels hrelabeled hmore target limitations).bind fun _ =>
      (listedPairs_relabels hrelabeled limitations).bind fun names => .pure rfl
  | unlimited => exact .pure rfl
  | braces => exact .pure rfl

theorem importClauses_relabels (isPrivate : Bool) (before : List Clause) (site symbol : NodeId)
    (limitation : Limitation) (limitations : List NodeId) :
    Relabels ρ (List.map ρ.clause)
      (program.importClauses finds scope isPrivate before site symbol limitation limitations)
      (program'.importClauses finds' scope (ρ.isPrivate isPrivate) (before.map ρ.clause) site symbol
        limitation limitations) := by
  rw [importClauses_eq, importClauses_eq]
  split
  · exact .refuse _ rfl
  simp only [hrelabeled.splitField]
  refine throughTarget_relabels hrelabeled (hfinds before) symbol fun expr newName target name => ?_
  rcases hsplit : program.splitField limitation expr with ⟨path, field?⟩
  have hlisted : Relabels ρ (List.map ρ.clause)
      (do
        program.checkListed (finds before) .imports target limitations
        let names ← program.listedPairs limitations
        return [(⟨target, .onlyContents, isPrivate, names⟩ : Clause)])
      (do
        program'.checkListed (finds' (before.map ρ.clause)) .imports target limitations
        let names ← program'.listedPairs limitations
        return [(⟨target, .onlyContents, ρ.isPrivate isPrivate, names⟩ : Clause)]) :=
    (checkListed_relabels hrelabeled (hfinds before) target limitations).bind fun _ =>
      (listedPairs_relabels hrelabeled limitations).bind fun names => .pure rfl
  cases limitation <;> cases field?
  case braces.none | braces.some => exact hlisted
  case unlimited.none | except.none | only.none =>
    exact .pure (by simp [Relabeling.clause, ρ.getD_map])
  case unlimited.some field | except.some field | only.some field =>
    exact (checkName_relabels (hfinds before) target site
      (display_of_splitField hrelabeled hsplit)).bind fun _ =>
        .pure (by simp [Relabeling.clause, ρ.getD_map])

theorem addClause_relabels (isPrivate : Bool) (before : List Clause) (site : NodeId) :
    Relabels ρ (List.map ρ.clause)
      (program.addClause finds stmt scope isPrivate before site)
      (program'.addClause finds' stmt scope (ρ.isPrivate isPrivate) (before.map ρ.clause)
        site) := by
  unfold addClause
  rw [hrelabeled.tree.kind?]
  cases program.tree.kind? site with
  | none => exact .pure rfl
  | some kind =>
    cases kind with
    | clause symbol limitation limitations =>
      cases stmt with
      | use =>
        exact (useClauses_relabels hrelabeled hfinds isPrivate before site symbol limitation
          limitations).bind fun clauses => .pure List.map_append.symm
      | imports =>
        exact (importClauses_relabels hrelabeled hfinds isPrivate before site symbol limitation
          limitations).bind fun clauses => .pure List.map_append.symm
    | _ => exact .pure rfl

theorem addStatement_relabels (before : List Clause) (node : NodeId) :
    Relabels ρ (List.map ρ.clause) (program.addStatement finds scope before node)
      (program'.addStatement finds' scope (before.map ρ.clause) node) := by
  have hadd : ∀ stmt (access : Access), Relabels ρ (List.map ρ.clause)
      ((program.tree.children node).foldlM
        (program.addClause finds stmt scope access.isPrivate) before)
      ((program'.tree.children node).foldlM
        (program'.addClause finds' stmt scope (ρ.access access).isPrivate)
        (before.map ρ.clause)) := by
    intro stmt access
    rw [hrelabeled.tree.children, ρ.isPrivate_access]
    exact .foldlM (addClause_relabels hrelabeled hfinds access.isPrivate) _ before
  unfold addStatement
  rw [hrelabeled.tree.kind?]
  cases program.tree.kind? node with
  | none => exact .pure rfl
  | some kind =>
    cases kind with
    | useStmt access => exact hadd .use access
    | importStmt access => exact hadd .imports access
    | _ => exact .pure rfl

theorem resolveStatements_relabels (scope : ScopeId) :
    Relabels ρ (List.map ρ.clause) (program.resolveStatements finds scope)
      (program'.resolveStatements finds' scope) := by
  refine .scope_bind fun found => ?_
  rw [ρ.owner_scope]
  cases found.owner with
  | none => exact .pure rfl
  | some owner =>
    dsimp only
    rw [hrelabeled.tree.children]
    exact .foldlM (addStatement_relabels hrelabeled hfinds) _ []

end

/-- What becomes of the clauses of a scope, if it has any. -/
abbrev clausesImage (ρ : Relabeling) : Option (List Clause) → Option (List Clause) :=
  Option.map (List.map ρ.clause)

theorem resolveOnce_relabels {inner inner' : ScopeId → Resolve (Option (List Clause))}
    (hinner : ∀ id, Relabels ρ (clausesImage ρ) (inner id) (inner' id)) (id : ScopeId) :
    Relabels ρ (clausesImage ρ) (program.resolveOnce inner id)
      (program'.resolveOnce inner' id) := by
  have hview : ∀ clauses other, Relabels ρ (List.map ρ.clause)
      (viewWithin inner id clauses other) (viewWithin inner' id (clauses.map ρ.clause) other) := by
    intro clauses other
    unfold viewWithin
    split
    · exact .pure rfl
    · refine (hinner other).bind fun found => .pure ?_
      cases found <;> rfl
  have hfinds : ∀ clauses config scope name, Relabels ρ ρ.sets
      (program.findWithin inner id clauses config scope name)
      (program'.findWithin inner' id (clauses.map ρ.clause) config scope (ρ.name name)) :=
    fun clauses config scope name =>
      (search_relabels hrelabeled (hview clauses) config scope name []).map fun _ => rfl
  refine .scope_bind fun scope => ?_
  show Relabels ρ _ (if scope.hasImports then _ else _) (if scope.hasImports then _ else _)
  split
  swap
  · exact .pure rfl
  refine .get_bind fun context => ?_
  have hprogress : (ρ.context context).visibility.progress? id = _ :=
    Memo.progress?_bimap Function.injective_id (List.map ρ.clause) context.visibility id
  dsimp only
  rw [hprogress]
  rcases context.visibility.progress? id with _ | _ | clauses
  · exact Relabels.bind (Relabels.modifying fun context => ρ.beginning_context context id) fun _ =>
      (resolveStatements_relabels hrelabeled hfinds id).bind fun clauses =>
        .record (fun context => ρ.finishing_context context id clauses) rfl
  · exact .pure rfl
  · exact .pure rfl

theorem resolveVisibility_relabels (fuel : Nat) (id : ScopeId) :
    Relabels ρ (clausesImage ρ) (program.resolveVisibility fuel id)
      (program'.resolveVisibility fuel id) := by
  induction fuel generalizing id with
  | zero => exact .failure
  | succ fuel ih => exact resolveOnce_relabels hrelabeled ih id

theorem visibility_relabels (id : ScopeId) :
    Relabels ρ (clausesImage ρ) (program.visibility id) (program'.visibility id) := by
  rw [visibility, visibility, hrelabeled.depth]
  exact resolveVisibility_relabels hrelabeled program.depth id

theorem clausesOf_relabels (id : ScopeId) :
    Relabels ρ (List.map ρ.clause) (program.clausesOf id) (program'.clausesOf id) := by
  refine (visibility_relabels hrelabeled id).bind fun found => .pure ?_
  cases found <;> rfl

end Program

end Scoping
