import Scoping.Proofs.Context.Ends
import Scoping.Visibility.Resolve

/-!
What the clauses of a scope are made of. Each clause of each statement, in source order,
contributes what is written in it about the scope that its path leads to, or nothing
when it is refused; how names are found has a say in the target only.
-/

namespace Scoping

open Resolve

/-- A single item is related to a single one. -/
theorem forall₂_singleton_left_iff {α β : Type} {related : α → β → Prop} {item : α}
    {others : List β} :
    List.Forall₂ related [item] others ↔ ∃ other, related item other ∧ others = [other] := by
  rw [List.forall₂_cons_left_iff]
  constructor
  · rintro ⟨other, rest, hother, hrest, rfl⟩
    obtain rfl := List.forall₂_nil_left_iff.mp hrest
    exact ⟨other, hother, rfl⟩
  · rintro ⟨other, hother, rfl⟩
    exact ⟨other, [], hother, .nil, rfl⟩

/-- What a `use` with this limitation makes of the contents of its target. -/
def Limitation.contents? : Limitation → Option ClauseKind
  | .unlimited => some .allContents
  | .only => some .onlyContents
  | .except => some .contentsExcept
  | .braces => none

/-- A clause of a statement, as it is written. -/
structure WrittenClause where
  stmt : Statement
  access : Access
  site : NodeId
  symbol : NodeId
  limitation : Limitation
  limitations : List NodeId
deriving DecidableEq

/-- Whether the form of a clause is one that its statement takes. -/
def WrittenClause.Admitted (written : WrittenClause) : Prop :=
  match written.stmt with
  | .use => written.limitation ≠ .braces
  | .imports => ¬ (written.limitation = .except ∨ written.limitation = .only)

/-- The clauses that a written one stands for once it has a target: for a `use` the name of
the target and then its contents as far as the limitation goes, for an `import` one clause,
for the name of the target or for listed names. -/
inductive WrittenClause.Shape (written : WrittenClause) (target : ScopeId) : List Clause → Prop
  | use {itself contents : Clause} (hstmt : written.stmt = .use)
    (hitself : itself.target = target ∧ itself.kind = .symbolOnly)
    (hcontents : contents.target = target ∧ written.limitation.contents? = some contents.kind) :
    Shape written target [itself, contents]
  | imports {clause : Clause} (hstmt : written.stmt = .imports) (htarget : clause.target = target)
    (hkind : clause.kind = .symbolOnly ∨ clause.kind = .onlyContents) :
    Shape written target [clause]

namespace Tree

/-- A child of a statement as a clause, if it is one. -/
def writtenClause? (tree : Tree) (stmt : Statement) (access : Access) (site : NodeId) :
    Option WrittenClause :=
  match tree.kind? site with
  | some (.clause symbol limitation limitations) =>
    some ⟨stmt, access, site, symbol, limitation, limitations⟩
  | _ => none

/-- The clauses of one statement; other nodes have none. -/
def clausesOfStatement (tree : Tree) (node : NodeId) : List WrittenClause :=
  match tree.kind? node with
  | some (.useStmt access) => (tree.children node).filterMap (tree.writtenClause? .use access)
  | some (.importStmt access) =>
    (tree.children node).filterMap (tree.writtenClause? .imports access)
  | _ => []

/-- The clauses of the statements directly inside a node, in source order. -/
def writtenClauses (tree : Tree) (owner : NodeId) : List WrittenClause :=
  (tree.children owner).flatMap tree.clausesOfStatement

/-- The expression of a symbol and the new name after `as`, if there is one; nothing for
a new name that is no identifier. -/
def renamed? (tree : Tree) (symbol : NodeId) : Option (NodeId × Option Name) :=
  match tree.kind? symbol with
  | some (.rename inner renamed) => (tree.identifier? renamed).map fun name => (inner, some name)
  | _ => some (symbol, none)

/-- The last name of a path. -/
def lastName? (tree : Tree) (expr : NodeId) : Option Name :=
  match (tree.path expr).fields.getLast? with
  | some field => some field.2
  | none => tree.identifier? (tree.path expr).head

/-- The actual name and the visible one that an entry of a list stands for. -/
def listed? (tree : Tree) (entry : NodeId) : Option (Name × Name) :=
  match tree.kind? entry with
  | some (.identifier name) => some (name, name)
  | some (.rename symbol renamed) =>
    (tree.identifier? symbol).bind fun name =>
      (tree.identifier? renamed).map fun newName => (name, newName)
  | _ => none

/-- The pairs of names that a list stands for. -/
def listed (tree : Tree) (entries : List NodeId) : List (Name × Name) :=
  entries.filterMap tree.listed?

end Tree

namespace Program

variable (program : Program)

/-- What a clause makes of the scope that its path leads to; nothing when the clause is
one that is refused wherever it leads. -/
def made (written : WrittenClause) (target : ScopeId) : Option (List Clause) := do
  let (expr, newName) ← program.tree.renamed? written.symbol
  let isPrivate := written.access.isPrivate
  let names := program.tree.listed written.limitations
  match written.stmt with
  | .use =>
    let name ← program.tree.lastName? expr
    let itself : Clause := ⟨target, .symbolOnly, isPrivate, [(name, newName.getD name)]⟩
    match written.limitation with
    | .unlimited => return [itself, ⟨target, .allContents, isPrivate, []⟩]
    | .except => return [itself, ⟨target, .contentsExcept, isPrivate, names⟩]
    | .only => return [itself, ⟨target, .onlyContents, isPrivate, names⟩]
    | .braces => none
  | .imports =>
    match written.limitation, program.splitField written.limitation expr with
    | .braces, _ => return [⟨target, .onlyContents, isPrivate, names⟩]
    | .unlimited, (_, some field) =>
      return [⟨target, .onlyContents, isPrivate, [(field, newName.getD field)]⟩]
    | .unlimited, (expr, none) =>
      let name ← program.tree.lastName? expr
      return [⟨target, .symbolOnly, isPrivate, [(name, newName.getD name)]⟩]
    | _, _ => none

/-- The expression that is the path of a clause, which the field that an `import` takes is
no part of; nothing if the clause has a new name that is no identifier. -/
def targetExpr? (written : WrittenClause) : Option NodeId :=
  (program.tree.renamed? written.symbol).map fun parts =>
    match written.stmt with
    | .use => parts.1
    | .imports => (program.splitField written.limitation parts.1).1

/-- What a clause of either statement starts with: the new name is split off its symbol, the
path of the expression that is left is resolved, and `rest` takes over at the target. -/
def throughTarget (find : Finder) (stmt : Statement) (scope : ScopeId) (symbol : NodeId)
    (pathOf : NodeId → NodeId)
    (rest : NodeId → Option Name → ScopeId → Name → Resolve (List Clause)) :
    Resolve (List Clause) := do
  let some (expr, newName) ← program.splitRename symbol | return []
  let some (target, name) ← program.resolvePath find stmt scope (pathOf expr) | return []
  rest expr newName target name

/-- A `use` makes two clauses of its target, or refuses a brace list. -/
theorem useClauses_eq (find : List Clause → Finder) (scope : ScopeId) (isPrivate : Bool)
    (before : List Clause) (site symbol : NodeId) (limitation : Limitation)
    (limitations : List NodeId) :
    program.useClauses find scope isPrivate before site symbol limitation limitations =
      if limitation = .braces then do
        Resolve.report (.unsupported site "a brace list cannot be used with 'use'")
        return []
      else
        program.throughTarget (find before) .use scope symbol (fun expr => expr)
          fun _ newName target name => do
            let itself : Clause := ⟨target, .symbolOnly, isPrivate, [(name, newName.getD name)]⟩
            match limitation with
            | .except =>
              program.refuseRenames limitations
              return [itself, ⟨target, .contentsExcept, isPrivate,
                ← program.listedPairs limitations⟩]
            | .only =>
              program.checkListed (find (before ++ [itself])) .use target limitations
              return [itself, ⟨target, .onlyContents, isPrivate, ← program.listedPairs limitations⟩]
            | .unlimited | .braces => return [itself, ⟨target, .allContents, isPrivate, []⟩] :=
  rfl

/-- An `import` makes one clause of its target, or refuses the limitations of a `use`. -/
theorem importClauses_eq (find : List Clause → Finder) (scope : ScopeId) (isPrivate : Bool)
    (before : List Clause) (site symbol : NodeId) (limitation : Limitation)
    (limitations : List NodeId) :
    program.importClauses find scope isPrivate before site symbol limitation limitations =
      if limitation = .except ∨ limitation = .only then do
        Resolve.report (.unsupported site "'except' and 'only' cannot be used with 'import'")
        return []
      else
        program.throughTarget (find before) .imports scope symbol
          (fun expr => (program.splitField limitation expr).1) fun expr newName target name =>
            match limitation, (program.splitField limitation expr).2 with
            | .braces, _ => do
              program.checkListed (find before) .imports target limitations
              return [⟨target, .onlyContents, isPrivate, ← program.listedPairs limitations⟩]
            | _, some field => do
              program.checkName (find before) .imports target field site
              return [⟨target, .onlyContents, isPrivate, [(field, newName.getD field)]⟩]
            | _, none =>
              return [⟨target, .symbolOnly, isPrivate, [(name, newName.getD name)]⟩] :=
  rfl

/-- How what a clause contributes comes about. A clause whose form is admitted has its path
resolved first, and contributes what is made of the target if there is one. -/
inductive Goes (find : Finder) (scope : ScopeId) (written : WrittenClause) (context : Context) :
    List Clause → Context → Prop
  | barred {later : Context} (hbarred : ¬ written.Admitted ∨ program.targetExpr? written = none) :
    Goes find scope written context [] later
  | lost {expr : NodeId} {later : Context} (hexpr : program.targetExpr? written = some expr)
    (hpath : program.resolvePath find written.stmt scope expr context = some (none, later)) :
    Goes find scope written context [] later
  | reached {expr : NodeId} {target : ScopeId} {name : Name} {part : List Clause}
    {middle later : Context} (hexpr : program.targetExpr? written = some expr)
    (hpath : program.resolvePath find written.stmt scope expr context =
      some (some (target, name), middle))
    (hmade : program.made written target = some part) : Goes find scope written context part later

/-- What a clause may contribute to its scope. -/
def Contributes (written : WrittenClause) (part : List Clause) : Prop :=
  part = [] ∨ ∃ target, program.made written target = some part

/-- Whether a list of clauses is made up of what each written clause contributes. -/
def MadeOf (written : List WrittenClause) (clauses : List Clause) : Prop :=
  ∃ parts, List.Forall₂ program.Contributes written parts ∧ clauses = parts.flatten

variable {program}

/-- What is made of a clause has the shape of its statement, and a part of it that makes
everything visible lists no names. -/
theorem shape_and_whole_of_made {written : WrittenClause} {target : ScopeId} {part : List Clause}
    (hmade : program.made written target = some part) :
    written.Shape target part ∧
      ∀ clause ∈ part, clause.kind = .allContents → clause.names = [] := by
  unfold made at hmade
  obtain ⟨⟨expr, newName⟩, -, hmade⟩ := Option.bind_eq_some_iff.mp hmade
  obtain ⟨stmt, access, site, symbol, limitation, limitations⟩ := written
  dsimp only at hmade
  cases stmt with
  | use =>
    obtain ⟨last, -, hmade⟩ := Option.bind_eq_some_iff.mp hmade
    cases limitation with
    | braces => cases hmade
    | unlimited | except | only =>
      obtain rfl := Option.some.inj hmade
      exact ⟨.use rfl ⟨rfl, rfl⟩ ⟨rfl, rfl⟩, by simp⟩
  | imports =>
    dsimp only at hmade
    split at hmade
    · obtain rfl := Option.some.inj hmade
      exact ⟨.imports rfl rfl (.inr rfl), by simp⟩
    · obtain rfl := Option.some.inj hmade
      exact ⟨.imports rfl rfl (.inr rfl), by simp⟩
    · obtain ⟨last, -, hmade⟩ := Option.bind_eq_some_iff.mp hmade
      obtain rfl := Option.some.inj hmade
      exact ⟨.imports rfl rfl (.inl rfl), by simp⟩
    · cases hmade

theorem ne_nil_of_made {written : WrittenClause} {target : ScopeId} {part : List Clause}
    (hmade : program.made written target = some part) : part ≠ [] := by
  cases (shape_and_whole_of_made hmade).1 <;> exact List.cons_ne_nil _ _

theorem shape_of_made {written : WrittenClause} {target : ScopeId} {part : List Clause}
    (hmade : program.made written target = some part) : written.Shape target part :=
  (shape_and_whole_of_made hmade).1

theorem whole_of_made {written : WrittenClause} {target : ScopeId} {part : List Clause}
    (hmade : program.made written target = some part) {clause : Clause} (hclause : clause ∈ part) :
    clause.kind = .allContents → clause.names = [] :=
  (shape_and_whole_of_made hmade).2 clause hclause

/-- Whatever is made of a clause is about the target that its path leads to. -/
theorem target_of_made {written : WrittenClause} {target : ScopeId} {part : List Clause}
    (hmade : program.made written target = some part) {clause : Clause} (hclause : clause ∈ part) :
    clause.target = target := by
  cases shape_of_made hmade with
  | use _ hitself hcontents =>
    rcases List.mem_pair.mp hclause with rfl | rfl
    · exact hitself.1
    · exact hcontents.1
  | imports _ htarget =>
    obtain rfl := List.mem_singleton.mp hclause
    exact htarget

theorem Goes.contributes {find : Finder} {scope : ScopeId} {written : WrittenClause}
    {context later : Context} {part : List Clause}
    (hgoes : program.Goes find scope written context part later) :
    program.Contributes written part := by
  cases hgoes with
  | barred | lost => exact .inl rfl
  | reached _ _ hmade => exact .inr ⟨_, hmade⟩

theorem MadeOf.nil : program.MadeOf [] [] := ⟨[], .nil, rfl⟩

theorem MadeOf.single {written : WrittenClause} {part : List Clause}
    (hpart : program.Contributes written part) : program.MadeOf [written] part :=
  ⟨[part], .cons hpart .nil, by simp⟩

theorem MadeOf.append {written more : List WrittenClause} {clauses others : List Clause}
    (hclauses : program.MadeOf written clauses) (hothers : program.MadeOf more others) :
    program.MadeOf (written ++ more) (clauses ++ others) := by
  obtain ⟨parts, hparts, rfl⟩ := hclauses
  obtain ⟨parts', hparts', rfl⟩ := hothers
  exact ⟨parts ++ parts', List.rel_append hparts hparts', List.flatten_append.symm⟩

theorem madeOf_single_iff {written : WrittenClause} {clauses : List Clause} :
    program.MadeOf [written] clauses ↔ program.Contributes written clauses := by
  refine ⟨?_, .single⟩
  rintro ⟨parts, hparts, rfl⟩
  obtain ⟨part, hpart, rfl⟩ := forall₂_singleton_left_iff.mp hparts
  simpa using hpart

end Program

namespace Resolve

variable {α β : Type}

/-- Whatever the computation ends with is as asked. -/
def Returns (action : Resolve α) (post : α → Prop) : Prop :=
  ∀ context value later, action context = some (value, later) → post value

theorem Returns.any (action : Resolve α) : action.Returns fun _ => True := fun _ _ _ _ => trivial

theorem Returns.pure {value : α} {post : α → Prop} (hpost : post value) :
    (Pure.pure value : Resolve α).Returns post := by
  intro context _ _ hrun
  cases hrun
  exact hpost

theorem Returns.bind {first : Resolve α} {next : α → Resolve β} {middle : α → Prop}
    {post : β → Prop} (hfirst : first.Returns middle)
    (hnext : ∀ value, middle value → (next value).Returns post) :
    (first >>= next).Returns post := by
  intro context result last hrun
  obtain ⟨value, later, hvalue, hrest⟩ := bind_eq_some_iff.mp hrun
  exact hnext value (hfirst context value later hvalue) later result last hrest

/-- What a computation ends with is also what it always returns. -/
theorem Ends.returning {changes : Context → Context → Prop} {action : Resolve α}
    {context : Context} {post : α → Context → Prop} {returned : α → Prop}
    (hends : Ends changes action context post) (hreturns : action.Returns returned) :
    Ends changes action context fun value later => returned value ∧ post value later :=
  hends.run.mono fun value later _ hrun => ⟨hreturns context value later hrun.1, hrun.2⟩

/-- A step whose result does not matter. -/
theorem Returns.after {first : Resolve α} {next : α → Resolve β} {post : β → Prop}
    (hnext : ∀ value, (next value).Returns post) : (first >>= next).Returns post :=
  (Returns.any first).bind fun value _ => hnext value

/-- Steps that each add what a node stands for. -/
theorem foldlM_returns {program : Program} {step : List Clause → NodeId → Resolve (List Clause)}
    {written : NodeId → List WrittenClause}
    (hstep : ∀ before node, (step before node).Returns fun clauses =>
      ∃ added, program.MadeOf (written node) added ∧ clauses = before ++ added)
    (nodes : List NodeId) (before : List Clause) :
    (nodes.foldlM step before).Returns fun clauses =>
      ∃ added, program.MadeOf (nodes.flatMap written) added ∧ clauses = before ++ added := by
  induction nodes generalizing before with
  | nil => exact .pure ⟨[], .nil, (List.append_nil _).symm⟩
  | cons node rest ih =>
    rw [List.foldlM_cons]
    refine (hstep before node).bind ?_
    rintro _ ⟨added, hadded, rfl⟩ context clauses later hrun
    obtain ⟨more, hmore, rfl⟩ := ih (before ++ added) context clauses later hrun
    exact ⟨added ++ more, hadded.append hmore, List.append_assoc _ _ _⟩

end Resolve

namespace Program

variable {program : Program}

theorem splitRename_returns (symbol : NodeId) :
    (program.splitRename symbol).Returns fun parts => parts = program.tree.renamed? symbol := by
  unfold splitRename Tree.renamed?
  cases program.tree.kind? symbol with
  | none => exact .pure rfl
  | some kind =>
    cases kind with
    | rename inner renamed =>
      dsimp only
      cases program.tree.identifier? renamed with
      | some name => exact .pure rfl
      | none => exact .after fun _ => .pure rfl
    | _ => exact .pure rfl

/-- A symbol that is not refused is read off the tree. -/
theorem splitRename_run {symbol : NodeId} {parts : NodeId × Option Name} {context later : Context}
    (hrun : program.splitRename symbol context = some (some parts, later)) : later = context := by
  unfold splitRename at hrun
  cases hkind : program.tree.kind? symbol with
  | none =>
    rw [hkind] at hrun
    cases hrun
    rfl
  | some kind =>
    rw [hkind] at hrun
    cases kind with
    | rename inner renamed =>
      dsimp only at hrun
      cases hname : program.tree.identifier? renamed with
      | some name =>
        rw [hname] at hrun
        cases hrun
        rfl
      | none =>
        rw [hname] at hrun
        obtain ⟨_, _, -, hrest⟩ := bind_eq_some_iff.mp hrun
        cases hrest
    | _ =>
      cases hrun
      rfl

theorem listedPair_returns (entry : NodeId) :
    (program.listedPair entry).Returns fun pairs =>
      pairs = (program.tree.listed? entry).toList := by
  unfold listedPair Tree.listed?
  cases program.tree.kind? entry with
  | none => exact .after fun _ => .pure rfl
  | some kind =>
    cases kind with
    | identifier name => exact .pure rfl
    | rename symbol renamed =>
      dsimp only
      cases program.tree.identifier? symbol with
      | none => exact .after fun _ => .pure rfl
      | some name =>
        cases program.tree.identifier? renamed with
        | none => exact .after fun _ => .pure rfl
        | some newName => exact .pure rfl
    | _ => exact .after fun _ => .pure rfl

theorem listedPairs_returns (entries : List NodeId) :
    (program.listedPairs entries).Returns fun pairs => pairs = program.tree.listed entries := by
  induction entries with
  | nil => exact .pure rfl
  | cons entry rest ih =>
    refine (listedPair_returns entry).bind ?_
    rintro _ rfl
    refine ih.bind ?_
    rintro _ rfl
    refine .pure ?_
    rw [Tree.listed, Tree.listed, List.filterMap_cons]
    cases program.tree.listed? entry <;> rfl

theorem resolveHead_returns (find : Finder) (stmt : Statement) (scope : ScopeId) (head : NodeId) :
    (program.resolveHead find stmt scope head).Returns fun reached? =>
      ∀ reached, reached? = some reached → program.tree.identifier? head = some reached.2 := by
  unfold resolveHead
  cases program.tree.identifier? head with
  | none => exact .after fun _ => .pure nofun
  | some name =>
    dsimp only
    split
    · refine .after fun context => ?_
      split
      · refine .pure fun reached hreached => ?_
        obtain rfl := Option.some.inj hreached
        rfl
      · exact .after fun _ => .pure nofun
    · refine .after fun target? => .pure fun reached hreached => ?_
      obtain ⟨target, -, rfl⟩ := Option.map_eq_some_iff.mp hreached
      rfl

theorem resolveFields_returns (find : Finder) (stmt : Statement) (start : ScopeId × Name)
    (fields : List (NodeId × Name)) :
    (program.resolveFields find stmt start fields).Returns fun reached? =>
      ∀ reached, reached? = some reached →
        reached.2 = ((fields.getLast?).map Prod.snd).getD start.2 := by
  induction fields generalizing start with
  | nil =>
    refine .pure fun reached hreached => ?_
    obtain rfl := Option.some.inj hreached
    rfl
  | cons field rest ih =>
    refine .after fun inner? => ?_
    cases inner? with
    | none => exact .pure nofun
    | some inner =>
      intro context reached? later hrun reached hreached
      rw [ih _ context reached? later hrun reached hreached, List.getLast?_cons]
      cases rest.getLast? <;> rfl

/-- The name that comes with the target of a path is the last one in it. -/
theorem resolvePath_returns (find : Finder) (stmt : Statement) (scope : ScopeId) (expr : NodeId) :
    (program.resolvePath find stmt scope expr).Returns fun reached? =>
      ∀ reached, reached? = some reached → program.tree.lastName? expr = some reached.2 := by
  unfold resolvePath Tree.lastName?
  refine (resolveHead_returns find stmt scope _).bind fun start? hstart => ?_
  cases start? with
  | none => exact .pure nofun
  | some start =>
    intro context reached? later hrun reached hreached
    rw [resolveFields_returns find stmt start _ context reached? later hrun reached hreached,
      hstart start rfl]
    cases (program.tree.path expr).fields.getLast? <;> rfl

theorem throughTarget_goes {find : Finder} {scope : ScopeId} {written : WrittenClause}
    {pathOf : NodeId → NodeId}
    {rest : NodeId → Option Name → ScopeId → Name → Resolve (List Clause)}
    {context later : Context} {part : List Clause}
    (hexpr : ∀ parts, program.tree.renamed? written.symbol = some parts →
      program.targetExpr? written = some (pathOf parts.1))
    (hrest : ∀ expr newName target name middle,
      program.tree.renamed? written.symbol = some (expr, newName) →
      program.tree.lastName? (pathOf expr) = some name →
      rest expr newName target name middle = some (part, later) →
      program.made written target = some part)
    (hrun : program.throughTarget find written.stmt scope written.symbol pathOf rest context =
      some (part, later)) : program.Goes find scope written context part later := by
  obtain ⟨parts?, middle, hsplit, htail⟩ := bind_eq_some_iff.mp hrun
  have hparts := splitRename_returns _ context parts? middle hsplit
  cases parts? with
  | none =>
    cases htail
    exact .barred (.inr (by simp [targetExpr?, ← hparts]))
  | some parts =>
    obtain rfl := splitRename_run hsplit
    obtain ⟨reached?, last, hpath, hlast⟩ := bind_eq_some_iff.mp htail
    cases reached? with
    | none =>
      cases hlast
      exact .lost (hexpr parts hparts.symm) hpath
    | some reached =>
      have hname := resolvePath_returns _ _ scope _ _ _ _ hpath _ rfl
      exact .reached (hexpr parts hparts.symm) hpath (hrest _ _ _ _ _ hparts.symm hname hlast)

section

variable (find : List Clause → Finder) (scope : ScopeId) (before : List Clause)

theorem useClauses_goes {access : Access} {site symbol : NodeId} {limitation : Limitation}
    {limitations : List NodeId} {context later : Context} {part : List Clause}
    (hrun : program.useClauses find scope access.isPrivate before site symbol limitation
      limitations context = some (part, later)) :
    program.Goes (find before) scope ⟨.use, access, site, symbol, limitation, limitations⟩ context
      part later := by
  rw [useClauses_eq] at hrun
  split at hrun
  · next hbraces =>
    obtain ⟨_, _, -, hrest⟩ := bind_eq_some_iff.mp hrun
    cases hrest
    exact .barred (.inl fun hadmitted => hadmitted hbraces)
  next hlimitation =>
  refine throughTarget_goes (fun parts hparts => by simp [targetExpr?, hparts])
    (fun expr newName target name middle hparts hname hrest => ?_) hrun
  cases limitation with
  | except | only =>
    obtain ⟨_, _, -, hrest⟩ := bind_eq_some_iff.mp hrest
    obtain ⟨names, _, hnames, hrest⟩ := bind_eq_some_iff.mp hrest
    obtain rfl := listedPairs_returns limitations _ names _ hnames
    cases hrest
    simp [made, hparts, hname]
  | unlimited =>
    cases hrest
    simp [made, hparts, hname]
  | braces => exact absurd rfl hlimitation

theorem importClauses_goes {access : Access} {site symbol : NodeId} {limitation : Limitation}
    {limitations : List NodeId} {context later : Context} {part : List Clause}
    (hrun : program.importClauses find scope access.isPrivate before site symbol limitation
      limitations context = some (part, later)) :
    program.Goes (find before) scope ⟨.imports, access, site, symbol, limitation, limitations⟩
      context part later := by
  rw [importClauses_eq] at hrun
  split at hrun
  · next hlimited =>
    obtain ⟨_, _, -, hrest⟩ := bind_eq_some_iff.mp hrun
    cases hrest
    exact .barred (.inl fun hadmitted => hadmitted hlimited)
  next hlimitation =>
  refine throughTarget_goes (fun parts hparts => by simp [targetExpr?, hparts])
    (fun expr newName target name middle hparts hname hrest => ?_) hrun
  cases limitation with
  | except => exact absurd (.inl rfl) hlimitation
  | only => exact absurd (.inr rfl) hlimitation
  | braces =>
    obtain ⟨_, _, -, hrest⟩ := bind_eq_some_iff.mp hrest
    obtain ⟨names, _, hnames, hrest⟩ := bind_eq_some_iff.mp hrest
    obtain rfl := listedPairs_returns limitations _ names _ hnames
    cases hrest
    simp [made, hparts]
  | unlimited =>
    rcases hfield : program.splitField .unlimited expr with ⟨path, field?⟩
    rw [hfield] at hrest hname
    cases field? with
    | some field =>
      obtain ⟨_, _, -, hrest⟩ := bind_eq_some_iff.mp hrest
      cases hrest
      simp [made, hparts, hfield]
    | none =>
      cases hrest
      simp [made, hparts, hfield, hname]

/-- What a clause of a `use` contributes is told by what is written. -/
theorem useClauses_returns (access : Access) (site symbol : NodeId) (limitation : Limitation)
    (limitations : List NodeId) :
    (program.useClauses find scope access.isPrivate before site symbol limitation
      limitations).Returns
      (program.Contributes ⟨.use, access, site, symbol, limitation, limitations⟩) :=
  fun _ _ _ hrun => (useClauses_goes find scope before hrun).contributes

theorem importClauses_returns (access : Access) (site symbol : NodeId) (limitation : Limitation)
    (limitations : List NodeId) :
    (program.importClauses find scope access.isPrivate before site symbol limitation
      limitations).Returns
      (program.Contributes ⟨.imports, access, site, symbol, limitation, limitations⟩) :=
  fun _ _ _ hrun => (importClauses_goes find scope before hrun).contributes

theorem addClause_returns (stmt : Statement) (access : Access) (site : NodeId) :
    (program.addClause find stmt scope access.isPrivate before site).Returns fun clauses =>
      ∃ added, program.MadeOf (program.tree.writtenClause? stmt access site).toList added ∧
        clauses = before ++ added := by
  unfold addClause Tree.writtenClause?
  cases program.tree.kind? site with
  | none => exact .pure ⟨[], .nil, (List.append_nil _).symm⟩
  | some kind =>
    cases kind with
    | clause symbol limitation limitations =>
      cases stmt with
      | use =>
        exact (useClauses_returns find scope before access site symbol limitation
          limitations).bind fun added hadded => .pure ⟨added, .single hadded, rfl⟩
      | imports =>
        exact (importClauses_returns find scope before access site symbol limitation
          limitations).bind fun added hadded => .pure ⟨added, .single hadded, rfl⟩
    | _ => exact .pure ⟨[], .nil, (List.append_nil _).symm⟩

theorem addStatement_returns (node : NodeId) :
    (program.addStatement find scope before node).Returns fun clauses =>
      ∃ added, program.MadeOf (program.tree.clausesOfStatement node) added ∧
        clauses = before ++ added := by
  have hall : ∀ stmt access, ((program.tree.children node).foldlM
      (program.addClause find stmt scope access.isPrivate) before).Returns fun clauses =>
        ∃ added, program.MadeOf
          ((program.tree.children node).filterMap (program.tree.writtenClause? stmt access)) added ∧
          clauses = before ++ added := by
    intro stmt access
    rw [List.filterMap_eq_flatMap_toList]
    exact foldlM_returns (fun before site => addClause_returns find scope before stmt access site)
      _ before
  unfold addStatement Tree.clausesOfStatement
  cases program.tree.kind? node with
  | none => exact .pure ⟨[], .nil, (List.append_nil _).symm⟩
  | some kind =>
    cases kind with
    | useStmt access => exact hall .use access
    | importStmt access => exact hall .imports access
    | _ => exact .pure ⟨[], .nil, (List.append_nil _).symm⟩

end

/-- The clauses of a scope are what its owner's statements contribute, one written clause
after another, however names are found. -/
theorem madeOf_of_resolveStatements {find : List Clause → Finder} {scope : ScopeId}
    {context later : Context} {clauses : List Clause}
    (hrun : program.resolveStatements find scope context = some (clauses, later)) {owner : NodeId}
    (howner : (context.scope scope).owner = some owner) :
    program.MadeOf (program.tree.writtenClauses owner) clauses := by
  unfold resolveStatements at hrun
  obtain ⟨_, _, hscope, hrest⟩ := bind_eq_some_iff.mp hrun
  cases hscope
  rw [howner] at hrest
  obtain ⟨added, hadded, rfl⟩ := foldlM_returns (addStatement_returns find scope) _ []
    context clauses later hrest
  exact hadded

end Program

end Scoping
