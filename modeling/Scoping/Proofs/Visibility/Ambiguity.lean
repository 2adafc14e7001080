import Scoping.Proofs.Context.Yields
import Scoping.Proofs.Lookup.Innermost
import Scoping.Proofs.Request

/-!
What the head of a path stands for when several clauses bring its name in. The search
for a head stops at the first match, so the clauses after the first that brings the name
in are never asked. A head is ambiguous only when one scope declares the name more than
once; that another clause brings in something else goes unnoticed.
-/

namespace Scoping

open Context Resolve

namespace Program

variable {program : Program} {view : ClauseView} {context : Context} {id : ScopeId} {name : Name}

/-- A level that does not declare the name yields what is brought into it. -/
theorem searchLevel_of_undeclared (hundeclared : (context.scope id).declares name = false)
    (innermost : Bool) (fuel : Nat) (decls imports : Bool) (entered : List ScopeId) :
    program.searchLevel view innermost fuel decls imports id name entered context =
      program.searchLevel view innermost fuel false imports id name entered context := by
  cases decls with
  | false => rfl
  | true =>
    cases fuel with
    | zero => rfl
    | succ fuel =>
      have hnone : (context.scope id).lookup name = [] := by
        simpa [Scope.declares, Assoc.contains, Scope.lookup] using hundeclared
      have hrun : Search.gate true (Search.declarations id name) entered context =
          some (((context.scope id).lookup name, entered), context) := rfl
      rw [hnone] at hrun
      rw [searchLevel, searchLevel, Search.collect, Search.collect, Search.run_bind hrun]
      rfl

/-- Of all that clauses bring in for a name that its scope does not declare, a search that
asks for it and stops at the first match finds the first set. -/
theorem search_of_brought (hundeclared : (context.scope id).declares name = false)
    (config : LookupConfig) (himports : config.imports = true) (hinnermost : config.innermost = true)
    {set : Overloads} {more : List Overloads} {reached : List ScopeId} {last : Context}
    (hbrought : program.search view { imports := true } id name [] context =
      some ((set :: more, reached), last)) :
    ∃ entered middle,
      program.search view config id name [] context = some (([set], entered), middle) := by
  obtain ⟨entered, middle, hfirst⟩ := search_stops { imports := true } id name [] context
    (set :: more) reached last hbrought
  refine ⟨entered, middle, ?_⟩
  unfold search at hfirst ⊢
  have hget : (getThe Context : Search Context) [id] context = some ((context, [id]), context) := rfl
  rw [Search.enter_run, if_neg List.not_mem_nil, Search.run_bind hget] at hfirst ⊢
  -- there is no other axis in the one search, so its find is that of the level
  obtain ⟨found, further, later, hlevel, hrest⟩ := Search.bind_run_eq_some_iff.mp hfirst
  have hfound : found = [set] ∧ further = entered ∧ later = middle := by
    cases found with
    | nil => cases hrest
    | cons first others =>
      cases hrest
      exact ⟨rfl, rfl, rfl⟩
  obtain ⟨rfl, rfl, rfl⟩ := hfound
  refine Search.bind_run_eq_some_iff.mpr ⟨[set], further, later, ?_, ?_⟩
  · rw [himports, hinnermost, searchLevel_of_undeclared hundeclared]
    exact hlevel
  · rw [hinnermost]
    rfl

/-- So does the search for the head of a path. -/
theorem search_headConfig (hundeclared : (context.scope id).declares name = false)
    {set : Overloads} {more : List Overloads} {reached : List ScopeId} {last : Context}
    (hbrought : program.search view { imports := true } id name [] context =
      some ((set :: more, reached), last)) (stmt : Statement) :
    ∃ entered middle,
      program.search view stmt.headConfig id name [] context = some (([set], entered), middle) :=
  search_of_brought hundeclared stmt.headConfig (by cases stmt <;> rfl) (by cases stmt <;> rfl)
    hbrought

/-- What a segment stands for when one set is found. -/
theorem resolveSegment_of_found (program : Program) {find : Finder} {config : LookupConfig}
    {set : Overloads} {middle : Context} (stmt : Statement) (site : NodeId)
    (hfind : find config id name context = some ([set], middle)) :
    (1 < set.size → program.resolveSegment find stmt config id name site context =
      (do Resolve.report (.ambiguousTarget site stmt); return none) middle) ∧
    (∀ decl, set = .single decl → program.isTarget stmt decl = false →
      program.resolveSegment find stmt config id name site context =
        (do Resolve.report (.notAModule site); return none) middle) ∧
    ∀ node, set = .single (.node node) → program.isTarget stmt (.node node) = true →
      program.resolveSegment find stmt config id name site context =
        (some <$> program.scopeOf node) middle := by
  unfold resolveSegment
  rw [Resolve.run_bind hfind]
  refine ⟨fun hsize => ?_, ?_, ?_⟩
  · obtain ⟨decl, rest⟩ := set
    cases rest with
    | nil => exact absurd hsize (Nat.lt_irrefl 1)
    | cons other rest => rfl
  · rintro decl rfl htarget
    simp only [Overloads.single, htarget]
    cases decl.node? <;> rfl
  · rintro node rfl htarget
    simp only [Overloads.single, htarget, Decl.node?]

/-- A path that begins with an ordinary name, in terms of its first segment. -/
theorem resolvePath_eq {find : Finder} {stmt : Statement} {expr : NodeId}
    (hname : program.tree.identifier? (program.tree.path expr).head = some name)
    (hordinary : name ≠ .this ∧ name ≠ .super) :
    program.resolvePath find stmt id expr = (do
      match ← program.resolveSegment find stmt stmt.headConfig id name
          (program.tree.path expr).head with
      | some target =>
        program.resolveFields find stmt (target, name) (program.tree.path expr).fields
      | none => return none) := by
  unfold resolvePath resolveHead
  dsimp only
  rw [hname]
  dsimp only
  rw [if_neg (not_or.mpr hordinary), bind_assoc]
  refine bind_congr fun target? => ?_
  cases target? <;> rfl

/-- A path whose head is brought in stands for what is found first of all that is
brought in, or for nothing if that is several declarations. What is found after it may be
another module: it is neither reported nor told from the first. -/
theorem resolvePath_of_brought {inner : ScopeId → Resolve (Option (List Clause))}
    {before : List Clause} {stmt : Statement} {expr : NodeId}
    (hname : program.tree.identifier? (program.tree.path expr).head = some name)
    (hordinary : name ≠ .this ∧ name ≠ .super)
    (hundeclared : (context.scope id).declares name = false)
    {set : Overloads} {more : List Overloads} {last : Context}
    (hbrought : program.findWithin inner id before { imports := true } id name context =
      some (set :: more, last)) :
    ∃ middle, program.findWithin inner id before stmt.headConfig id name context =
        some ([set], middle) ∧
      (1 < set.size →
        program.resolvePath (program.findWithin inner id before) stmt id expr context =
          (do Resolve.report (.ambiguousTarget (program.tree.path expr).head stmt)
              return none) middle) ∧
      (∀ decl, set = .single decl → program.isTarget stmt decl = false →
        program.resolvePath (program.findWithin inner id before) stmt id expr context =
          (do Resolve.report (.notAModule (program.tree.path expr).head)
              return none) middle) ∧
      ∀ node, set = .single (.node node) → program.isTarget stmt (.node node) = true →
        program.resolvePath (program.findWithin inner id before) stmt id expr context =
          (do let target ← program.scopeOf node
              program.resolveFields (program.findWithin inner id before) stmt (target, name)
                (program.tree.path expr).fields) middle := by
  obtain ⟨⟨found, reached⟩, hsearch, hfound⟩ := Resolve.map_eq_some_iff.mp hbrought
  obtain rfl : found = set :: more := hfound
  obtain ⟨entered, middle, hhead⟩ := search_headConfig hundeclared hsearch stmt
  have hfind : program.findWithin inner id before stmt.headConfig id name context =
      some ([set], middle) := Resolve.map_eq_some_iff.mpr ⟨_, hhead, rfl⟩
  obtain ⟨hseveral, hother, htarget⟩ := resolveSegment_of_found program stmt
    (program.tree.path expr).head hfind
  rw [resolvePath_eq hname hordinary]
  refine ⟨middle, hfind, fun hsize => ?_, fun decl hset hnone => ?_, fun node hset hsome => ?_⟩
  · rw [Resolve.bind_run_congr (hseveral hsize)]
    rfl
  · rw [Resolve.bind_run_congr (hother decl hset hnone)]
    rfl
  · rw [Resolve.bind_run_congr (htarget node hset hsome), bind_map_left]

/-- Two modules that each hold a module of the same name, and a module that uses both and
then that name. -/
def twoBringers : Program :=
  (Session.fresh (.ofSteps
    [.moduleDecl false "N" [], .moduleDecl false "A" [⟨0⟩], .moduleDecl false "N" [],
      .moduleDecl false "B" [⟨2⟩], .identifier "A", .clause ⟨4⟩ .unlimited [],
      .useStmt .unstated [⟨5⟩], .identifier "B", .clause ⟨7⟩ .unlimited [],
      .useStmt .unstated [⟨8⟩], .identifier "N", .clause ⟨10⟩ .unlimited [],
      .useStmt .unstated [⟨11⟩], .moduleDecl false "S" [⟨6⟩, ⟨9⟩, ⟨12⟩]]) {}).program

/-- The name of the two inner modules. -/
def twoBringersName : Name := (twoBringers.tree.declName? ⟨0⟩).getD .this

/-- What is known once the clauses of the last module are asked for. -/
def twoBringersAsked : Context :=
  (twoBringers.askAll [.scopeOf ⟨13⟩, .visibility ⟨1⟩] .empty).getD .empty

/-- The clauses that come from the first two statements. -/
def twoBringersBefore : List Clause := (twoBringersAsked.clausesAt ⟨1⟩).take 4

/-- What the two statements bring in under the name. -/
def twoBringersFound : Option (List Overloads × Context) :=
  twoBringers.findWithin twoBringers.visibility ⟨1⟩ twoBringersBefore { imports := true } ⟨1⟩
    twoBringersName twoBringersAsked

theorem twoBringers_found :
    twoBringersFound.map Prod.fst = some [.single (.node ⟨0⟩), .single (.node ⟨2⟩)] := by
  decide +kernel

/-- The first of the two modules is the one that the name is resolved to. -/
theorem twoBringers_resolves :
    ∃ middle, twoBringers.resolvePath
        (twoBringers.findWithin twoBringers.visibility ⟨1⟩ twoBringersBefore) .use ⟨1⟩ ⟨10⟩
        twoBringersAsked =
      (do let target ← twoBringers.scopeOf ⟨0⟩
          twoBringers.resolveFields
            (twoBringers.findWithin twoBringers.visibility ⟨1⟩ twoBringersBefore) .use
            (target, twoBringersName) []) middle := by
  obtain ⟨⟨found, last⟩, hrun, hfound⟩ := Option.map_eq_some_iff.mp twoBringers_found
  obtain rfl : found = _ := hfound
  have hpath : twoBringers.tree.path ⟨10⟩ = ⟨⟨10⟩, []⟩ := by decide +kernel
  obtain ⟨middle, -, -, -, htarget⟩ := @resolvePath_of_brought twoBringers _ _ _ _ _ .use ⟨10⟩
    (by decide +kernel) (by decide +kernel) (by decide +kernel) _ _ _ hrun
  have hresolves := htarget ⟨0⟩ rfl (by decide +kernel)
  rw [hpath] at hresolves
  exact ⟨middle, hresolves⟩

/-- The two statements bring in two modules under one name, and the statement that uses
the name is resolved to the first of them; nothing is reported. -/
theorem twoBringers_not_ambiguous :
    twoBringers.tree.Finished ∧ twoBringers.Reachable twoBringersAsked ∧
      (twoBringersAsked.scope ⟨1⟩).declares twoBringersName = false ∧
      twoBringersFound.map Prod.fst = some [.single (.node ⟨0⟩), .single (.node ⟨2⟩)] ∧
      twoBringersAsked.clausesAt ⟨1⟩ = twoBringersBefore ++
        [⟨⟨4⟩, .symbolOnly, true, [(twoBringersName, twoBringersName)]⟩,
          ⟨⟨4⟩, .allContents, true, []⟩] ∧
      (twoBringersAsked.scope ⟨4⟩).owner = some ⟨0⟩ ∧
      twoBringersAsked.diagnostics.reported = [] := by
  refine ⟨Tree.finished_ofSteps (by decide +kernel), Reaches.askAll .refl
    (show twoBringers.askAll [.scopeOf ⟨13⟩, .visibility ⟨1⟩] .empty = some twoBringersAsked by
      decide +kernel), ?_⟩
  decide +kernel

end Program

end Scoping
