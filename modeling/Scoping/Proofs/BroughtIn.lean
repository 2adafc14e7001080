import Scoping.Proofs.Nearest
import Scoping.Proofs.Visibility.Ambiguity

/-!
The nearest declaration of a name that is brought in. The count that comes with the
nearest declaration is that of one set, the first one brought in. Overloads of one scope
share a set, and so are told from a single declaration; what two clauses bring in lies in
two sets, and the second of them is not counted.
-/

namespace Scoping

open Context Resolve

namespace InnermostMatch

/-- Whether a nearest declaration is the first one of a set, and is counted by that set. -/
structure Heads (result : InnermostMatch) (set : Overloads) : Prop where
  decl : result.decl? = some set.first
  /-- It counts as the only one if the set holds no other. -/
  unique : result.isUnique = true ↔ set.size = 1
  /-- It counts as one of many if the set does. -/
  ambiguous : result.isAmbiguous = true ↔ 1 < set.size

theorem isUnique_ofSets_cons (nearest : Overloads) (sets : List Overloads) :
    (ofSets (nearest :: sets)).isUnique = true ↔ nearest.size = 1 := by
  have hfound := found_ofSets (nearest :: sets)
  by_cases hone : nearest.size = 1 <;> simp [isUnique, hfound, hone]

theorem isAmbiguous_ofSets_cons (nearest : Overloads) (sets : List Overloads) :
    (ofSets (nearest :: sets)).isAmbiguous = true ↔ 1 < nearest.size := by
  have hfound := found_ofSets (nearest :: sets)
  have hsize : nearest.size = nearest.rest.length + 1 := rfl
  by_cases hone : nearest.size = 1
  · simp [isAmbiguous, hfound, hone]
  · simp only [isAmbiguous, hfound, if_neg hone, beq_self_eq_true, true_iff]
    omega

/-- What comes after the first set has no part in it. -/
theorem heads_ofSets_cons (nearest : Overloads) (sets : List Overloads) :
    (ofSets (nearest :: sets)).Heads nearest where
  decl := rfl
  unique := isUnique_ofSets_cons nearest sets
  ambiguous := isAmbiguous_ofSets_cons nearest sets

end InnermostMatch

namespace Program

variable {program : Program} {context : Context} {id : ScopeId} {name : Name}

/-- A lookup for the nearest declaration of a name that its scope does not declare finds
the first of the sets that are brought in. -/
theorem lookupNearest_of_brought (hundeclared : (context.scope id).declares name = false)
    {set : Overloads} {more : List Overloads} {last : Context}
    (hbrought : program.lookup { imports := true } none id name context =
      some (set :: more, last)) :
    ∃ later, program.lookupNearest id name context = some ([set], later) := by
  obtain ⟨⟨found, reached⟩, hsearch, hfound⟩ := map_eq_some_iff.mp hbrought
  obtain rfl : found = set :: more := hfound
  obtain ⟨entered, later, hfirst⟩ :=
    search_of_brought hundeclared { LookupConfig.allVisible with innermost := true } rfl rfl hsearch
  exact ⟨later, map_eq_some_iff.mpr ⟨_, hfirst, rfl⟩⟩

/-- In every context between questions, for a name that its scope does not declare, there
is an answer to what its clauses bring in and to what is nearest, the latter whether or
not it was asked before. If anything is brought in, the nearest declaration is the first
one of the first set. It counts as the only one if that set holds no other, and as one
of many if it does; what the sets after the first hold has no part in it. -/
theorem innermost_of_brought {tree : Tree} (hfinished : tree.Finished) (hgrounded : tree.Grounded)
    (htree : program.tree = tree) (hreachable : program.Reachable context) (hid : context.Has id)
    (hundeclared : (context.scope id).declares name = false) :
    ∃ brought result last later,
      program.lookup { imports := true } none id name context = some (brought, last) ∧
      program.innermost id name context = some (result, later) ∧
      ∀ first others, brought = first :: others → result.Heads first := by
  have hforest : program.tree.IsForest := htree ▸ hfinished.isForest hgrounded
  have hsettled := hreachable.settled hforest
  obtain ⟨brought, last, hbrought, -⟩ := lookup_ends hforest (serves_settled hforest) hsettled hid
    { imports := true } name
  cases brought with
  | nil =>
    obtain ⟨found, reached, hnearest, -⟩ := lookup_ends hforest (serves_settled hforest) hsettled
      hid { LookupConfig.allVisible with innermost := true } name
    obtain ⟨later, hinnermost⟩ := innermost_of_lookupNearest hforest hreachable hnearest
    exact ⟨[], _, last, later, hbrought, hinnermost, by rintro _ _ ⟨⟩⟩
  | cons set more =>
    obtain ⟨reached, hnearest⟩ := lookupNearest_of_brought hundeclared hbrought
    obtain ⟨later, hinnermost⟩ := innermost_of_lookupNearest hforest hreachable hnearest
    refine ⟨set :: more, _, last, later, hbrought, hinnermost, ?_⟩
    rintro _ _ ⟨⟩
    exact InnermostMatch.heads_ofSets_cons set []

/-- A module with two functions of one name and a module with a third, and two modules
that use both, in either order. -/
def overloadedUse : Program :=
  (Session.fresh (.ofSteps
    [.functionDecl "f" [] [], .functionDecl "f" [] [], .moduleDecl false "A" [⟨0⟩, ⟨1⟩],
      .functionDecl "f" [] [], .moduleDecl false "B" [⟨3⟩], .identifier "A",
      .clause ⟨5⟩ .unlimited [], .useStmt .unstated [⟨6⟩], .identifier "B",
      .clause ⟨8⟩ .unlimited [], .useStmt .unstated [⟨9⟩], .moduleDecl false "S" [⟨7⟩, ⟨10⟩],
      .identifier "B", .clause ⟨12⟩ .unlimited [], .useStmt .unstated [⟨13⟩], .identifier "A",
      .clause ⟨15⟩ .unlimited [], .useStmt .unstated [⟨16⟩],
      .moduleDecl false "T" [⟨14⟩, ⟨17⟩]]) {}).program

/-- The name of the three functions. -/
def overloadedUseName : Name := (overloadedUse.tree.declName? ⟨0⟩).getD .this

/-- What is known once the two users are asked for. -/
def overloadedUseAsked : Context :=
  (overloadedUse.askAll [.scopeOf ⟨11⟩, .scopeOf ⟨18⟩] .empty).getD .empty

/-- What a scope of the program brings in under the name. -/
def overloadedUseBrought (id : ScopeId) : Option (List Overloads) :=
  (overloadedUse.lookup { imports := true } none id overloadedUseName overloadedUseAsked).map
    Prod.fst

/-- What is nearest under the name in a scope of the program. -/
def overloadedUseNearest (id : ScopeId) : Option InnermostMatch :=
  (overloadedUse.innermost id overloadedUseName overloadedUseAsked).map Prod.fst

theorem overloadedUse_finished : overloadedUse.tree.Finished :=
  Tree.finished_ofSteps (by decide +kernel)

theorem overloadedUse_known :
    overloadedUse.tree.Grounded ∧
      overloadedUse.askAll [.scopeOf ⟨11⟩, .scopeOf ⟨18⟩] .empty = some overloadedUseAsked ∧
      (∀ id ∈ [(⟨1⟩ : ScopeId), ⟨2⟩], overloadedUseAsked.Has id ∧
        (overloadedUseAsked.scope id).declares overloadedUseName = false) ∧
      overloadedUseBrought ⟨1⟩ = some [⟨.node ⟨0⟩, [.node ⟨1⟩]⟩, .single (.node ⟨3⟩)] ∧
      overloadedUseBrought ⟨2⟩ = some [.single (.node ⟨3⟩), ⟨.node ⟨0⟩, [.node ⟨1⟩]⟩] ∧
      overloadedUseNearest ⟨2⟩ = some ⟨some (.node ⟨3⟩), .one⟩ := by
  decide +kernel

/-- For the first user the overloads come first, and the nearest is one of many. -/
theorem overloadedUse_innermost_of_brought :
    overloadedUseBrought ⟨1⟩ = some [⟨.node ⟨0⟩, [.node ⟨1⟩]⟩, .single (.node ⟨3⟩)] ∧
    ∃ result later, overloadedUse.innermost ⟨1⟩ overloadedUseName overloadedUseAsked =
      some (result, later) ∧ result.decl? = some (.node ⟨0⟩) ∧ result.isAmbiguous = true := by
  obtain ⟨hgrounded, hasked, husers, hbrought, -, -⟩ := overloadedUse_known
  obtain ⟨hid, hundeclared⟩ := husers ⟨1⟩ (.head _)
  obtain ⟨brought, result, last, later, hlookup, hinnermost, hheads⟩ :=
    innermost_of_brought overloadedUse_finished hgrounded rfl (.askAll .refl hasked) hid hundeclared
  obtain ⟨rfl⟩ : some brought = _ := (congrArg (Option.map Prod.fst) hlookup).symm.trans hbrought
  obtain ⟨hdecl, -, hmany⟩ := hheads _ _ rfl
  exact ⟨hbrought, result, later, hinnermost, hdecl, hmany.mpr (by decide)⟩

/-- For the second user the other module comes first: three functions are brought in, and
the nearest passes for the only one. -/
theorem overloadedUse_not_ambiguous :
    overloadedUse.tree.Finished ∧ overloadedUse.tree.Grounded ∧
      overloadedUse.Reachable overloadedUseAsked ∧ overloadedUseAsked.Has ⟨2⟩ ∧
      (overloadedUseAsked.scope ⟨2⟩).declares overloadedUseName = false ∧
      overloadedUseBrought ⟨2⟩ = some [.single (.node ⟨3⟩), ⟨.node ⟨0⟩, [.node ⟨1⟩]⟩] ∧
      overloadedUseNearest ⟨2⟩ = some ⟨some (.node ⟨3⟩), .one⟩ := by
  obtain ⟨hgrounded, hasked, husers, -, hbrought, hnearest⟩ := overloadedUse_known
  obtain ⟨hid, hundeclared⟩ := husers ⟨2⟩ (.tail _ (.head _))
  exact ⟨overloadedUse_finished, hgrounded, .askAll .refl hasked, hid, hundeclared, hbrought,
    hnearest⟩

end Program

end Scoping
