import Scoping.Instantiation
import Scoping.Lookup
import Scoping.Proofs.Relabeling.Visibility
import Scoping.Proofs.Visibility.Climbing

/-!
Lookups, climbs and points of instantiation under a relabeling. What a query works out
about a program it works out about the relabeled program, link by link and handle by
handle; only the declarations of built-in types are spelled by another name.
-/

namespace Scoping

open Context Resolve

variable {ρ : Relabeling}

namespace Relabeling

variable (ρ) (context : Context)

@[simp]
theorem poi_context (link : PoiId) : (ρ.context context).poi link = context.poi link := rfl

@[simp]
theorem builtPois_context : (ρ.context context).builtPois = context.builtPois := rfl

@[simp]
theorem poiOf_context : (ρ.context context).poiOf = context.poiOf := rfl

theorem answering_context (scope : ScopeId) (name : Name) (result : InnermostMatch) :
    ρ.context { context with innermost := context.innermost.finish (scope, name) result } =
      { ρ.context context with
        innermost := (ρ.context context).innermost.finish (scope, ρ.name name)
          (ρ.innermost result) } := by
  have hinjective : Function.Injective (Prod.map id ρ.name : ScopeId × Name → ScopeId × Name) :=
    Function.injective_id.prodMap ρ.injective
  have hfinish := Memo.bimap_finish hinjective ρ.innermost context.innermost
    (scope, name) result
  simp only [Relabeling.context, hfinish]
  rfl

theorem innermost_context (scope : ScopeId) (name : Name) :
    (ρ.context context).innermost.get? (scope, ρ.name name) =
      (context.innermost.get? (scope, name)).map ρ.innermost :=
  Memo.get?_bimap (Function.injective_id.prodMap ρ.injective) ρ.innermost context.innermost
    (scope, name)

theorem candidateScope?_context (id : ScopeId) :
    Program.candidateScope? (ρ.context context) id = Program.candidateScope? context id := by
  rw [Program.candidateScope?, Program.candidateScope?, ρ.outward_context]
  exact congrArg (List.find? · (context.outward id)) (funext fun id => by rw [ρ.scope_context]; rfl)

end Relabeling

namespace Program

variable {program program' : Program} (hrelabeled : program.Relabeled ρ program')
include hrelabeled

theorem climbTo_relabels (goal : ScopeId) (fuel : Nat) (start : ScopeId) :
    Search.Relabels ρ id (program.climbTo goal fuel start) (program'.climbTo goal fuel start) := by
  induction fuel generalizing start with
  | zero => exact fun _ => .failure
  | succ fuel ih =>
    have htry : ∀ id, Search.Relabels ρ (fun answer => answer) (program.tryScope goal fuel id)
        (program'.tryScope goal fuel id) := by
      intro id entered
      rw [tryScope_run, tryScope_run]
      split
      · exact .pure rfl
      refine (clausesOf_relabels hrelabeled id).bind fun clauses => ?_
      rw [List.filter_map]
      have hclimb : ∀ clause : Clause, Search.Relabels ρ (fun answer => answer)
          (program.climbTo goal fuel clause.target)
          (program'.climbTo goal fuel (ρ.clause clause).target) := fun clause => ih clause.target
      exact Search.Relabels.anyM hclimb _ entered
    intro entered
    rw [climbTo_run, climbTo_run]
    split
    · exact .pure rfl
    refine .get_bind fun context => ?_
    rw [ρ.outward_context]
    have htrying := Search.Relabels.anyM htry (context.outward start) (start :: entered)
    rwa [List.map_id'] at htrying

theorem seesWhole_relabels (goal start : ScopeId) :
    Relabels ρ id (program.seesWhole goal start) (program'.seesWhole goal start) := by
  rw [seesWhole, seesWhole, hrelabeled.depth]
  exact (climbTo_relabels hrelabeled goal program.depth start []).map fun _ => rfl

theorem lookupSharing_relabels (config : LookupConfig) (receiver : Option ScopeId)
    (scope : ScopeId) (name : Name) :
    Search.Relabels ρ ρ.sets (program.lookupSharing config receiver scope name)
      (program'.lookupSharing config receiver scope (ρ.name name)) := by
  have hsearch := fun start =>
    search_relabels hrelabeled (clausesOf_relabels hrelabeled) config start name
  cases receiver with
  | none => exact hsearch scope
  | some receiver =>
    exact (hsearch receiver).bind fun found => (hsearch scope).bind fun more =>
      .pure List.map_append.symm

theorem lookup_relabels (config : LookupConfig) (receiver : Option ScopeId) (scope : ScopeId)
    (name : Name) :
    Relabels ρ ρ.sets (program.lookup config receiver scope name)
      (program'.lookup config receiver scope (ρ.name name)) :=
  (lookupSharing_relabels hrelabeled config receiver scope name []).map fun _ => rfl

theorem innermost_relabels (scope : ScopeId) (name : Name) :
    Relabels ρ ρ.innermost (program.innermost scope name)
      (program'.innermost scope (ρ.name name)) := by
  refine .get_bind fun context => ?_
  rw [ρ.innermost_context]
  cases context.innermost.get? (scope, name) with
  | some known => exact .pure rfl
  | none =>
    refine (lookup_relabels hrelabeled _ none scope name).bind fun sets => ?_
    rw [← ρ.innermost_ofSets]
    exact .record (fun context => (ρ.answering_context context scope name _).symm) rfl

theorem dropVisible_relabels (scope : ScopeId) (chain : List PoiId) :
    Relabels ρ id (program.dropVisible scope chain) (program'.dropVisible scope chain) := by
  induction chain with
  | nil => exact .pure rfl
  | cons link rest ih =>
    refine .get_bind fun context => ?_
    rw [ρ.poi_context]
    cases (context.poi link).site with
    | none => exact .pure rfl
    | some site =>
      refine (seesWhole_relabels hrelabeled site scope).bind fun seen => ?_
      cases seen with
      | true => exact ih
      | false => exact .pure rfl

omit hrelabeled in
theorem buildPoi_relabels (site : Option ScopeId) (behind : List PoiId) :
    Relabels ρ id (buildPoi site behind) (buildPoi site behind) := by
  refine .get_bind fun context => ?_
  rw [ρ.builtPois_context]
  cases context.builtPois.get? (site, behind.head?) with
  | some link => exact .pure rfl
  | none =>
    have hadd : Relabels ρ id (Resolve.addPoi ⟨site, behind⟩) (Resolve.addPoi ⟨site, behind⟩) :=
      fun _ => rfl
    exact hadd.bind fun link => .record (fun _ => rfl) rfl

theorem instantiationPoint_relabels (scope : ScopeId) (outer : Option PoiId) :
    Relabels ρ id (program.instantiationPoint scope outer)
      (program'.instantiationPoint scope outer) := by
  refine .get_bind fun context => ?_
  rw [ρ.poiOf_context]
  cases context.poiOf.get? (scope, outer) with
  | some link => exact .pure rfl
  | none =>
    refine (dropVisible_relabels hrelabeled scope _).bind fun behind => ?_
    rw [ρ.candidateScope?_context]
    exact (buildPoi_relabels _ _).bind fun link => .record (fun _ => rfl) rfl

end Program

end Scoping
