import Scoping.Proofs.Lookup.Keeping
import Scoping.Proofs.Request

/-!
What questions do to a context, in terms of what building scopes and asking for clauses
does. The tables of instantiation points and nearest declarations are the only others
that a question writes to.
-/

namespace Scoping

open Context Resolve

/-- What has to be shown of a relation between contexts that questions keep to. -/
structure Program.Admits (program : Program) (changes : Context → Context → Prop) : Prop where
  rootScope : Keeps changes program.rootScope
  scopeOf : ∀ id, Keeps changes (program.scopeOf id)
  autoScope : Keeps changes program.autoScope
  visibility : ∀ id, Keeps changes (program.visibility id)
  /-- The tables that resolution does not read are of no account. -/
  others : ∀ context later : Context, later.scopes = context.scopes →
    later.scopeOf = context.scopeOf → later.built = context.built →
    later.visibility = context.visibility → later.diagnostics = context.diagnostics →
    changes context later

namespace Program.Admits

variable {program : Program} {changes : Context → Context → Prop} [IsPreorder Context changes]
variable (hadmits : program.Admits changes)
include hadmits

theorem clausesOf (id : ScopeId) : Keeps changes (program.clausesOf id) :=
  (hadmits.visibility id).bind fun _ => .pure _

theorem lookupSharing (config : LookupConfig) (receiver : Option ScopeId) (scope : ScopeId)
    (name : Name) : (program.lookupSharing config receiver scope name).Keeps changes := by
  have hsearch := fun start => search_keeps hadmits.autoScope hadmits.clausesOf config start name
  cases receiver with
  | none => exact hsearch scope
  | some receiver =>
    refine (hsearch receiver).bind fun found => ?_
    exact (hsearch scope).bind fun more => Search.keeps_pure (found ++ more)

theorem innermost (scope : ScopeId) (name : Name) :
    Keeps changes (program.innermost scope name) := by
  unfold Program.innermost
  refine .get_bind fun context => ?_
  split
  · exact .pure _
  refine Keeps.bind ((hadmits.lookupSharing _ none scope name []).map) fun found => ?_
  refine Keeps.bind (.modify fun context => ?_) fun _ => .pure _
  exact hadmits.others _ _ rfl rfl rfl rfl rfl

theorem climbTo (goal : ScopeId) (fuel : Nat) (start : ScopeId) :
    (program.climbTo goal fuel start).Keeps changes := by
  induction fuel generalizing start with
  | zero => exact fun _ _ => nofun
  | succ fuel ih =>
    intro entered
    rw [climbTo_run]
    split
    · exact .pure _
    refine .get_bind fun context => Search.anyM_keeps (fun id => ?_) _ (start :: entered)
    unfold tryScope
    split
    · exact Search.keeps_pure true
    · exact .lift_bind (hadmits.clausesOf id) fun clauses =>
        Search.anyM_keeps (fun clause : Clause => ih clause.target) _

theorem seesWhole (goal start : ScopeId) : Keeps changes (program.seesWhole goal start) :=
  (hadmits.climbTo goal program.depth start []).map

theorem dropVisible (scope : ScopeId) (links : List PoiId) :
    Keeps changes (program.dropVisible scope links) := by
  induction links with
  | nil => exact .pure _
  | cons link rest ih =>
    rw [Program.dropVisible]
    refine .get_bind fun context => ?_
    split
    · exact .pure _
    · refine (hadmits.seesWhole _ scope).bind fun seen => ?_
      split
      · exact ih
      · exact .pure _

theorem buildPoi (site : Option ScopeId) (behind : List PoiId) :
    Keeps changes (buildPoi site behind) := by
  unfold Program.buildPoi
  refine .get_bind fun context => ?_
  split
  · exact .pure _
  intro context link later hrun
  cases hrun
  exact hadmits.others _ _ rfl rfl rfl rfl rfl

theorem instantiationPoint (scope : ScopeId) (outer : Option PoiId) :
    Keeps changes (program.instantiationPoint scope outer) := by
  unfold Program.instantiationPoint
  refine .get_bind fun context => ?_
  split
  · exact .pure _
  refine (hadmits.dropVisible scope _).bind fun behind => ?_
  refine (hadmits.buildPoi _ behind).bind fun link => ?_
  refine Keeps.bind (.modify fun context => ?_) fun _ => .pure _
  exact hadmits.others _ _ rfl rfl rfl rfl rfl

/-- Every question keeps to the relation, valid or not. -/
theorem respond (request : Request) : Keeps changes (program.respond request) := by
  cases request with
  | rootScope => exact hadmits.rootScope.map
  | scopeOf node => exact (hadmits.scopeOf node).map
  | moduleOf id => exact .get_bind fun context => .pure _
  | visibility id => exact (hadmits.visibility id).map
  | lookup config receiver id name entered =>
    exact (hadmits.lookupSharing config receiver id name entered).bind fun result => .pure _
  | innermost id name => exact (hadmits.innermost id name).map
  | seesWhole goal start => exact (hadmits.seesWhole goal start).map
  | instantiation id outer => exact (hadmits.instantiationPoint id outer).map

/-- So does every sequence of questions. -/
theorem reaches {context later : Context} (hreaches : program.Reaches context later) :
    changes context later := by
  induction hreaches with
  | refl => exact refl_of changes context
  | asked _ _ hresponse ih =>
    exact trans_of changes ih (hadmits.respond _ _ _ _ hresponse)

end Program.Admits

end Scoping
