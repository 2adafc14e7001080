import Mathlib.Data.List.TakeWhile
import Scoping.Instantiation
import Scoping.Proofs.Gathering
import Scoping.Proofs.Lookup.Reading

/-!
The scope that stands in for a call site. Scopes without functions and without statements
are passed over on the way out from the site; where none of them sees the automatic
module, every function that is found from the site is found from the scope that is taken.
-/

namespace Scoping

open Context

namespace Program

/-- The scopes that are passed over on the way to the scope that offers candidates. -/
def passedOver (context : Context) (scope : ScopeId) : List ScopeId :=
  (context.outward scope).takeWhile fun id => !(context.scope id).offersCandidates

/-- Whether the automatic module is out of sight of the scopes that are passed over. -/
def Secluded (program : Program) (context : Context) (scope : ScopeId) : Prop :=
  ∀ id ∈ passedOver context scope, (context.scope id).autoUses = true →
    program.tree.toplevel? program.autoModule = none

theorem outward_of_candidateScope? {context : Context} {scope taken : ScopeId}
    (htaken : candidateScope? context scope = some taken) :
    ∃ after, context.outward scope = passedOver context scope ++ taken :: after := by
  obtain ⟨hoffers, before, after, houtward, hbefore⟩ := List.find?_eq_some_iff_append.mp htaken
  refine ⟨after, ?_⟩
  rw [passedOver, houtward, List.takeWhile_append_of_pos hbefore,
    List.takeWhile_cons_of_neg (by simp [hoffers]), List.append_nil]

theorem passedOver_of_candidateScope? {context : Context} {scope : ScopeId}
    (hnone : candidateScope? context scope = none) :
    passedOver context scope = context.outward scope :=
  List.takeWhile_eq_self_iff.mpr fun id hid => by
    simpa using List.find?_eq_none.mp hnone id hid

end Program

namespace Context.Sound

variable {program : Program} {context : Context} (hsound : context.Sound program)
include hsound

/-- A scope that offers no candidates and does not see the automatic module is of no
account where functions are looked for. -/
theorem barren_of_offersCandidates {id : ScopeId} (hid : context.Has id)
    (hoffers : (context.scope id).offersCandidates = false)
    (hauto : (context.scope id).autoUses = true → program.tree.toplevel? program.autoModule = none) :
    (program.atRest context).Barren program.tree.OffersFunction id := by
  obtain ⟨himports, hfunctions⟩ := Bool.or_eq_false_iff.mp hoffers
  constructor
  · intro name overloads hdeclared hfunction
    rw [hsound.hasFunctions_of_declared hid hdeclared hfunction] at hfunctions
    cases hfunctions
  · intro name
    refine List.eq_nil_iff_forall_not_mem.mpr fun source hsource => ?_
    rcases World.brings_or_auto_of_mem_imports _ hsource with hbrings | hmem
    · have hnone : (program.atRest context).clauses id = [] := hsound.clausesAt_of_hasImports himports
      rw [hnone] at hbrings
      cases hbrings with
      | contents hclause | symbol hclause => cases hclause
    · obtain ⟨auto, huses, hfound, -⟩ := (program.atRest context).mem_autoSources_iff.mp hmem
      obtain ⟨node, -, htop, -⟩ := (Program.world_auto_iff hsound).mp hfound
      rw [hauto huses] at htop
      cases htop

/-- The root scope is of no account either. -/
theorem barren_of_ownedBy_none {id : ScopeId} (howned : context.OwnedBy id none) :
    (program.atRest context).Barren program.tree.OffersFunction id := by
  have hscope := hsound.scope_of_ownedBy_none howned
  refine hsound.barren_of_offersCandidates howned.1 (by rw [hscope]; rfl) fun huses => ?_
  rw [hscope] at huses
  cases huses

end Context.Sound

/-- Going out, up to the first module, through scopes of no account. -/
theorem World.below_upToModule {world : World} {counts : Overloads → Prop} {context : Context}
    {name : Name} {before after : List ScopeId} {outer : ScopeId}
    (hbefore : ∀ id ∈ before, world.Barren counts id) :
    world.Below counts
      ((context.upToModule (before ++ outer :: after)).map fun id => .scope true true id name)
      ((outer :: context.upToModule after).map fun id => .scope true true id name) := by
  induction before with
  | nil =>
    rw [List.nil_append, upToModule]
    split
    · exact .cons _ (.nil _)
    · exact .of_isPrefix List.prefix_rfl
  | cons id before ih =>
    obtain ⟨hid, hrest⟩ := List.forall_mem_cons.mp hbefore
    rw [List.cons_append, upToModule]
    split
    · exact .left hid (.nil _)
    · exact .left hid (ih hrest)

namespace Context.Sound

variable {program : Program} {context : Context} (hsound : context.Sound program)
include hsound

/-- Every function that is found from a secluded call site is found from the scope that
stands in for it. -/
theorem mem_of_secluded {scope : ScopeId} (hscope : context.Has scope)
    (hsecluded : program.Secluded context scope) {name : Name} {found : List Overloads}
    (hlooks : context.Looks program scope name found) {overloads : Overloads}
    (hfound : overloads ∈ found) (hfunction : program.tree.OffersFunction overloads) :
    ∃ taken, Program.candidateScope? context scope = some taken ∧
      ∀ found', context.Looks program taken name found' → overloads ∈ found' := by
  obtain ⟨entered, hwalk⟩ := hlooks
  have hpassed : ∀ id ∈ Program.passedOver context scope,
      (program.atRest context).Barren program.tree.OffersFunction id := fun id hid => by
    have hoffers := List.mem_takeWhile_imp hid
    exact hsound.barren_of_offersCandidates
      (hsound.has_of_outward hscope ((List.takeWhile_prefix _).subset hid)) (by simpa using hoffers)
      (hsecluded id hid)
  cases htaken : Program.candidateScope? context scope with
  | none =>
    have hidle : ∀ source ∈ (scope :: context.climb scope).map fun id => .scope true true id name,
        (program.atRest context).Idle program.tree.OffersFunction source := by
      refine List.forall_mem_map.mpr fun id hid => hpassed id ?_
      rw [Program.passedOver_of_candidateScope? htaken]
      rcases List.mem_cons.mp hid with rfl | hmore
      · exact List.mem_cons_self
      · exact List.mem_cons_of_mem _ (mem_enclosing_of_mem_climb hmore)
    have hbelow := World.Below.append_left (.nil []) hidle
    rw [List.append_nil] at hbelow
    cases hwalk.mem_of_below rfl (.refl [] []) hbelow (.refl []) hfunction hfound
  | some taken =>
    refine ⟨taken, rfl, ?_⟩
    rintro found' ⟨entered', hwalk'⟩
    refine hwalk.mem_of_below rfl hwalk' ?_ (.refl []) hfunction hfound
    obtain ⟨after, houtward⟩ := Program.outward_of_candidateScope? htaken
    have houter := hsound.outward_of_append hscope houtward
    cases hbefore : Program.passedOver context scope with
    | nil =>
      rw [hbefore] at houtward
      obtain rfl := (List.cons.inj houtward).1
      exact .of_isPrefix List.prefix_rfl
    | cons first before =>
      rw [hbefore] at houtward hpassed
      obtain ⟨rfl, henclosing⟩ := List.cons.inj houtward
      obtain ⟨hfirst, hrest⟩ := List.forall_mem_cons.mp hpassed
      have hroot : ∀ id ∈ (context.scope scope).enclosing.getLast?.toList,
          (program.atRest context).Barren program.tree.OffersFunction id := fun id hid =>
        hsound.barren_of_ownedBy_none
          (hsound.ownedBy_of_getLast? hscope (Option.mem_toList.mp hid))
      refine .left hfirst ?_
      rw [climb, climb, (List.cons.inj houter).2, List.map_append]
      refine .append_idle ?_ (List.forall_mem_map.mpr hroot)
      rw [henclosing, ← List.cons_append, List.map_append]
      exact (World.below_upToModule hrest).append_more _

end Context.Sound

end Scoping
