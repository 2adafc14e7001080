import Scoping.Proofs.Lookup.Automatic
import Scoping.Proofs.Reordering.Scopes

/-!
Where a name leads in two contexts of programs whose trees differ in the order of some
children only. Sources are compared by the owners of their scopes, and sets by what is
in them. Clauses that say the same lead to the same; where none of them stands for its
target, their order does not matter either.
-/

namespace Scoping

open Context

namespace Context

variable {left right : Context}

/-- Whether two sources, each of its own context, are for the same. -/
inductive SameSource (left right : Context) : Source → Source → Prop
  | set {overloads overloads' : Overloads} (hperm : overloads.toList.Perm overloads'.toList) :
    SameSource left right (.set overloads) (.set overloads')
  | scope {decls imports : Bool} {id id' : ScopeId} {name : Name}
    (hsame : left.SameScope right id id') :
    SameSource left right (.scope decls imports id name) (.scope decls imports id' name)

/-- Whether every source of one context has its like among those of the other. -/
def Mirrored (left right : Context) (sources sources' : List Source) : Prop :=
  ∀ source ∈ sources, ∃ source' ∈ sources', left.SameSource right source source'

namespace Mirrored

variable {sources sources' more more' : List Source}

theorem append (hsources : left.Mirrored right sources sources')
    (hmore : left.Mirrored right more more') :
    left.Mirrored right (sources ++ more) (sources' ++ more') := by
  intro source hsource
  rcases List.mem_append.mp hsource with hfirst | hsecond
  · obtain ⟨source', hsource', hsame⟩ := hsources source hfirst
    exact ⟨source', List.mem_append_left _ hsource', hsame⟩
  · obtain ⟨source', hsource', hsame⟩ := hmore source hsecond
    exact ⟨source', List.mem_append_right _ hsource', hsame⟩

theorem of_forall₂ (hall : List.Forall₂ (left.SameSource right) sources sources') :
    left.Mirrored right sources sources' := by
  induction hall with
  | nil => exact nofun
  | cons hfirst _ ih =>
    refine List.forall_mem_cons.mpr ⟨⟨_, List.mem_cons_self, hfirst⟩, fun source hsource => ?_⟩
    obtain ⟨source', hsource', hsame⟩ := ih source hsource
    exact ⟨source', List.mem_cons_of_mem _ hsource', hsame⟩

end Mirrored

end Context

namespace World

variable {world world' : World} {left right : Context} {clauses clauses' : List Clause}

/-- Clauses that say the same lead to the same, in the same order. -/
theorem through_same (hscope : world.scope = left.scope) (hscope' : world'.scope = right.scope)
    (hclauses : left.SameClauses right clauses clauses') (name : Name) :
    (world.through name clauses).1 = (world'.through name clauses').1 ∧
      List.Forall₂ (left.SameSource right) (world.through name clauses).2
        (world'.through name clauses').2 := by
  induction hclauses with
  | nil => exact ⟨rfl, .nil⟩
  | @cons clause clause' _ _ hclause _ ih =>
    rw [through, through, ← hclause.route_eq name]
    cases clause.route name with
    | blocked => exact ih
    | symbol =>
      obtain ⟨owner, howned, howned'⟩ := hclause.target
      dsimp only
      rw [hscope, hscope', howned.2, howned'.2]
      cases owner with
      | none => exact ih
      | some owner => exact ⟨rfl, .cons (.set (.refl _)) .nil⟩
    | contents actual => exact ⟨ih.1, .cons (.scope hclause.target) ih.2⟩

/-- Clauses of which none stands for its target lead to the same in any order. -/
theorem through_mirrored {name : Name}
    (hclauses : ∀ clause ∈ clauses, ∃ clause' ∈ clauses', left.SameClause right clause clause')
    (hopen : ∀ clause ∈ clauses, clause.route name ≠ .symbol)
    (hopen' : ∀ clause ∈ clauses', clause.route name ≠ .symbol) :
    left.Mirrored right (world.through name clauses).2 (world'.through name clauses').2 := by
  intro source hsource
  cases world.brings_of_mem_through hsource with
  | @contents clause actual hclause hroute =>
    obtain ⟨clause', hclause', hsame⟩ := hclauses clause hclause
    obtain ⟨before, after, rfl⟩ := List.append_of_mem hclause'
    refine ⟨.scope true true clause'.target actual, ?_, .scope hsame.target⟩
    exact mem_through_of_append
      (fun earlier hearlier => hopen' earlier (List.mem_append_left _ hearlier))
      (hsame.route_eq name ▸ hroute)
  | symbol hclause hroute _ => exact absurd hroute (hopen _ hclause)

end World

namespace Tree.Reorders

variable {program : Program} {tree : Tree} {holder : NodeId} {left right : Context}
variable {id id' : ScopeId} {name : Name}
variable (hreorders : program.tree.Reorders tree holder) (hleft : left.Sound program)
variable (hright : right.Sound (program.over tree))
include hreorders hleft hright

theorem declared_mirrored (hsame : left.SameScope right id id') (name : Name) :
    left.Mirrored right (((left.scope id).lookup name).map .set)
      (((right.scope id').lookup name).map .set) := by
  intro source hsource
  obtain ⟨overloads, hoverloads, rfl⟩ := List.mem_map.mp hsource
  obtain ⟨overloads', hdeclared, hperm⟩ := (hreorders.declared_same hleft hright hsame).exists_perm
    (Option.mem_toList.mp hoverloads)
  exact ⟨.set overloads', List.mem_map.mpr ⟨overloads', Option.mem_toList.mpr hdeclared, rfl⟩,
    .set hperm⟩

/-- What leads out of a scope leads out of the scope of the same owner, if its clauses lead
to the same and the automatic module is known where it is seen. -/
theorem sources_mirrored (hsame : left.SameScope right id id') (decls imports : Bool)
    (hclosed : ((program.atRest left).through name (left.clausesAt id)).1 =
      (((program.over tree).atRest right).through name (right.clausesAt id')).1)
    (hclauses : left.Mirrored right ((program.atRest left).through name (left.clausesAt id)).2
      (((program.over tree).atRest right).through name (right.clausesAt id')).2)
    (hknown : imports = true → (right.scope id').autoUses = true →
      (((program.over tree).atRest right).through name (right.clausesAt id')).1 = false →
      ∃ auto, right.IsAuto (program.over tree) auto) :
    left.Mirrored right ((program.atRest left).sources decls imports id name)
      (((program.over tree).atRest right).sources decls imports id' name) := by
  refine Mirrored.append ?_ ?_
  · cases decls with
    | false => exact nofun
    | true => exact hreorders.declared_mirrored hleft hright hsame name
  · cases imports with
    | false => exact nofun
    | true =>
      rw [if_pos rfl, if_pos rfl]
      cases hopen : ((program.atRest left).through name (left.clausesAt id)).1 with
      | true =>
        rw [World.imports_of_closed _ hopen, World.imports_of_closed _ (hclosed ▸ hopen)]
        exact hclauses
      | false =>
        rw [World.imports_of_open _ hopen, World.imports_of_open _ (hclosed ▸ hopen)]
        refine hclauses.append fun source hsource => ?_
        obtain ⟨auto, huses, hauto, rfl⟩ := (World.mem_autoSources_iff _).mp hsource
        replace hauto := (Program.world_auto_iff hleft).mp hauto
        have huses' : (right.scope id').autoUses = true :=
          (hreorders.autoUses_eq hleft hright hsame).symm.trans huses
        obtain ⟨auto', hauto'⟩ := hknown rfl huses' (hclosed ▸ hopen)
        cases auto' with
        | none =>
          obtain ⟨node, -, htop, -⟩ := hauto
          rw [toplevel?, hreorders.roots] at htop
          rw [show tree.roots.get? program.autoModule = none from hauto'] at htop
          cases htop
        | some auto' =>
          refine ⟨.scope true true auto' name, ?_, .scope (hreorders.isAuto_same hauto hauto')⟩
          exact (World.mem_autoSources_iff _).mpr
            ⟨auto', huses', (Program.world_auto_iff hright).mpr hauto', rfl⟩

/-- Lookups from scopes of one owner begin with the same. -/
theorem beginnings_mirrored (hsame : left.SameScope right id id') (config : LookupConfig)
    (name : Name) :
    left.Mirrored right (program.beginnings left config id name)
      ((program.over tree).beginnings right config id' name) := by
  have hfirst : left.Mirrored right [.scope config.decls config.imports id name]
      [.scope config.decls config.imports id' name] :=
    .of_forall₂ (.cons (.scope hsame) .nil)
  refine hfirst.append (Mirrored.append ?_ ?_)
  · cases config.parents with
    | false => exact nofun
    | true =>
      refine .of_forall₂ (List.forall₂_map_left_iff.mpr (List.forall₂_map_right_iff.mpr ?_))
      exact (hreorders.climb_same hleft hright hsame).imp fun _ _ houter => .scope houter
  · rw [toplevel?, toplevel?, hreorders.roots]
    refine .of_forall₂ ?_
    split
    · exact List.forall₂_map_left_iff.mpr (List.forall₂_map_right_iff.mpr
        (List.forall₂_same.mpr fun _ _ => .set (.refl _)))
    · exact .nil

end Tree.Reorders

end Scoping
