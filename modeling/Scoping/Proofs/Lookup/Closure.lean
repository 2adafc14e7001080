import Mathlib.Logic.Relation
import Scoping.Proofs.Lookup.Walk

/-!
A walk for a name that nothing renames enters exactly the scopes that its sources
lead to, each of them once, whatever cycles the clauses form. No scope is lost
because it was entered earlier: whatever leads out of it is still on the stack or
was entered too.
-/

namespace Scoping

/-- The scope that a source leads to. -/
def Source.target? : Source → Option ScopeId
  | .set _ => none
  | .scope _ _ id _ => some id

/-- The set that a source is. -/
def Source.set? : Source → Option Overloads
  | .set overloads => some overloads
  | .scope .. => none

/-- A source that is searched as a whole, under one name. -/
def Source.IsFor (name : Name) : Source → Prop
  | .set _ => True
  | .scope decls imports _ other => decls = true ∧ imports = true ∧ other = name

namespace World

variable (world : World)

/-- Whether a scope leads to another under a name that stays the same. -/
def Links (name : Name) (source target : ScopeId) : Prop :=
  (∃ clause ∈ world.clauses source, clause.route name = .contents name ∧ clause.target = target) ∨
    ((world.scope source).autoUses = true ∧ world.auto = some target)

/-- Whether every clause hides a name or lets it through as it is. -/
def KeepsName (name : Name) : Prop :=
  ∀ id, ∀ clause ∈ world.clauses id,
    clause.route name = .blocked ∨ clause.route name = .contents name

variable {world} {name : Name}

theorem through_of_keepsName {clauses : List Clause}
    (hclauses : ∀ clause ∈ clauses,
      clause.route name = .blocked ∨ clause.route name = .contents name) :
    world.through name clauses =
      (false, (clauses.filter fun clause => clause.route name = .contents name).map
        fun clause => .scope true true clause.target name) := by
  induction clauses with
  | nil => rfl
  | cons clause rest ih =>
    obtain ⟨hclause, hrest⟩ := List.forall_mem_cons.mp hclauses
    rcases hclause with hblocked | hpassed
    · simp [through, hblocked, ih hrest]
    · simp [through, hpassed, ih hrest]

theorem mem_imports_iff (hkeeps : world.KeepsName name) {id : ScopeId} {source : Source} :
    source ∈ world.imports id name ↔
      ∃ target, world.Links name id target ∧ source = .scope true true target name := by
  have hthrough : world.through name (world.clauses id) = (false, _) :=
    through_of_keepsName (hkeeps id)
  rw [world.imports_of_open (congrArg Prod.fst hthrough), hthrough, List.mem_append, List.mem_map,
    mem_autoSources_iff]
  constructor
  · rintro (⟨clause, hclause, rfl⟩ | ⟨auto, huses, hauto, rfl⟩)
    · obtain ⟨hmem, hroute⟩ := List.mem_filter.mp hclause
      exact ⟨clause.target, .inl ⟨clause, hmem, of_decide_eq_true hroute, rfl⟩, rfl⟩
    · exact ⟨auto, .inr ⟨huses, hauto⟩, rfl⟩
  · rintro ⟨target, ⟨clause, hclause, hroute, rfl⟩ | ⟨huses, hauto⟩, rfl⟩
    · exact .inl ⟨clause, List.mem_filter.mpr ⟨hclause, decide_eq_true hroute⟩, rfl⟩
    · exact .inr ⟨target, huses, hauto, rfl⟩

theorem sources_eq (id : ScopeId) (name : Name) :
    world.sources true true id name =
      ((world.scope id).lookup name).map .set ++ world.imports id name := by
  simp [sources]

/-- What a walk that went to the end has done, in terms of the scopes it entered. -/
structure Visits (world : World) (name : Name) (entered : List ScopeId) (pending : List Source)
    (found : List Overloads) (entered' visited : List ScopeId) : Prop where
  entered_eq : entered' = visited.reverse ++ entered
  fresh : ∀ id ∈ visited, id ∉ entered
  nodup : visited.Nodup
  /-- Each scope is reported once, next to the sets that were sources already. -/
  found_perm : found.Perm
    (pending.filterMap Source.set? ++ visited.flatMap fun id => (world.scope id).lookup name)
  starts : ∀ id ∈ pending.filterMap Source.target?, id ∈ entered'
  /-- Whatever leads out of an entered scope has been entered. -/
  closed : ∀ id ∈ visited, ∀ target, world.Links name id target → target ∈ entered'
  reached : ∀ id ∈ visited, ∃ start ∈ pending.filterMap Source.target?,
    Relation.ReflTransGen (world.Links name) start id

theorem filterMap_set?_imports (hkeeps : world.KeepsName name) (id : ScopeId) :
    (world.imports id name).filterMap Source.set? = [] := by
  rw [List.filterMap_eq_nil_iff]
  intro source hsource
  obtain ⟨target, -, rfl⟩ := (mem_imports_iff hkeeps).mp hsource
  rfl

theorem filterMap_set?_sources (hkeeps : world.KeepsName name) (id : ScopeId) :
    (world.sources true true id name).filterMap Source.set? = (world.scope id).lookup name := by
  rw [sources_eq, List.filterMap_append, filterMap_set?_imports hkeeps, List.append_nil,
    List.filterMap_map]
  exact List.filterMap_some

theorem mem_filterMap_target?_sources (hkeeps : world.KeepsName name) {id target : ScopeId} :
    target ∈ (world.sources true true id name).filterMap Source.target? ↔
      world.Links name id target := by
  rw [sources_eq, List.mem_filterMap]
  constructor
  · rintro ⟨source, hsource, htarget⟩
    rcases List.mem_append.mp hsource with hset | himport
    · obtain ⟨overloads, -, rfl⟩ := List.mem_map.mp hset
      cases htarget
    · obtain ⟨other, hlinks, rfl⟩ := (mem_imports_iff hkeeps).mp himport
      exact Option.some.inj htarget ▸ hlinks
  · intro hlinks
    exact ⟨_, List.mem_append_right _ ((mem_imports_iff hkeeps).mpr ⟨target, hlinks, rfl⟩), rfl⟩

theorem isFor_of_mem_sources (hkeeps : world.KeepsName name) {id : ScopeId} {source : Source}
    (hsource : source ∈ world.sources true true id name) : source.IsFor name := by
  rw [sources_eq] at hsource
  rcases List.mem_append.mp hsource with hset | himport
  · obtain ⟨overloads, -, rfl⟩ := List.mem_map.mp hset
    trivial
  · obtain ⟨target, -, rfl⟩ := (mem_imports_iff hkeeps).mp himport
    exact ⟨rfl, rfl, rfl⟩

namespace Visits

variable {entered entered' visited : List ScopeId} {pending : List Source}
variable {found : List Overloads}

theorem mem_entered' (hvisits : world.Visits name entered pending found entered' visited)
    {id : ScopeId} : id ∈ entered' ↔ id ∈ visited ∨ id ∈ entered := by
  rw [hvisits.entered_eq, List.mem_append, List.mem_reverse]

theorem set {overloads : Overloads}
    (hvisits : world.Visits name entered pending found entered' visited) :
    world.Visits name entered (.set overloads :: pending) (overloads :: found) entered' visited :=
  { hvisits with found_perm := hvisits.found_perm.cons overloads }

theorem seen {id : ScopeId} (hid : id ∈ entered)
    (hvisits : world.Visits name entered pending found entered' visited) :
    world.Visits name entered (.scope true true id name :: pending) found entered' visited where
  entered_eq := hvisits.entered_eq
  fresh := hvisits.fresh
  nodup := hvisits.nodup
  found_perm := hvisits.found_perm
  starts := List.forall_mem_cons.mpr ⟨hvisits.mem_entered'.mpr (.inr hid), hvisits.starts⟩
  closed := hvisits.closed
  reached other hother := by
    obtain ⟨start, hstart, hpath⟩ := hvisits.reached other hother
    exact ⟨start, List.mem_cons_of_mem _ hstart, hpath⟩

theorem enter (hkeeps : world.KeepsName name) {id : ScopeId} (hid : id ∉ entered)
    (hvisits : world.Visits name (id :: entered) (world.sources true true id name ++ pending) found
      entered' visited) :
    world.Visits name entered (.scope true true id name :: pending) found entered'
      (id :: visited) where
  entered_eq := by simp [hvisits.entered_eq]
  fresh := List.forall_mem_cons.mpr
    ⟨hid, fun other hother hmem => hvisits.fresh other hother (List.mem_cons_of_mem _ hmem)⟩
  nodup := List.nodup_cons.mpr
    ⟨fun hmem => hvisits.fresh id hmem List.mem_cons_self, hvisits.nodup⟩
  found_perm := by
    have hperm := hvisits.found_perm
    rw [List.filterMap_append, filterMap_set?_sources hkeeps] at hperm
    refine hperm.trans ((List.perm_append_comm.append_right _).trans ?_)
    rw [List.append_assoc]
    exact .refl _
  starts := by
    refine List.forall_mem_cons.mpr ⟨hvisits.mem_entered'.mpr (.inr List.mem_cons_self), ?_⟩
    intro other hother
    apply hvisits.starts other
    rw [List.filterMap_append]
    exact List.mem_append_right _ hother
  closed := by
    refine List.forall_mem_cons.mpr ⟨?_, hvisits.closed⟩
    intro target hlinks
    apply hvisits.starts target
    rw [List.filterMap_append]
    exact List.mem_append_left _ ((mem_filterMap_target?_sources hkeeps).mpr hlinks)
  reached := by
    refine List.forall_mem_cons.mpr ⟨⟨id, List.mem_cons_self, .refl⟩, ?_⟩
    intro other hother
    obtain ⟨start, hstart, hpath⟩ := hvisits.reached other hother
    rw [List.filterMap_append] at hstart
    rcases List.mem_append.mp hstart with hled | hpending
    · have hlinks := (mem_filterMap_target?_sources hkeeps).mp hled
      exact ⟨id, List.mem_cons_self, .head hlinks hpath⟩
    · exact ⟨start, List.mem_cons_of_mem _ hpending, hpath⟩

/-- The entered scopes are those that the sources lead to. -/
theorem mem_visited_iff (hvisits : world.Visits name [] pending found entered' visited)
    {id : ScopeId} : id ∈ visited ↔ ∃ start ∈ pending.filterMap Source.target?,
      Relation.ReflTransGen (world.Links name) start id := by
  have hmem : ∀ other, other ∈ entered' ↔ other ∈ visited := by
    simp [hvisits.mem_entered']
  refine ⟨hvisits.reached id, ?_⟩
  rintro ⟨start, hstart, hpath⟩
  induction hpath with
  | refl => exact (hmem start).mp (hvisits.starts start hstart)
  | tail _ hlinks ih => exact (hmem _).mp (hvisits.closed _ ih _ hlinks)

end Visits

/-- The visits of a walk to the end. The induction is on the walk; the stack grows
in the case of a scope that is entered, by what this scope leads to. -/
theorem Walks.visits (hkeeps : world.KeepsName name) {entered entered' : List ScopeId}
    {pending pending' : List Source} {found : List Overloads}
    (hwalk : world.Walks entered pending found entered' pending') (hend : pending' = [])
    (hpending : ∀ source ∈ pending, source.IsFor name) :
    ∃ visited, world.Visits name entered pending found entered' visited := by
  induction hwalk with
  | refl entered pending =>
    subst hend
    exact ⟨[], by constructor <;> simp⟩
  | set _ ih =>
    obtain ⟨visited, hvisits⟩ := ih hend (List.forall_mem_cons.mp hpending).2
    exact ⟨visited, hvisits.set⟩
  | seen hid _ ih =>
    obtain ⟨⟨rfl, rfl, rfl⟩, hrest⟩ := List.forall_mem_cons.mp hpending
    obtain ⟨visited, hvisits⟩ := ih hend hrest
    exact ⟨visited, hvisits.seen hid⟩
  | enter hid _ ih =>
    obtain ⟨⟨rfl, rfl, rfl⟩, hrest⟩ := List.forall_mem_cons.mp hpending
    obtain ⟨visited, hvisits⟩ := ih hend fun source hsource =>
      (List.mem_append.mp hsource).elim (isFor_of_mem_sources hkeeps) (hrest source)
    exact ⟨_, hvisits.enter hkeeps hid⟩

end World

end Scoping
