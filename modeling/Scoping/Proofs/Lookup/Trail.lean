import Mathlib.Logic.Relation
import Scoping.Proofs.Lookup.Walk

/-!
Where a walk has been. Renames change the name from scope to scope, so a walk is
described by the sources it has taken up rather than by the scopes it entered:
each was led to by a source before it, and whatever it leads to in turn was taken
up, or names a scope that had been entered under another name.
-/

namespace Scoping.World

variable {world : World}

/-- Whether a source puts another in its place. -/
def Opens (world : World) : Source → Source → Prop
  | .set _, _ => False
  | .scope decls imports id name, source => source ∈ world.sources decls imports id name

/-- A set opens nothing, so it leads to itself alone. -/
theorem eq_of_opened_set {overloads : Overloads} {last : Source}
    (hopened : Relation.ReflTransGen world.Opens (.set overloads) last) :
    last = .set overloads := by
  rcases Relation.ReflTransGen.cases_head hopened with heq | ⟨_, hopens, -⟩
  · exact heq.symm
  · exact hopens.elim

/-- A set that a source puts in its place is declared in the scope, or is the owner
of the target of a clause. -/
theorem declared_or_symbol_of_opens {decls imports : Bool} {id : ScopeId} {name : Name}
    {overloads : Overloads} (hopens : world.Opens (.scope decls imports id name) (.set overloads)) :
    (decls = true ∧ (world.scope id).declared.get? name = some overloads) ∨
      (imports = true ∧ ∃ clause ∈ world.clauses id, clause.route name = .symbol ∧
        ∃ owner, (world.scope clause.target).owner = some owner ∧
          overloads = .single (.node owner)) := by
  rcases List.mem_append.mp hopens with hdeclared | himported
  · split at hdeclared
    · next hdecls =>
      obtain ⟨other, hmem, heq⟩ := List.mem_map.mp hdeclared
      cases heq
      exact .inl ⟨hdecls, Option.mem_toList.mp hmem⟩
    · cases hdeclared
  · split at himported
    · next himports =>
      rcases world.brings_or_auto_of_mem_imports himported with hbrings | hauto
      · generalize hset : Source.set overloads = brought at hbrings
        cases hbrings with
        | contents => cases hset
        | symbol hclause hroute howner =>
          cases hset
          exact .inr ⟨himports, _, hclause, hroute, _, howner, rfl⟩
      · obtain ⟨auto, -, -, heq⟩ := world.mem_autoSources_iff.mp hauto
        cases heq
    · cases himported

/-- Whether a source on a stack leads to another one. -/
def LedTo (world : World) (pending : List Source) (source : Source) : Prop :=
  ∃ start ∈ pending, Relation.ReflTransGen world.Opens start source

theorem LedTo.cons {pending : List Source} {source : Source} (hled : world.LedTo pending source)
    (first : Source) : world.LedTo (first :: pending) source := by
  obtain ⟨start, hstart, hpath⟩ := hled
  exact ⟨start, List.mem_cons_of_mem first hstart, hpath⟩

/-- What an opened source puts on the stack was led to by it. -/
theorem LedTo.opens {decls imports : Bool} {id : ScopeId} {name : Name} {pending : List Source}
    {source : Source}
    (hled : world.LedTo (world.sources decls imports id name ++ pending) source) :
    world.LedTo (.scope decls imports id name :: pending) source := by
  obtain ⟨start, hstart, hpath⟩ := hled
  rcases List.mem_append.mp hstart with hopened | hrest
  · have hopens : world.Opens (.scope decls imports id name) start := hopened
    exact ⟨_, List.mem_cons_self, .head hopens hpath⟩
  · exact ⟨start, List.mem_cons_of_mem _ hrest, hpath⟩

/-- Whatever is on the stack was led to by a source that was on it before. -/
theorem Walks.ledTo {entered entered' : List ScopeId} {pending pending' : List Source}
    {found : List Overloads} (hwalk : world.Walks entered pending found entered' pending')
    {source : Source} (hsource : source ∈ pending') : world.LedTo pending source := by
  induction hwalk with
  | refl => exact ⟨source, hsource, .refl⟩
  | set _ ih | seen _ _ ih => exact (ih hsource).cons _
  | enter _ _ ih => exact (ih hsource).opens

/-- Whatever a walk reports was led to by a source that was on the stack. -/
theorem Walks.found_ledTo {entered entered' : List ScopeId} {pending pending' : List Source}
    {found : List Overloads} (hwalk : world.Walks entered pending found entered' pending')
    {overloads : Overloads} (hfound : overloads ∈ found) :
    world.LedTo pending (.set overloads) := by
  induction hwalk with
  | refl => cases hfound
  | @set _ _ pending _ _ first _ ih =>
    rcases List.mem_cons.mp hfound with rfl | hrest
    · exact ⟨_, List.mem_cons_self, .refl⟩
    · exact (ih hrest).cons _
  | seen _ _ ih => exact (ih hfound).cons _
  | enter _ _ ih => exact (ih hfound).opens

/-- Whatever a search yields was led to by one of its sources. -/
theorem Yields.ledTo {innermost : Bool} {entered entered' : List ScopeId} {pending : List Source}
    {found : List Overloads} (hyields : world.Yields innermost entered pending found entered')
    {overloads : Overloads} (hfound : overloads ∈ found) :
    world.LedTo pending (.set overloads) := by
  unfold Yields at hyields
  split at hyields
  · obtain ⟨first, rest, rfl, hwalk⟩ := hyields
    obtain rfl := List.mem_singleton.mp hfound
    exact hwalk.ledTo List.mem_cons_self
  · exact hyields.found_ledTo hfound

/-- Whether a source has been dealt with: a set is reported, and the scope of any
other is entered. -/
def Done (entered : List ScopeId) (found : List Overloads) : Source → Prop
  | .set overloads => overloads ∈ found
  | .scope _ _ id _ => id ∈ entered

/-- The sources that a walk to the end has taken up. -/
structure Trails (world : World) (entered : List ScopeId) (pending : List Source)
    (found : List Overloads) (entered' : List ScopeId) (trail : List Source) : Prop where
  /-- A scope is entered when a source that names it is taken up. -/
  named : ∀ id ∈ entered', id ∈ entered ∨ ∃ decls imports name, .scope decls imports id name ∈ trail
  pending_done : ∀ source ∈ pending, Done entered' found source
  trail_done : ∀ source ∈ trail, ∀ next, world.Opens source next → Done entered' found next
  ledTo : ∀ source ∈ trail, world.LedTo pending source

theorem Done.cons {entered : List ScopeId} {found : List Overloads} {source : Source}
    (hdone : Done entered found source) (overloads : Overloads) :
    Done entered (overloads :: found) source := by
  cases source with
  | set other => exact List.mem_cons_of_mem _ hdone
  | scope decls imports id name => exact hdone

namespace Trails

variable {entered entered' : List ScopeId} {pending trail : List Source} {found : List Overloads}

theorem set {overloads : Overloads} (htrail : world.Trails entered pending found entered' trail) :
    world.Trails entered (.set overloads :: pending) (overloads :: found) entered' trail where
  named := htrail.named
  pending_done := List.forall_mem_cons.mpr
    ⟨List.mem_cons_self, fun source hsource => (htrail.pending_done source hsource).cons overloads⟩
  trail_done source hsource next hnext :=
    (htrail.trail_done source hsource next hnext).cons overloads
  ledTo source hsource := (htrail.ledTo source hsource).cons _

theorem seen {decls imports : Bool} {id : ScopeId} {name : Name} (hid : id ∈ entered')
    (htrail : world.Trails entered pending found entered' trail) :
    world.Trails entered (.scope decls imports id name :: pending) found entered' trail where
  named := htrail.named
  pending_done := List.forall_mem_cons.mpr ⟨hid, htrail.pending_done⟩
  trail_done := htrail.trail_done
  ledTo source hsource := (htrail.ledTo source hsource).cons _

theorem enter {decls imports : Bool} {id : ScopeId} {name : Name} (hid : id ∈ entered')
    (htrail : world.Trails (id :: entered) (world.sources decls imports id name ++ pending) found
      entered' trail) :
    world.Trails entered (.scope decls imports id name :: pending) found entered'
      (.scope decls imports id name :: trail) where
  named other hother := by
    rcases htrail.named other hother with hentered | ⟨decls', imports', name', hmem⟩
    · rcases List.mem_cons.mp hentered with rfl | hold
      · exact .inr ⟨decls, imports, name, List.mem_cons_self⟩
      · exact .inl hold
    · exact .inr ⟨decls', imports', name', List.mem_cons_of_mem _ hmem⟩
  pending_done := List.forall_mem_cons.mpr
    ⟨hid, fun source hsource => htrail.pending_done source (List.mem_append_right _ hsource)⟩
  trail_done := List.forall_mem_cons.mpr
    ⟨fun next hnext => htrail.pending_done next (List.mem_append_left _ hnext), htrail.trail_done⟩
  ledTo := List.forall_mem_cons.mpr
    ⟨⟨_, List.mem_cons_self, .refl⟩, fun source hsource => (htrail.ledTo source hsource).opens⟩

end Trails

theorem Walks.trails {entered entered' : List ScopeId} {pending pending' : List Source}
    {found : List Overloads} (hwalk : world.Walks entered pending found entered' pending')
    (hend : pending' = []) : ∃ trail, world.Trails entered pending found entered' trail := by
  induction hwalk with
  | refl entered pending =>
    subst hend
    exact ⟨[], fun id hid => .inl hid, nofun, nofun, nofun⟩
  | set _ ih =>
    obtain ⟨trail, htrail⟩ := ih hend
    exact ⟨trail, htrail.set⟩
  | seen hid hrest ih =>
    obtain ⟨trail, htrail⟩ := ih hend
    exact ⟨trail, htrail.seen (hrest.subset hid)⟩
  | enter _ hrest ih =>
    obtain ⟨trail, htrail⟩ := ih hend
    exact ⟨_, htrail.enter (hrest.subset List.mem_cons_self)⟩

end Scoping.World
