import Scoping.Proofs.Lookup.Walk

/-!
Walks that differ in scopes of no account. A scope from which nothing leads on and whose
declarations do not count may be entered or left out, at any place and under any name:
what counts is found all the same. Two walks are followed side by side, and each is let
go ahead through what the other has not got.
-/

namespace Scoping.World

variable {world : World} {counts : Overloads → Prop}

/-- A scope from which nothing leads on, and whose declarations do not count. -/
structure Barren (world : World) (counts : Overloads → Prop) (id : ScopeId) : Prop where
  declares : ∀ name overloads, (world.scope id).declared.get? name = some overloads →
    ¬ counts overloads
  leads : ∀ name, world.imports id name = []

/-- A source of no account: a set that does not count, or a barren scope. -/
def Idle (world : World) (counts : Overloads → Prop) : Source → Prop
  | .set overloads => ¬ counts overloads
  | .scope _ _ id _ => world.Barren counts id

/-- Whether two walks have been in the same scopes, barren ones apart. -/
def Agree (world : World) (counts : Overloads → Prop) (entered entered' : List ScopeId) : Prop :=
  ∀ id, ¬ world.Barren counts id → (id ∈ entered ↔ id ∈ entered')

theorem Agree.refl (entered : List ScopeId) : world.Agree counts entered entered :=
  fun _ _ => .rfl

theorem Agree.symm {entered entered' : List ScopeId} (hagree : world.Agree counts entered entered') :
    world.Agree counts entered' entered := fun id hid => (hagree id hid).symm

theorem Agree.trans {entered middle entered' : List ScopeId}
    (hfirst : world.Agree counts entered middle) (hsecond : world.Agree counts middle entered') :
    world.Agree counts entered entered' := fun id hid => (hfirst id hid).trans (hsecond id hid)

theorem Agree.cons {entered entered' : List ScopeId} (hagree : world.Agree counts entered entered')
    (id : ScopeId) : world.Agree counts (id :: entered) (id :: entered') := fun other hother => by
  rw [List.mem_cons, List.mem_cons, hagree other hother]

theorem Agree.cons_left {entered entered' : List ScopeId}
    (hagree : world.Agree counts entered entered') {id : ScopeId} (hid : world.Barren counts id) :
    world.Agree counts (id :: entered) entered' := fun other hother => by
  rw [List.mem_cons, hagree other hother]
  exact or_iff_right fun heq => hother (heq ▸ hid)

/-- Whether one stack is the beginning of another, idle sources apart. -/
inductive Below (world : World) (counts : Overloads → Prop) : List Source → List Source → Prop
  | nil (pending : List Source) : Below world counts [] pending
  | cons {rest rest' : List Source} (source : Source) (hrest : Below world counts rest rest') :
    Below world counts (source :: rest) (source :: rest')
  | left {rest pending : List Source} {source : Source} (hidle : world.Idle counts source)
    (hrest : Below world counts rest pending) : Below world counts (source :: rest) pending
  | right {pending rest : List Source} {source : Source} (hidle : world.Idle counts source)
    (hrest : Below world counts pending rest) : Below world counts pending (source :: rest)

namespace Below

variable {pending pending' : List Source}

theorem of_isPrefix (hmore : pending <+: pending') : world.Below counts pending pending' := by
  obtain ⟨more, rfl⟩ := hmore
  induction pending with
  | nil => exact .nil more
  | cons source rest ih => exact .cons source ih

theorem append_left (hbelow : world.Below counts pending pending') {idle : List Source}
    (hidle : ∀ source ∈ idle, world.Idle counts source) :
    world.Below counts (idle ++ pending) pending' := by
  induction idle with
  | nil => exact hbelow
  | cons source rest ih =>
    obtain ⟨hsource, hrest⟩ := List.forall_mem_cons.mp hidle
    exact .left hsource (ih hrest)

theorem append_same (hbelow : world.Below counts pending pending') (first : List Source) :
    world.Below counts (first ++ pending) (first ++ pending') := by
  induction first with
  | nil => exact hbelow
  | cons source rest ih => exact .cons source ih

/-- The other stack may go on. -/
theorem append_more (hbelow : world.Below counts pending pending') (more : List Source) :
    world.Below counts pending (pending' ++ more) := by
  induction hbelow with
  | nil pending => exact .nil _
  | cons source _ ih => exact .cons source ih
  | left hsource _ ih => exact .left hsource ih
  | right hsource _ ih => exact .right hsource ih

/-- Idle sources at the end make no difference. -/
theorem append_idle (hbelow : world.Below counts pending pending') {idle : List Source}
    (hidle : ∀ source ∈ idle, world.Idle counts source) :
    world.Below counts (pending ++ idle) pending' := by
  induction hbelow with
  | nil pending =>
    have hall := append_left (.nil pending) hidle
    rwa [List.append_nil] at hall
  | cons source _ ih => exact .cons source ih
  | left hsource _ ih => exact .left hsource ih
  | right hsource _ ih => exact .right hsource ih

/-- Nor does an idle source that comes first. -/
theorem of_cons {source : Source} (hidle : world.Idle counts source)
    (hbelow : world.Below counts (source :: pending) pending') :
    world.Below counts pending pending' := by
  generalize hfirst : source :: pending = first at hbelow
  induction hbelow with
  | nil => cases hfirst
  | cons _ hrest =>
    cases hfirst
    exact .right hidle hrest
  | left _ hrest =>
    cases hfirst
    exact hrest
  | right hother _ ih => exact .right hother (ih hfirst)

end Below

/-- A source of account on the one stack is, after idle ones, on the other. -/
theorem Below.exists_append {pending rest : List Source} {source : Source}
    (hsource : ¬ world.Idle counts source) (hbelow : world.Below counts (source :: rest) pending) :
    ∃ idle left, pending = idle ++ source :: left ∧ (∀ other ∈ idle, world.Idle counts other) ∧
      world.Below counts rest left := by
  generalize hfirst : source :: rest = first at hbelow
  induction hbelow with
  | nil => cases hfirst
  | cons _ hrest =>
    cases hfirst
    exact ⟨[], _, rfl, List.forall_mem_nil _, hrest⟩
  | left hidle _ =>
    cases hfirst
    exact absurd hidle hsource
  | @right pending rest other hidle _ ih =>
    obtain ⟨idle, left, rfl, hall, hrest⟩ := ih hfirst
    exact ⟨other :: idle, left, rfl, List.forall_mem_cons.mpr ⟨hidle, hall⟩, hrest⟩

/-- A barren scope puts nothing on the stack but sets that do not count. -/
theorem Barren.exists_of_mem_sources {id : ScopeId} (hid : world.Barren counts id)
    {decls imports : Bool} {name : Name} {source : Source}
    (hsource : source ∈ world.sources decls imports id name) :
    ∃ overloads, source = .set overloads ∧ ¬ counts overloads := by
  rcases List.mem_append.mp hsource with hdeclared | himported
  · split at hdeclared
    · obtain ⟨overloads, hmem, rfl⟩ := List.mem_map.mp hdeclared
      exact ⟨overloads, rfl, hid.declares name overloads (Option.mem_toList.mp hmem)⟩
    · cases hdeclared
  · split at himported
    · rw [hid.leads name] at himported
      cases himported
    · cases himported

namespace Walks

variable {entered entered' last last' : List ScopeId} {pending pending' rest : List Source}
variable {found found' : List Overloads}

/-- A walk reports the sets in front and goes on. -/
theorem of_sets {sets : List Source} (hsets : ∀ source ∈ sets, ∃ overloads, source = .set overloads)
    (hwalk : world.Walks entered (sets ++ rest) found last []) :
    ∃ more, world.Walks entered rest more last [] ∧ more ⊆ found := by
  induction sets generalizing found with
  | nil => exact ⟨found, hwalk, List.Subset.refl _⟩
  | cons source sets ih =>
    obtain ⟨⟨overloads, rfl⟩, hrest⟩ := List.forall_mem_cons.mp hsets
    cases hwalk with
    | set hwalk =>
      obtain ⟨more, hmore, hsubset⟩ := ih hrest hwalk
      exact ⟨more, hmore, List.subset_cons_of_subset _ hsubset⟩

/-- A walk leaves an idle source behind. -/
theorem of_idle {source : Source} (hidle : world.Idle counts source)
    (hwalk : world.Walks entered (source :: rest) found last []) :
    ∃ further more, world.Agree counts entered further ∧
      world.Walks further rest more last [] ∧ more ⊆ found := by
  cases hwalk with
  | set hwalk => exact ⟨entered, _, .refl _, hwalk, List.subset_cons_self _ _⟩
  | seen _ hwalk => exact ⟨entered, found, .refl _, hwalk, List.Subset.refl _⟩
  | @enter _ _ _ _ _ decls imports id name _ hwalk =>
    obtain ⟨more, hmore, hsubset⟩ := hwalk.of_sets fun source hsource =>
      (hidle.exists_of_mem_sources hsource).imp fun _ => And.left
    exact ⟨id :: entered, more, ((Agree.refl entered).cons_left hidle).symm, hmore, hsubset⟩

/-- A walk may be taken up at the next source of account. -/
theorem of_append {idle : List Source} (hidle : ∀ source ∈ idle, world.Idle counts source)
    (hwalk : world.Walks entered (idle ++ rest) found last []) :
    ∃ further more, world.Agree counts entered further ∧
      world.Walks further rest more last [] ∧ more ⊆ found := by
  induction idle generalizing entered found with
  | nil => exact ⟨entered, found, .refl _, hwalk, List.Subset.refl _⟩
  | cons source idle ih =>
    obtain ⟨hsource, hrest⟩ := List.forall_mem_cons.mp hidle
    obtain ⟨further, more, hagree, hmore, hsubset⟩ := hwalk.of_idle hsource
    obtain ⟨further', more', hagree', hmore', hsubset'⟩ := ih hrest hmore
    exact ⟨further', more', hagree.trans hagree', hmore', List.Subset.trans hsubset' hsubset⟩

/-- A walk goes ahead to a source of account that is on another stack. -/
theorem advance {source : Source} (hsource : ¬ world.Idle counts source)
    (hbelow : world.Below counts (source :: rest) pending)
    (hagree : world.Agree counts entered' entered)
    (hwalk : world.Walks entered pending found last []) :
    ∃ further left more, world.Agree counts entered' further ∧ world.Below counts rest left ∧
      world.Walks further (source :: left) more last [] ∧ more ⊆ found := by
  obtain ⟨idle, left, rfl, hidle, hleft⟩ := hbelow.exists_append hsource
  obtain ⟨further, more, hfurther, hmore, hsubset⟩ := hwalk.of_append hidle
  exact ⟨further, left, more, hagree.trans hfurther, hleft, hmore, hsubset⟩

/-- What counts and is found by one walk is found by another that starts out with at
least the same sources of account. The induction is on the first walk; the second one
follows it from one source of account to the next. -/
theorem mem_of_below {ending : List Source}
    (hwalk : world.Walks entered pending found last ending) (hend : ending = [])
    (hwalk' : world.Walks entered' pending' found' last' [])
    (hbelow : world.Below counts pending pending') (hagree : world.Agree counts entered entered')
    {overloads : Overloads} (hcounts : counts overloads) (hfound : overloads ∈ found) :
    overloads ∈ found' := by
  induction hwalk generalizing entered' pending' found' with
  | refl => cases hfound
  | @set entered _ pending _ found first _ ih =>
    by_cases hidle : world.Idle counts (.set first)
    · rcases List.mem_cons.mp hfound with rfl | hmore
      · exact absurd hcounts hidle
      · exact ih hend hwalk' (hbelow.of_cons hidle) hagree hmore
    · obtain ⟨further, left, more, hfurther, hleft, hmore, hsubset⟩ :=
        hwalk'.advance hidle hbelow hagree
      cases hmore with
      | set hmore =>
        rcases List.mem_cons.mp hfound with rfl | hlater
        · exact hsubset List.mem_cons_self
        · exact hsubset (List.mem_cons_of_mem _ (ih hend hmore hleft hfurther hlater))
  | @seen entered _ pending _ found decls imports id name hid _ ih =>
    by_cases hidle : world.Idle counts (.scope decls imports id name)
    · exact ih hend hwalk' (hbelow.of_cons hidle) hagree hfound
    · obtain ⟨further, left, more, hfurther, hleft, hmore, hsubset⟩ :=
        hwalk'.advance hidle hbelow hagree
      cases hmore with
      | seen _ hmore => exact hsubset (ih hend hmore hleft hfurther hfound)
      | enter hnew _ => exact absurd ((hfurther id hidle).mp hid) hnew
  | @enter entered _ pending _ found decls imports id name hid _ ih =>
    by_cases hidle : world.Idle counts (.scope decls imports id name)
    · have hbarren : world.Barren counts id := hidle
      refine ih hend hwalk' ((hbelow.of_cons hidle).append_left fun source hsource => ?_)
        (hagree.cons_left hbarren) hfound
      obtain ⟨overloads, rfl, hnot⟩ := hbarren.exists_of_mem_sources hsource
      exact hnot
    · obtain ⟨further, left, more, hfurther, hleft, hmore, hsubset⟩ :=
        hwalk'.advance hidle hbelow hagree
      cases hmore with
      | seen hold _ => exact absurd ((hfurther id hidle).mpr hold) hid
      | enter _ hmore =>
        exact hsubset (ih hend hmore (hleft.append_same _) (hfurther.cons id) hfound)

end Walks

end Scoping.World
