import Mathlib.Tactic
import Scoping.Clause

/-!
What single clauses do to a name: let it through, hide it, rename it, or make it
stand for their target.
-/

namespace Scoping

namespace Clause

variable {clause : Clause} {name : Name}

theorem actual?_eq_none_iff :
    clause.actual? name = none ↔ ∀ pair ∈ clause.names, pair.2 ≠ name := by
  simp [actual?]

theorem exists_of_actual?_eq_some {actual : Name} (hactual : clause.actual? name = some actual) :
    ∃ pair ∈ clause.names, pair.2 = name ∧ pair.1 = actual := by
  obtain ⟨pair, hfind, rfl⟩ := Option.map_eq_some_iff.mp hactual
  have hvisible := List.find?_some hfind
  exact ⟨pair, List.mem_of_find?_eq_some hfind, of_decide_eq_true hvisible, rfl⟩

theorem exists_of_route_eq_symbol (hroute : clause.route name = .symbol) :
    clause.kind = .symbolOnly ∧ ∃ pair ∈ clause.names, pair.2 = name := by
  unfold route at hroute
  cases hactual : clause.actual? name with
  | none =>
    rw [hactual] at hroute
    cases hkind : clause.kind <;> simp [hkind] at hroute
  | some actual =>
    obtain ⟨pair, hpair, heq, -⟩ := exists_of_actual?_eq_some hactual
    rw [hactual] at hroute
    cases hkind : clause.kind with
    | symbolOnly => exact ⟨rfl, pair, hpair, heq⟩
    | _ => simp [hkind] at hroute

/-- Whether a clause lets a name through as it is. -/
def Passes (clause : Clause) (name : Name) : Prop :=
  match clause.kind with
  | .symbolOnly => False
  | .allContents => True
  | .onlyContents => ∃ pair ∈ clause.names, pair.2 = name
  | .contentsExcept => ∀ pair ∈ clause.names, pair.2 ≠ name

/-- What a clause makes of a name in the contents of its target. -/
inductive Carries (clause : Clause) : Name → Name → Prop
  | all {name : Name} (hkind : clause.kind = .allContents) : Carries clause name name
  | except {name : Name} (hkind : clause.kind = .contentsExcept)
    (hunlisted : ∀ pair ∈ clause.names, pair.2 ≠ name) : Carries clause name name
  /-- The first pair that is visible as the name counts. -/
  | only {visible actual : Name} {before after : List (Name × Name)}
    (hkind : clause.kind = .onlyContents) (hnames : clause.names = before ++ (actual, visible) :: after)
    (hfirst : ∀ pair ∈ before, pair.2 ≠ visible) : Carries clause visible actual

theorem actual?_eq_some_iff {actual : Name} :
    clause.actual? name = some actual ↔ ∃ before after,
      clause.names = before ++ (actual, name) :: after ∧ ∀ pair ∈ before, pair.2 ≠ name := by
  rw [actual?, Option.map_eq_some_iff]
  simp only [List.find?_eq_some_iff_append]
  constructor
  · rintro ⟨⟨_, _⟩, ⟨hvisible, before, after, hnames, hbefore⟩, rfl⟩
    obtain rfl := of_decide_eq_true hvisible
    exact ⟨before, after, hnames, fun pair hpair => by simpa using hbefore pair hpair⟩
  · rintro ⟨before, after, hnames, hbefore⟩
    exact ⟨_, ⟨decide_eq_true rfl, before, after, hnames, fun pair hpair => by
      simpa using hbefore pair hpair⟩, rfl⟩

theorem carries_of_route {actual : Name} (hwhole : clause.kind = .allContents → clause.names = [])
    (hroute : clause.route name = .contents actual) : clause.Carries name actual := by
  unfold route at hroute
  cases hkind : clause.kind with
  | symbolOnly => cases hactual : clause.actual? name <;> simp [hkind, hactual] at hroute
  | allContents =>
    have hnone : clause.actual? name = none := by simp [actual?_eq_none_iff, hwhole hkind]
    obtain rfl : name = actual := by simpa [hkind, hnone] using hroute
    exact .all hkind
  | contentsExcept =>
    cases hactual : clause.actual? name with
    | none =>
      obtain rfl : name = actual := by simpa [hkind, hactual] using hroute
      exact .except hkind (actual?_eq_none_iff.mp hactual)
    | some => simp [hkind, hactual] at hroute
  | onlyContents =>
    cases hactual : clause.actual? name with
    | none => simp [hkind, hactual] at hroute
    | some found =>
      obtain rfl : found = actual := by simpa [hkind, hactual] using hroute
      obtain ⟨before, after, hnames, hfirst⟩ := actual?_eq_some_iff.mp hactual
      exact .only hkind hnames hfirst

theorem route_of_allContents (hkind : clause.kind = .allContents) (hnames : clause.names = []) :
    clause.route name = .contents name := by
  simp [route, hkind, actual?, hnames]

/-- A clause that renames nothing to a name lets it through or hides it. -/
theorem route_of_unrenamed (hwhole : clause.kind = .allContents → clause.names = [])
    (hpairs : ∀ pair ∈ clause.names, pair.2 = name →
      clause.kind ≠ .symbolOnly ∧ (clause.kind = .onlyContents → pair.1 = name)) :
    clause.Passes name ∧ clause.route name = .contents name ∨
      ¬ clause.Passes name ∧ clause.route name = .blocked := by
  unfold Passes route
  cases hkind : clause.kind with
  | symbolOnly =>
    have hnone : clause.actual? name = none :=
      actual?_eq_none_iff.mpr fun pair hpair heq => (hpairs pair hpair heq).1 hkind
    simp [hnone]
  | allContents =>
    have hnone : clause.actual? name = none := by simp [actual?_eq_none_iff, hwhole hkind]
    simp [hnone]
  | onlyContents =>
    cases hactual : clause.actual? name with
    | none =>
      rw [actual?_eq_none_iff] at hactual
      exact .inr ⟨fun ⟨pair, hpair, heq⟩ => hactual pair hpair heq, rfl⟩
    | some actual =>
      obtain ⟨pair, hpair, heq, rfl⟩ := exists_of_actual?_eq_some hactual
      exact .inl ⟨⟨pair, hpair, heq⟩, congrArg Route.contents ((hpairs pair hpair heq).2 hkind)⟩
  | contentsExcept =>
    cases hactual : clause.actual? name with
    | none => exact .inl ⟨actual?_eq_none_iff.mp hactual, rfl⟩
    | some actual =>
      obtain ⟨pair, hpair, heq, -⟩ := exists_of_actual?_eq_some hactual
      exact .inr ⟨fun hall => hall pair hpair heq, rfl⟩

end Clause

end Scoping
