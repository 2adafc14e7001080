import Mathlib.Tactic
import Scoping.Context

/-!
How a context changes while questions are answered. Nothing worked out is ever
taken back: the arenas and the log of problems only get longer, and an answer in
a table stays what it is. Three relations say this of ever smaller steps; they
differ in the tables that a step leaves alone.
-/

namespace Scoping

namespace Memo

variable {κ α : Type} [DecidableEq κ]

theorem get?_eq_some_iff {memo : Memo κ α} {key : κ} {value : α} :
    memo.get? key = some value ↔ memo.progress? key = some (.done value) := by
  rw [get?, Option.bind_eq_some_iff]
  constructor
  · rintro ⟨progress, hprogress, hvalue⟩
    cases progress with
    | running => cases hvalue
    | done found => rw [hprogress, Option.some.inj hvalue]
  · intro hprogress
    exact ⟨_, hprogress, rfl⟩

theorem progress?_finish_self (memo : Memo κ α) (key : κ) (value : α) :
    (memo.finish key value).progress? key = some (.done value) := by
  simp [progress?, finish]

theorem progress?_finish_of_ne (memo : Memo κ α) {key other : κ} (ne : other ≠ key)
    (value : α) : (memo.finish key value).progress? other = memo.progress? other := by
  simp [progress?, finish, Assoc.get?_insert_of_ne _ ne]

theorem progress?_begin_self {memo : Memo κ α} {key : κ} (hnone : memo.progress? key = none) :
    (memo.begin key).progress? key = some .running := by
  rw [begin, isKnown, hnone, Option.isSome_none, if_neg Bool.false_ne_true]
  simp [progress?]

theorem progress?_begin_of_ne (memo : Memo κ α) {key other : κ} (ne : other ≠ key) :
    (memo.begin key).progress? other = memo.progress? other := by
  unfold begin
  split
  · rfl
  · simp [progress?, Assoc.get?_insert_of_ne _ ne]

/-- Marking a question does not put back one that is known. -/
theorem progress?_begin_of_eq_some {memo : Memo κ α} {key other : κ} {progress : Progress α}
    (hprogress : memo.progress? other = some progress) :
    (memo.begin key).progress? other = some progress := by
  by_cases heq : other = key
  · rw [begin, isKnown, ← heq, hprogress, Option.isSome_some, if_pos rfl, hprogress]
  · rw [progress?_begin_of_ne _ heq, hprogress]

/-- What a table knows once a question is marked is that question, or was known before. -/
theorem eq_or_isSome_progress?_of_begin {memo : Memo κ α} {key other : κ}
    (hsome : ((memo.begin key).progress? other).isSome = true) :
    other = key ∨ (memo.progress? other).isSome = true := by
  by_cases heq : other = key
  · exact .inl heq
  · exact .inr (progress?_begin_of_ne memo heq ▸ hsome)

theorem eq_or_isSome_progress?_of_finish {memo : Memo κ α} {key other : κ} {value : α}
    (hsome : ((memo.finish key value).progress? other).isSome = true) :
    other = key ∨ (memo.progress? other).isSome = true := by
  by_cases heq : other = key
  · exact .inl heq
  · exact .inr (progress?_finish_of_ne memo heq value ▸ hsome)

/-- What a table answers once an answer is recorded is that one, or was there before. -/
theorem eq_or_get?_of_finish {memo : Memo κ α} {key other : κ} {value found : α}
    (hfound : (memo.finish key value).get? other = some found) :
    other = key ∧ found = value ∨ memo.get? other = some found := by
  by_cases heq : other = key
  · subst heq
    exact .inl ⟨rfl, Option.some.inj (hfound.symm.trans (get?_finish_self _ _ _))⟩
  · exact .inr (get?_finish_of_ne memo heq value ▸ hfound)

theorem isSome_progress?_begin {memo : Memo κ α} {key other : κ}
    (hsome : (memo.progress? other).isSome = true) :
    ((memo.begin key).progress? other).isSome = true := by
  obtain ⟨progress, hprogress⟩ := Option.isSome_iff_exists.mp hsome
  rw [progress?_begin_of_eq_some hprogress, Option.isSome_some]

/-- A table in which every answer of another is one. -/
def Extends (later memo : Memo κ α) : Prop :=
  ∀ key value, memo.get? key = some value → later.get? key = some value

theorem Extends.refl (memo : Memo κ α) : memo.Extends memo := fun _ _ hvalue => hvalue

theorem Extends.trans {last later memo : Memo κ α} (hlast : last.Extends later)
    (hlater : later.Extends memo) : last.Extends memo :=
  fun key value hvalue => hlast key value (hlater key value hvalue)

/-- Answering a question takes no answer back, unless it had another one. -/
theorem extends_finish {memo : Memo κ α} {key : κ} {value : α}
    (hknown : ∀ found, memo.get? key = some found → found = value) :
    (memo.finish key value).Extends memo := by
  intro other found hfound
  by_cases heq : other = key
  · subst heq
    rw [hknown found hfound, get?_finish_self]
  · rw [get?_finish_of_ne _ heq, hfound]

end Memo

namespace Context

/-- Whether a handle is one of this context. -/
def Has (context : Context) (id : ScopeId) : Prop := id.index < context.scopes.size

instance decidableHas (context : Context) (id : ScopeId) : Decidable (context.Has id) :=
  inferInstanceAs (Decidable (_ < _))

theorem has_iff {context : Context} {id : ScopeId} :
    context.Has id ↔ ∃ scope, context.scope? id = some scope :=
  ⟨fun hbound => ⟨_, Array.getElem?_eq_getElem hbound⟩,
    fun ⟨_, hscope⟩ => (Array.getElem?_eq_some_iff.mp hscope).1⟩

theorem Has.scope? {context : Context} {id : ScopeId} (hid : context.Has id) :
    context.scope? id = some (context.scope id) := by
  obtain ⟨scope, hscope⟩ := has_iff.mp hid
  rw [Context.scope, hscope, Option.getD_some]

theorem scope_eq_of_scope? {context : Context} {id : ScopeId} {scope : Scope}
    (hscope : context.scope? id = some scope) : context.scope id = scope := by
  rw [Context.scope, hscope, Option.getD_some]

/-- A foreign handle has no scopes around it. -/
theorem has_of_mem_enclosing {context : Context} {id outer : ScopeId}
    (houter : outer ∈ (context.scope id).enclosing) : context.Has id := by
  by_contra hnot
  rw [Context.scope, scope?, Array.getElem?_eq_none (Nat.le_of_not_lt hnot)] at houter
  cases houter

/-- A scope stays what it is while scopes are added. -/
theorem scope?_of_prefix {context later : Context}
    (hscopes : context.scopes.toList <+: later.scopes.toList) {id : ScopeId} {scope : Scope}
    (hscope : context.scope? id = some scope) : later.scope? id = some scope := by
  have hprefix := List.prefix_iff_getElem?.mp hscopes
  obtain ⟨hbound, hvalue⟩ := Array.getElem?_eq_some_iff.mp hscope
  have := hprefix id.index (by simpa using hbound)
  rw [Context.scope?, ← Array.getElem?_toList, this]
  simpa using hvalue

/-- The clauses of a scope as far as they have been worked out. -/
def clausesAt (context : Context) (id : ScopeId) : List Clause :=
  (context.visibility.get? id).getD []

/-- A clause is seen only where the clauses of the scope have been worked out. -/
theorem get?_of_mem_clausesAt {context : Context} {id : ScopeId} {clause : Clause}
    (hclause : clause ∈ context.clausesAt id) :
    context.visibility.get? id = some (context.clausesAt id) := by
  unfold clausesAt at hclause ⊢
  cases hknown : context.visibility.get? id with
  | none =>
    rw [hknown] at hclause
    cases hclause
  | some clauses => rfl

/-- Whether the clauses of a scope are being resolved. -/
def Running (context : Context) (id : ScopeId) : Prop :=
  context.visibility.progress? id = some .running

/-- Nothing that was worked out is taken back, and no resolution is left open
that was not open before. -/
structure Grows (context later : Context) : Prop where
  scopes : context.scopes.toList <+: later.scopes.toList
  pois : context.pois.toList <+: later.pois.toList
  scopeOf : later.scopeOf.Extends context.scopeOf
  built : later.built.Extends context.built
  autoScope : ∀ found, context.autoScope = some found → later.autoScope = some found
  visibility : ∀ id progress, context.visibility.progress? id = some progress →
    later.visibility.progress? id = some progress
  running : ∀ id, later.Running id → context.Running id
  builtPois : later.builtPois.Extends context.builtPois
  poiOf : later.poiOf.Extends context.poiOf
  innermost : later.innermost.Extends context.innermost
  diagnostics : context.diagnostics.reported <+: later.diagnostics.reported

/-- A step that leaves the instantiation points alone. -/
structure SameLinks (context later : Context) : Prop where
  pois : later.pois = context.pois
  builtPois : later.builtPois = context.builtPois
  poiOf : later.poiOf = context.poiOf

/-- A step that works out scopes and clauses only. -/
structure Resolves (context later : Context) : Prop extends context.Grows later where
  samePois : later.pois = context.pois
  sameBuiltPois : later.builtPois = context.builtPois
  samePoiOf : later.poiOf = context.poiOf
  sameInnermost : later.innermost = context.innermost

/-- A step that builds scopes and reports problems only. -/
structure Builds (context later : Context) : Prop extends context.Resolves later where
  sameVisibility : later.visibility = context.visibility

namespace Grows

theorem refl (context : Context) : context.Grows context where
  scopes := List.prefix_rfl
  pois := List.prefix_rfl
  scopeOf := .refl _
  built := .refl _
  autoScope _ hfound := hfound
  visibility _ _ hprogress := hprogress
  running _ hrunning := hrunning
  builtPois := .refl _
  poiOf := .refl _
  innermost := .refl _
  diagnostics := List.prefix_rfl

theorem trans {context middle later : Context} (hfirst : context.Grows middle)
    (hsecond : middle.Grows later) : context.Grows later where
  scopes := hfirst.scopes.trans hsecond.scopes
  pois := hfirst.pois.trans hsecond.pois
  scopeOf := hsecond.scopeOf.trans hfirst.scopeOf
  built := hsecond.built.trans hfirst.built
  autoScope found hfound := hsecond.autoScope found (hfirst.autoScope found hfound)
  visibility id progress hprogress :=
    hsecond.visibility id progress (hfirst.visibility id progress hprogress)
  running id hrunning := hfirst.running id (hsecond.running id hrunning)
  builtPois := hsecond.builtPois.trans hfirst.builtPois
  poiOf := hsecond.poiOf.trans hfirst.poiOf
  innermost := hsecond.innermost.trans hfirst.innermost
  diagnostics := hfirst.diagnostics.trans hsecond.diagnostics

variable {context later : Context} (hgrows : context.Grows later)
include hgrows

theorem scope? {id : ScopeId} {scope : Scope} (hscope : context.scope? id = some scope) :
    later.scope? id = some scope := scope?_of_prefix hgrows.scopes hscope

theorem has {id : ScopeId} (hid : context.Has id) : later.Has id := by
  obtain ⟨scope, hscope⟩ := has_iff.mp hid
  exact has_iff.mpr ⟨scope, hgrows.scope? hscope⟩

theorem scope {id : ScopeId} (hid : context.Has id) : later.scope id = context.scope id :=
  scope_eq_of_scope? (hgrows.scope? hid.scope?)

theorem outward {id : ScopeId} (hid : context.Has id) :
    later.outward id = context.outward id := by
  rw [Context.outward, Context.outward, hgrows.scope hid]

theorem running_iff (id : ScopeId) : later.Running id ↔ context.Running id :=
  ⟨hgrows.running id, hgrows.visibility id _⟩

theorem poi {link : PoiId} (hlink : link.index < context.pois.size) :
    later.poi link = context.poi link := by
  have hsame := List.prefix_iff_getElem?.mp hgrows.pois link.index (by simpa using hlink)
  rw [Context.poi, Context.poi, poi?, poi?, ← Array.getElem?_toList, hsame,
    Array.getElem?_eq_getElem hlink, Array.getElem_toList]

/-- Clauses that have been worked out are final. -/
theorem clausesAt {id : ScopeId} {clauses : List Clause}
    (hclauses : context.visibility.get? id = some clauses) : later.clausesAt id = clauses := by
  rw [Memo.get?_eq_some_iff] at hclauses
  rw [Context.clausesAt, Memo.get?_eq_some_iff.mpr (hgrows.visibility id _ hclauses),
    Option.getD_some]

theorem clausesAt_of_mem {id : ScopeId} {clause : Clause}
    (hclause : clause ∈ context.clausesAt id) : later.clausesAt id = context.clausesAt id :=
  hgrows.clausesAt (get?_of_mem_clausesAt hclause)

end Grows

namespace Resolves

theorem refl (context : Context) : context.Resolves context :=
  ⟨.refl context, rfl, rfl, rfl, rfl⟩

theorem trans {context middle later : Context} (hfirst : context.Resolves middle)
    (hsecond : middle.Resolves later) : context.Resolves later where
  toGrows := hfirst.toGrows.trans hsecond.toGrows
  samePois := hsecond.samePois.trans hfirst.samePois
  sameBuiltPois := hsecond.sameBuiltPois.trans hfirst.sameBuiltPois
  samePoiOf := hsecond.samePoiOf.trans hfirst.samePoiOf
  sameInnermost := hsecond.sameInnermost.trans hfirst.sameInnermost

end Resolves

theorem Resolves.sameLinks {context later : Context} (hresolves : context.Resolves later) :
    context.SameLinks later :=
  ⟨hresolves.samePois, hresolves.sameBuiltPois, hresolves.samePoiOf⟩

namespace Builds

theorem refl (context : Context) : context.Builds context := ⟨.refl context, rfl⟩

theorem trans {context middle later : Context} (hfirst : context.Builds middle)
    (hsecond : middle.Builds later) : context.Builds later where
  toResolves := hfirst.toResolves.trans hsecond.toResolves
  sameVisibility := hsecond.sameVisibility.trans hfirst.sameVisibility

/-- Only the tables of the scope builder and the log need a look. -/
theorem of_tables {context later : Context}
    (hscopes : context.scopes.toList <+: later.scopes.toList)
    (hscopeOf : later.scopeOf.Extends context.scopeOf)
    (hbuilt : later.built.Extends context.built)
    (hauto : ∀ found, context.autoScope = some found → later.autoScope = some found)
    (hdiagnostics : context.diagnostics.reported <+: later.diagnostics.reported)
    (hpois : later.pois = context.pois) (hbuiltPois : later.builtPois = context.builtPois)
    (hpoiOf : later.poiOf = context.poiOf) (hinnermost : later.innermost = context.innermost)
    (hvisibility : later.visibility = context.visibility) : context.Builds later where
  scopes := hscopes
  pois := hpois ▸ List.prefix_rfl
  scopeOf := hscopeOf
  built := hbuilt
  autoScope := hauto
  visibility _ _ hprogress := hvisibility ▸ hprogress
  running _ hrunning := by rwa [Running, hvisibility] at hrunning
  builtPois := hbuiltPois ▸ .refl _
  poiOf := hpoiOf ▸ .refl _
  innermost := hinnermost ▸ .refl _
  diagnostics := hdiagnostics
  samePois := hpois
  sameBuiltPois := hbuiltPois
  samePoiOf := hpoiOf
  sameInnermost := hinnermost
  sameVisibility := hvisibility

end Builds

/-- What may happen to a context between two questions, while a property is kept up. -/
def Answering (keeps : Context → Prop) (context later : Context) : Prop :=
  context.Grows later ∧ keeps later

instance answering_isTrans (keeps : Context → Prop) : IsTrans Context (Answering keeps) :=
  ⟨fun _ _ _ hfirst hsecond => ⟨hfirst.1.trans hsecond.1, hsecond.2⟩⟩

end Context

end Scoping
