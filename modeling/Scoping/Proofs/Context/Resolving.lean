import Scoping.Proofs.Context.ScopeOf
import Scoping.Visibility

/-!
What resolving clauses may change. A resolution marks its scope, works, and
records the clauses; the marks that were there before stay, and none is added.
The number of scopes that are not marked bounds how deep resolutions nest.
-/

namespace Scoping

open Context Resolve

/-- A property of contexts that includes soundness and that is kept up by whatever
leaves the clauses alone. -/
structure Program.Upholds (program : Program) (keeps : Context → Prop) : Prop where
  sound : ∀ context, keeps context → context.Sound program
  growing : ∀ context later, keeps context → context.Grows later → later.Sound program →
    later.visibility = context.visibility → keeps later

theorem Program.upholds_sound (program : Program) : program.Upholds (Context.Sound program) where
  sound _ hsound := hsound
  growing _ _ _ _ hlater _ := hlater

/-- What resolving clauses may change, while a property is kept up. -/
def Context.Resolving (keeps : Context → Prop) (context later : Context) : Prop :=
  context.Resolves later ∧ keeps later

instance Context.resolving_isTrans (keeps : Context → Prop) :
    IsTrans Context (Resolving keeps) :=
  ⟨fun _ _ _ hfirst hsecond => ⟨hfirst.1.trans hsecond.1, hsecond.2⟩⟩

variable {program : Program} {keeps : Context → Prop} {context : Context}

theorem Context.Answering.of_resolving {later : Context}
    (hchanges : Resolving keeps context later) : Answering keeps context later :=
  ⟨hchanges.1.toGrows, hchanges.2⟩

theorem Program.Upholds.resolving {later : Context} (hupholds : program.Upholds keeps)
    (hkeeps : keeps context) (hbuilding : program.Building context later) :
    Resolving keeps context later :=
  ⟨hbuilding.1.toResolves, hupholds.growing _ _ hkeeps hbuilding.1.toGrows hbuilding.2
    hbuilding.1.sameVisibility⟩

/-- Building scopes is part of resolving clauses. -/
theorem Resolve.Ends.resolving {α : Type} {action : Resolve α} {post : α → Context → Prop}
    (hends : Ends program.Building action context post) (hupholds : program.Upholds keeps)
    (hkeeps : keeps context) : Ends (Resolving keeps) action context post :=
  hends.widen fun _ => hupholds.resolving hkeeps

/-- A result that changes nothing. -/
theorem Resolve.Ends.same {α : Type} {value : α} {post : α → Context → Prop}
    (hkeeps : keeps context) (hpost : post value context) :
    Ends (Resolving keeps) (Pure.pure value) context post :=
  .pure ⟨.refl context, hkeeps⟩ hpost

namespace Context

/-- The context while the clauses of a scope are being resolved. -/
def beginning (context : Context) (id : ScopeId) : Context :=
  { context with visibility := context.visibility.begin id }

/-- The context once the clauses of a scope are resolved. -/
def finishing (context : Context) (id : ScopeId) (clauses : List Clause) : Context :=
  { context with visibility := context.visibility.finish id clauses }

instance decidableRunning (context : Context) (id : ScopeId) : Decidable (context.Running id) :=
  inferInstanceAs (Decidable (_ = _))

/-- The number of scopes that could still be marked. -/
def idle (program : Program) (context : Context) : Nat :=
  ((Finset.range (program.tree.size + 1)).filter fun index => ¬ context.Running ⟨index⟩).card

variable {id : ScopeId}

theorem running_beginning (hnone : context.visibility.progress? id = none) (other : ScopeId) :
    (context.beginning id).Running other ↔ other = id ∨ context.Running other := by
  by_cases heq : other = id
  · subst heq
    simp [Running, beginning, Memo.progress?_begin_self hnone]
  · simp [Running, beginning, Memo.progress?_begin_of_ne _ heq, heq]

/-- A resolution as a whole, from what it does between its two marks. -/
theorem Resolves.of_beginning {later : Context} {clauses : List Clause}
    (hnone : context.visibility.progress? id = none)
    (hresolves : (context.beginning id).Resolves later) :
    context.Resolves (later.finishing id clauses) where
  scopes := hresolves.scopes
  pois := hresolves.pois
  scopeOf := hresolves.scopeOf
  built := hresolves.built
  autoScope := hresolves.autoScope
  visibility other progress hprogress := by
    have hne : other ≠ id := by
      rintro rfl
      rw [hnone] at hprogress
      cases hprogress
    rw [finishing, Memo.progress?_finish_of_ne _ hne]
    apply hresolves.visibility other progress
    rw [beginning, Memo.progress?_begin_of_ne _ hne, hprogress]
  running other hrunning := by
    have hne : other ≠ id := by
      rintro rfl
      simp [Running, finishing, Memo.progress?_finish_self] at hrunning
    rw [Running, finishing, Memo.progress?_finish_of_ne _ hne] at hrunning
    exact ((running_beginning hnone other).mp (hresolves.running other hrunning)).resolve_left hne
  builtPois := hresolves.builtPois
  poiOf := hresolves.poiOf
  innermost := hresolves.innermost
  diagnostics := hresolves.diagnostics
  samePois := hresolves.samePois
  sameBuiltPois := hresolves.sameBuiltPois
  samePoiOf := hresolves.samePoiOf
  sameInnermost := hresolves.sameInnermost

theorem idle_congr {later : Context} (hrunning : ∀ id, later.Running id ↔ context.Running id) :
    later.idle program = context.idle program := by
  unfold idle
  congr 1
  exact Finset.filter_congr fun index _ => not_congr (hrunning ⟨index⟩)

theorem idle_lt (program : Program) (context : Context) : context.idle program < program.depth := by
  have hle := Finset.card_filter_le (Finset.range (program.tree.size + 1))
    fun index => ¬ context.Running ⟨index⟩
  rw [Finset.card_range] at hle
  exact Nat.lt_succ_of_le hle

namespace Sound

variable (hsound : context.Sound program)
include hsound

/-- Marking a scope leaves fewer to mark. -/
theorem idle_beginning_lt (hid : context.Has id)
    (hnone : context.visibility.progress? id = none) :
    (context.beginning id).idle program < context.idle program := by
  refine Finset.card_lt_card ((Finset.ssubset_iff_of_subset ?_).mpr ⟨id.index, ?_, ?_⟩)
  · intro index hindex
    rw [Finset.mem_filter] at hindex ⊢
    exact ⟨hindex.1, fun hrunning => hindex.2 ((running_beginning hnone _).mpr (.inr hrunning))⟩
  · rw [Finset.mem_filter, Finset.mem_range]
    exact ⟨Nat.lt_of_lt_of_le hid hsound.scopes_size_le, by simp [Running, hnone]⟩
  · rw [Finset.mem_filter]
    exact fun hindex => hindex.2 ((running_beginning hnone _).mpr (.inl rfl))

/-- A step that changes the clauses alone. -/
theorem of_visibility {visibility : Memo ScopeId (List Clause)}
    (hasked : ∀ id, (visibility.progress? id).isSome = true →
      context.Has id ∧ (context.scope id).hasImports = true)
    (hfits : ∀ id clauses, visibility.get? id = some clauses →
      ∀ clause ∈ clauses, context.Fits clause)
    (hmade : ∀ id clauses, visibility.get? id = some clauses →
      ∀ owner, (context.scope id).owner = some owner →
        program.MadeOf (program.tree.writtenClauses owner) clauses) :
    Sound program { context with visibility } where
  shapes id hid := (hsound.shapes id hid).congr rfl
  built := hsound.built
  scopeOf := hsound.scopeOf
  autoScope found hfound := by
    have hauto := hsound.autoScope found hfound
    cases found <;> exact hauto
  asked := hasked
  fits id clauses hclauses clause hclause :=
    have hclause := hfits id clauses hclauses clause hclause
    ⟨hclause.inner, hclause.whole⟩
  made := hmade

theorem beginning (hid : context.Has id) (himports : (context.scope id).hasImports = true) :
    (context.beginning id).Sound program := by
  refine hsound.of_visibility ?_ ?_ ?_
  · intro other hother
    rcases Memo.eq_or_isSome_progress?_of_begin hother with rfl | hknown
    · exact ⟨hid, himports⟩
    · exact hsound.asked other hknown
  · intro other clauses hclauses
    rw [Memo.get?_begin] at hclauses
    exact hsound.fits other clauses hclauses
  · intro other clauses hclauses
    rw [Memo.get?_begin] at hclauses
    exact hsound.made other clauses hclauses

theorem finishing {clauses : List Clause} (hid : context.Has id)
    (himports : (context.scope id).hasImports = true)
    (hfits : ∀ clause ∈ clauses, context.Fits clause)
    (hmade : ∀ owner, (context.scope id).owner = some owner →
      program.MadeOf (program.tree.writtenClauses owner) clauses) :
    (context.finishing id clauses).Sound program := by
  refine hsound.of_visibility ?_ ?_ ?_
  · intro other hother
    rcases Memo.eq_or_isSome_progress?_of_finish hother with rfl | hknown
    · exact ⟨hid, himports⟩
    · exact hsound.asked other hknown
  · intro other found hfound
    rcases Memo.eq_or_get?_of_finish hfound with ⟨rfl, rfl⟩ | hknown
    · exact hfits
    · exact hsound.fits other found hknown
  · intro other found hfound
    rcases Memo.eq_or_get?_of_finish hfound with ⟨rfl, rfl⟩ | hknown
    · exact hmade
    · exact hsound.made other found hknown

end Sound

end Context

end Scoping
