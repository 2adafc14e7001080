import Scoping.Proofs.Lookup.Search
import Scoping.Proofs.Relabeling.Program

/-!
Building scopes and searching under a relabeling. What a computation does about a program
in a context, the same computation does about the relabeled program in the relabeled
context: it ends with the relabeled result in the relabeled context, or neither ends.
-/

namespace Scoping

open Context

variable {ρ : Relabeling} {α α' β β' : Type}

namespace Relabeling

variable (ρ) (context : Context)

@[simp]
theorem owner_scope (scope : Scope) : (ρ.scope scope).owner = scope.owner := rfl

@[simp]
theorem built_context : (ρ.context context).built = context.built := rfl

@[simp]
theorem scopeOf_context : (ρ.context context).scopeOf = context.scopeOf := rfl

@[simp]
theorem autoScope_context : (ρ.context context).autoScope = context.autoScope := rfl

@[simp]
theorem scope_context (id : ScopeId) :
    (ρ.context context).scope id = ρ.scope (context.scope id) := by
  show (((context.scopes.map ρ.scope)[id.index]?).getD default : Scope) =
    ρ.scope (context.scopes[id.index]?.getD default)
  rw [Array.getElem?_map]
  cases context.scopes[id.index]? <;> rfl

theorem scope?_context (id : ScopeId) :
    (ρ.context context).scope? id = (context.scope? id).map ρ.scope := Array.getElem?_map

@[simp]
theorem scopeCount_context : (ρ.context context).scopeCount = context.scopeCount :=
  Array.size_map

@[simp]
theorem outward_context (id : ScopeId) : (ρ.context context).outward id = context.outward id := by
  rw [outward, outward, scope_context]
  rfl

@[simp]
theorem firstModule?_context (ids : List ScopeId) :
    (ρ.context context).firstModule? ids = context.firstModule? ids := by
  rw [firstModule?, firstModule?]
  exact congrArg (List.find? · ids) (funext fun id => by rw [scope_context]; rfl)

@[simp]
theorem moduleOf?_context (id : ScopeId) :
    (ρ.context context).moduleOf? id = context.moduleOf? id := by
  rw [moduleOf?, moduleOf?, outward_context, firstModule?_context]

@[simp]
theorem superOf?_context (id : ScopeId) :
    (ρ.context context).superOf? id = context.superOf? id := by
  rw [superOf?, superOf?, firstModule?_context, scope_context]
  rfl

@[simp]
theorem upToModule_context (ids : List ScopeId) :
    (ρ.context context).upToModule ids = context.upToModule ids := by
  induction ids with
  | nil => rfl
  | cons outer rest ih =>
    rw [upToModule, upToModule, ih, scope_context]
    rfl

@[simp]
theorem climb_context (id : ScopeId) : (ρ.context context).climb id = context.climb id := by
  rw [climb, climb, scope_context, upToModule_context]
  rfl

theorem context_empty : ρ.context .empty = .empty := by
  simp [Relabeling.context, empty, Memo.bimap, Memo.empty, Assoc.bimap, Assoc.empty]

end Relabeling

namespace Resolve

/-- Whether a computation does in a relabeled context what another one does in the context
itself; `image` says what becomes of the result. -/
def Relabels (ρ : Relabeling) (image : α → α') (action : Resolve α) (action' : Resolve α') : Prop :=
  ∀ context, action' (ρ.context context) = (action context).map (Prod.map image ρ.context)

namespace Relabels

variable {image : α → α'} {image' : β → β'}

theorem pure {value : α} {value' : α'} (hvalue : value' = image value) :
    Relabels ρ image (Pure.pure value) (Pure.pure value') := by
  intro context
  rw [hvalue]
  rfl

theorem bind {first : Resolve α} {first' : Resolve α'} {next : α → Resolve β}
    {next' : α' → Resolve β'} (hfirst : Relabels ρ image first first')
    (hnext : ∀ value, Relabels ρ image' (next value) (next' (image value))) :
    Relabels ρ image' (first >>= next) (first' >>= next') := by
  intro context
  show (first' (ρ.context context)).bind _ = ((first context).bind _).map _
  rw [hfirst]
  cases first context with
  | none => rfl
  | some result => exact hnext result.1 result.2

theorem map {action : Resolve α} {action' : Resolve α'} {f : α → β} {f' : α' → β'}
    (haction : Relabels ρ image action action')
    (hf : ∀ value, f' (image value) = image' (f value)) :
    Relabels ρ image' (f <$> action) (f' <$> action') := by
  rw [map_eq_pure_bind, map_eq_pure_bind]
  exact haction.bind fun value => .pure (hf value)

theorem get_bind {next : Context → Resolve β} {next' : Context → Resolve β'}
    (hnext : ∀ context, Relabels ρ image' (next context) (next' (ρ.context context))) :
    Relabels ρ image' (get >>= next) (get >>= next') :=
  fun context => hnext context context

theorem scope_bind {id : ScopeId} {next : Scope → Resolve β} {next' : Scope → Resolve β'}
    (hnext : ∀ scope, Relabels ρ image' (next scope) (next' (ρ.scope scope))) :
    Relabels ρ image' (Resolve.scope id >>= next) (Resolve.scope id >>= next') := by
  intro context
  show next' ((ρ.context context).scope id) (ρ.context context) = _
  rw [ρ.scope_context]
  exact hnext (context.scope id) context

theorem modifying {f f' : Context → Context}
    (hf : ∀ context, f' (ρ.context context) = ρ.context (f context)) :
    Relabels ρ id (modify f : Resolve PUnit) (modify f') :=
  fun context => congrArg (fun later => some (PUnit.unit, later)) (hf context)

/-- A step that writes to the context and then returns. -/
theorem record {f f' : Context → Context} {value : α} {value' : α'}
    (hf : ∀ context, f' (ρ.context context) = ρ.context (f context))
    (hvalue : value' = image value) :
    Relabels ρ image (do modify f; return value) (do modify f'; return value') :=
  Relabels.bind (modifying hf) fun _ => .pure hvalue

theorem foldlM {γ : Type} {step : α → γ → Resolve α} {step' : α' → γ → Resolve α'}
    (hstep : ∀ value entry, Relabels ρ image (step value entry) (step' (image value) entry))
    (entries : List γ) (value : α) :
    Relabels ρ image (entries.foldlM step value) (entries.foldlM step' (image value)) := by
  induction entries generalizing value with
  | nil => exact .pure rfl
  | cons entry rest ih =>
    rw [List.foldlM_cons, List.foldlM_cons]
    exact (hstep value entry).bind ih

theorem failure : Relabels ρ image failure failure := fun _ => rfl

theorem report (diagnostic : Diagnostic) :
    Relabels ρ id (Resolve.report diagnostic) (Resolve.report diagnostic) :=
  .modifying fun _ => rfl

theorem addScope (scope : Scope) :
    Relabels ρ id (Resolve.addScope scope) (Resolve.addScope (ρ.scope scope)) := by
  intro context
  have hscopes : (context.scopes.map ρ.scope).push (ρ.scope scope) =
      (context.scopes.push scope).map ρ.scope := Array.map_push.symm
  show some ((⟨(context.scopes.map ρ.scope).size⟩ : ScopeId),
    { ρ.context context with scopes := (context.scopes.map ρ.scope).push (ρ.scope scope) }) = _
  rw [hscopes, Array.size_map]
  rfl

end Relabels

end Resolve

open Resolve

/-- The same for searches, which enter the same scopes. -/
def Search.Relabels (ρ : Relabeling) (image : α → α') (search : Search α) (search' : Search α') :
    Prop :=
  ∀ entered, Resolve.Relabels ρ (Prod.map image id) (search entered) (search' entered)

namespace Search.Relabels

variable {image : α → α'} {image' : β → β'}

theorem pure {value : α} {value' : α'} (hvalue : value' = image value) :
    Relabels ρ image (Pure.pure value) (Pure.pure value') :=
  fun _ => Resolve.Relabels.pure (by rw [hvalue]; rfl)

theorem bind {first : Search α} {first' : Search α'} {next : α → Search β}
    {next' : α' → Search β'} (hfirst : Relabels ρ image first first')
    (hnext : ∀ value, Relabels ρ image' (next value) (next' (image value))) :
    Relabels ρ image' (first >>= next) (first' >>= next') := by
  intro entered
  rw [bind_run, bind_run]
  exact (hfirst entered).bind fun result => hnext result.1 result.2

theorem lift_bind {first : Resolve α} {first' : Resolve α'} {next : α → Search β}
    {next' : α' → Search β'} (hfirst : Resolve.Relabels ρ image first first')
    (hnext : ∀ value, Relabels ρ image' (next value) (next' (image value))) :
    Relabels ρ image' ((liftM first : Search α) >>= next)
      ((liftM first' : Search α') >>= next') := by
  intro entered
  rw [lift_bind_run, lift_bind_run]
  exact hfirst.bind fun value => hnext value entered

theorem scope_bind {id : ScopeId} {next : Scope → Search β} {next' : Scope → Search β'}
    (hnext : ∀ scope, Relabels ρ image' (next scope) (next' (ρ.scope scope))) :
    Relabels ρ image' ((liftM (Resolve.scope id) : Search Scope) >>= next)
      ((liftM (Resolve.scope id) : Search Scope) >>= next') := by
  intro entered
  rw [lift_bind_run, lift_bind_run]
  exact .scope_bind fun scope => hnext scope entered

theorem enter (id : ScopeId) {inside inside' : Search (List Overloads)}
    (hinside : Relabels ρ ρ.sets inside inside') :
    Relabels ρ ρ.sets (Search.enter id inside) (Search.enter id inside') := by
  intro entered
  rw [enter_run, enter_run]
  split
  · exact .pure rfl
  · exact hinside (id :: entered)

theorem collect {innermost : Bool} {searches searches' : List (Search (List Overloads))}
    (hall : List.Forall₂ (Relabels ρ ρ.sets) searches searches') :
    Relabels ρ ρ.sets (Search.collect innermost searches) (Search.collect innermost searches') := by
  induction hall with
  | nil => exact .pure rfl
  | cons hsearch _ ih =>
    rw [Search.collect, Search.collect]
    refine hsearch.bind fun found => ?_
    rw [List.isEmpty_map]
    split
    · exact .pure rfl
    · exact ih.bind fun more => .pure (List.map_append ..).symm

theorem gate {search search' : Search (List Overloads)} (condition : Bool)
    (hsearch : Relabels ρ ρ.sets search search') :
    Relabels ρ ρ.sets (Search.gate condition search) (Search.gate condition search') := by
  cases condition with
  | false => exact .pure rfl
  | true => exact hsearch

theorem declarations (id : ScopeId) (name : Name) :
    Relabels ρ ρ.sets (Search.declarations id name) (Search.declarations id (ρ.name name)) :=
  .scope_bind fun scope => .pure (ρ.lookup_scope scope name)

theorem throughClauses {innermost : Bool}
    {contents contents' : ScopeId → Name → Search (List Overloads)}
    (hcontents : ∀ target actual, Relabels ρ ρ.sets (contents target actual)
      (contents' target (ρ.name actual))) (name : Name) (clauses : List Clause) :
    Relabels ρ (Prod.map id ρ.sets) (Search.throughClauses innermost contents name clauses)
      (Search.throughClauses innermost contents' (ρ.name name) (clauses.map ρ.clause)) := by
  induction clauses with
  | nil => exact .pure rfl
  | cons clause rest ih =>
    rw [List.map_cons, Search.throughClauses, Search.throughClauses, ρ.route_clause]
    cases clause.route name with
    | blocked => exact ih
    | symbol =>
      refine .scope_bind fun scope => ?_
      rw [ρ.owner_scope]
      cases scope.owner with
      | none => exact ih
      | some owner => exact .pure rfl
    | contents actual =>
      refine (hcontents clause.target actual).bind fun found => ?_
      rw [List.isEmpty_map]
      split
      · exact .pure rfl
      · exact ih.bind fun result => .pure (by simp [Prod.map])

/-- A search for an answer by yes or no. -/
theorem anyM {test test' : α → Search Bool} {relabel : α → α}
    (htest : ∀ candidate, Relabels ρ id (test candidate) (test' (relabel candidate)))
    (candidates : List α) :
    Relabels ρ id (candidates.anyM test) ((candidates.map relabel).anyM test') := by
  induction candidates with
  | nil => exact .pure rfl
  | cons candidate rest ih =>
    rw [List.map_cons, List.anyM, List.anyM]
    refine (htest candidate).bind fun answer => ?_
    cases answer with
    | true => exact .pure rfl
    | false => exact ih

end Search.Relabels

namespace Program

variable {program program' : Program} (hrelabeled : program.Relabeled ρ program')
include hrelabeled

theorem rootScope_relabels : Relabels ρ id program.rootScope program'.rootScope := by
  unfold rootScope
  refine .get_bind fun context => ?_
  rw [ρ.built_context]
  cases context.built.get? none with
  | some root => exact .pure rfl
  | none =>
    dsimp only
    rw [hrelabeled.builtins, ← ρ.scope_root]
    refine (Relabels.addScope _).bind fun root => ?_
    exact .record (fun _ => rfl) rfl

theorem standsFor_relabels (node : NodeId) :
    Relabels ρ id (program.standsFor node) (program'.standsFor node) := by
  unfold standsFor
  rw [hrelabeled.tree.tag?, hrelabeled.tree.body?]
  split
  · split
    · exact .pure rfl
    · exact (Relabels.report _).bind fun _ => .pure rfl
  · exact .pure rfl

theorem buildScope_relabels (node : NodeId) {around around' : Resolve ScopeId}
    (haround : Relabels ρ id around around') :
    Relabels ρ id (program.buildScope node around) (program'.buildScope node around') := by
  unfold buildScope
  refine .get_bind fun context => ?_
  rw [ρ.built_context]
  cases context.built.get? (some node) with
  | some scope => exact .pure rfl
  | none =>
    refine haround.bind fun parent => .get_bind fun context => ?_
    dsimp only
    rw [hrelabeled.scopeFor, ρ.outward_context]
    refine (Relabels.addScope _).bind fun scope => ?_
    exact .record (fun _ => rfl) rfl

/-- The step of a climb to what is around a node. -/
theorem around_relabels (node : NodeId) {climb climb' : NodeId → Resolve ScopeId}
    (hclimb : ∀ parent, Relabels ρ id (climb parent) (climb' parent)) :
    Relabels ρ id
      (match program.tree.parent? node with
        | some parent => climb parent
        | none => program.rootScope)
      (match program.tree.parent? node with
        | some parent => climb' parent
        | none => program'.rootScope) := by
  cases program.tree.parent? node with
  | some parent => exact hclimb parent
  | none => exact rootScope_relabels hrelabeled

theorem climbScopeOf_relabels (fuel : Nat) (node : NodeId) :
    Relabels ρ id (program.climbScopeOf fuel node) (program'.climbScopeOf fuel node) := by
  induction fuel generalizing node with
  | zero => exact .failure
  | succ fuel ih =>
    rw [climbScopeOf, climbScopeOf]
    refine .get_bind fun context => ?_
    rw [ρ.scopeOf_context]
    cases context.scopeOf.get? node with
    | some scope => exact .pure rfl
    | none =>
      refine (standsFor_relabels hrelabeled node).bind fun inner => ?_
      dsimp only [id]
      rw [hrelabeled.tree.parent?, hrelabeled.opensScope]
      have haround := around_relabels hrelabeled inner ih
      split
      · refine (buildScope_relabels hrelabeled inner haround).bind fun scope => ?_
        exact .record (fun _ => rfl) rfl
      · refine haround.bind fun scope => ?_
        exact .record (fun _ => rfl) rfl

theorem scopeOf_relabels (node : NodeId) :
    Relabels ρ id (program.scopeOf node) (program'.scopeOf node) := by
  rw [scopeOf, scopeOf, hrelabeled.depth]
  exact climbScopeOf_relabels hrelabeled program.depth node

theorem autoScope_relabels : Relabels ρ id program.autoScope program'.autoScope := by
  unfold autoScope
  refine .get_bind fun context => ?_
  rw [ρ.autoScope_context]
  cases context.autoScope with
  | some known => exact .pure rfl
  | none =>
    dsimp only
    rw [hrelabeled.autoModule, hrelabeled.tree.toplevel?]
    cases program.tree.toplevel? program.autoModule with
    | some node =>
      have hfound : Relabels ρ id (some <$> program.scopeOf node)
          (some <$> program'.scopeOf node) :=
        (scopeOf_relabels hrelabeled node).map fun _ => rfl
      refine hfound.bind fun found => ?_
      exact .record (fun _ => rfl) rfl
    | none => exact .record (fun _ => rfl) rfl

section

variable {view view' : ClauseView} {innermost : Bool}
  (hview : ∀ id, Relabels ρ (List.map ρ.clause) (view id) (view' id))
include hview

theorem searchImports_relabels {contents contents' : ScopeId → Name → Search (List Overloads)}
    (hcontents : ∀ target actual, Search.Relabels ρ ρ.sets (contents target actual)
      (contents' target (ρ.name actual))) (id : ScopeId) (name : Name) :
    Search.Relabels ρ ρ.sets (program.searchImports view innermost contents id name)
      (program'.searchImports view' innermost contents' id (ρ.name name)) := by
  rw [searchImports_eq, searchImports_eq]
  refine .lift_bind (hview id) fun clauses => ?_
  refine (Search.Relabels.throughClauses hcontents name clauses).bind fun ⟨closed, found⟩ => ?_
  show Search.Relabels ρ ρ.sets (if closed = true then _ else _) (if closed = true then _ else _)
  split
  · exact .pure rfl
  have hbrought : Search.Relabels ρ ρ.sets (program.searchAuto contents id name)
      (program'.searchAuto contents' id (ρ.name name)) := by
    refine .scope_bind fun scope => ?_
    show Search.Relabels ρ ρ.sets (if scope.autoUses = true then _ else _)
      (if scope.autoUses = true then _ else _)
    split
    · refine .lift_bind (autoScope_relabels hrelabeled) fun auto => ?_
      cases auto with
      | none => exact .pure rfl
      | some auto => exact hcontents auto name
    · exact .pure rfl
  exact hbrought.bind fun more => .pure (List.map_append ..).symm

theorem searchLevel_relabels (fuel : Nat) (decls imports : Bool) (id : ScopeId) (name : Name) :
    Search.Relabels ρ ρ.sets (program.searchLevel view innermost fuel decls imports id name)
      (program'.searchLevel view' innermost fuel decls imports id (ρ.name name)) := by
  induction fuel generalizing decls imports id name with
  | zero => exact fun _ => .failure
  | succ fuel ih =>
    rw [searchLevel, searchLevel]
    refine .collect (.cons (.gate decls (.declarations id name)) (.cons (.gate imports ?_) .nil))
    exact searchImports_relabels hrelabeled hview
      (fun target actual => .enter target (ih true true target actual)) id name

omit hview in
theorem searchToplevel_relabels (name : Name) :
    Search.Relabels ρ ρ.sets (program.searchToplevel name)
      (program'.searchToplevel (ρ.name name)) := by
  rw [searchToplevel, searchToplevel, hrelabeled.tree.toplevel?]
  cases program.tree.toplevel? name <;> exact .pure rfl

theorem search_relabels (config : LookupConfig) (id : ScopeId) (name : Name) :
    Search.Relabels ρ ρ.sets (program.search view config id name)
      (program'.search view' config id (ρ.name name)) := by
  have hlevel : ∀ decls imports outer, Search.Relabels ρ ρ.sets
      (program.searchLevel view config.innermost program.depth decls imports outer name)
      (program'.searchLevel view' config.innermost program'.depth decls imports outer
        (ρ.name name)) := by
    rw [hrelabeled.depth]
    exact fun decls imports outer =>
      searchLevel_relabels hrelabeled hview program.depth decls imports outer name
  refine .enter id fun entered => ?_
  rw [Search.get_bind_run, Search.get_bind_run]
  refine .get_bind fun context => ?_
  rw [ρ.climb_context]
  refine Search.Relabels.collect (List.rel_append (.cons (hlevel _ _ id) ?_) (.cons ?_ .nil))
    entered
  · refine List.forall₂_map_left_iff.mpr (List.forall₂_map_right_iff.mpr (List.forall₂_same.mpr ?_))
    exact fun outer _ => .enter outer (hlevel _ _ outer)
  · exact .gate _ (searchToplevel_relabels hrelabeled name)

end

end Program

end Scoping
