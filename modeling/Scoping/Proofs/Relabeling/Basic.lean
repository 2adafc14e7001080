import Mathlib.Tactic
import Scoping.Visibility

/-!
Relabelings. A relabeling gives every name another one, no two the same, and keeps the two
keywords of paths; it may also conceal the access keywords of statements. What it makes of
nodes, declarations, scopes, clauses and contexts is read off where names and keywords
stand in them; handles, nodes and everything else stay as they are.
-/

namespace Scoping

namespace Assoc

variable {κ κ' α β : Type}

/-- A map with other keys and values, in the same order. -/
def bimap (f : κ → κ') (g : α → β) (map : Assoc κ α) : Assoc κ' β :=
  ⟨map.entries.map (Prod.map f g)⟩

variable [DecidableEq κ] [DecidableEq κ'] {f : κ → κ'} (hf : Function.Injective f) (g : α → β)
include hf

theorem get?_bimap (map : Assoc κ α) (key : κ) :
    (map.bimap f g).get? (f key) = (map.get? key).map g := by
  obtain ⟨entries⟩ := map
  simp only [bimap, get?]
  induction entries with
  | nil => rfl
  | cons entry rest ih =>
    by_cases heq : entry.1 = key
    · simp [heq]
    · simpa [heq, hf.eq_iff] using ih

theorem bimap_upsert (map : Assoc κ α) (key : κ) {change : Option α → α} {change' : Option β → β}
    (hchange : ∀ value, change' (value.map g) = g (change value)) :
    (map.upsert key change).bimap f g = (map.bimap f g).upsert (f key) change' := by
  obtain ⟨entries⟩ := map
  simp only [bimap, upsert, Assoc.mk.injEq]
  induction entries with
  | nil => simpa [alter] using (hchange none).symm
  | cons entry rest ih =>
    obtain ⟨other, value⟩ := entry
    by_cases heq : other = key
    · simpa [alter, heq] using (hchange (some value)).symm
    · simpa [alter, heq, hf.eq_iff] using ih

theorem bimap_insert (map : Assoc κ α) (key : κ) (value : α) :
    (map.insert key value).bimap f g = (map.bimap f g).insert (f key) (g value) :=
  bimap_upsert hf g map key fun _ => rfl

end Assoc

/-- How far a question has come, with another answer. -/
def Progress.map {α β : Type} (g : α → β) : Progress α → Progress β
  | .running => .running
  | .done value => .done (g value)

namespace Memo

variable {κ κ' α β : Type}

/-- A table with other keys and answers. -/
def bimap (f : κ → κ') (g : α → β) (memo : Memo κ α) : Memo κ' β :=
  ⟨memo.table.bimap f (Progress.map g)⟩

variable [DecidableEq κ] [DecidableEq κ'] {f : κ → κ'} (hf : Function.Injective f) (g : α → β)
include hf

theorem progress?_bimap (memo : Memo κ α) (key : κ) :
    (memo.bimap f g).progress? (f key) = (memo.progress? key).map (Progress.map g) :=
  Assoc.get?_bimap hf (Progress.map g) memo.table key

theorem get?_bimap (memo : Memo κ α) (key : κ) :
    (memo.bimap f g).get? (f key) = (memo.get? key).map g := by
  rw [get?, get?, progress?_bimap hf]
  cases memo.progress? key with
  | none => rfl
  | some progress => cases progress <;> rfl

theorem bimap_begin (memo : Memo κ α) (key : κ) :
    (memo.begin key).bimap f g = (memo.bimap f g).begin (f key) := by
  have hknown : (memo.bimap f g).isKnown (f key) = memo.isKnown key := by
    rw [isKnown, isKnown, progress?_bimap hf, Option.isSome_map]
  rw [begin, begin, hknown]
  split
  · rfl
  · exact congrArg Memo.mk (Assoc.bimap_insert hf (Progress.map g) memo.table key .running)

theorem bimap_finish (memo : Memo κ α) (key : κ) (value : α) :
    (memo.finish key value).bimap f g = (memo.bimap f g).finish (f key) (g value) :=
  congrArg Memo.mk (Assoc.bimap_insert hf (Progress.map g) memo.table key (.done value))

end Memo

/-- Another name for every name, and whether access keywords are concealed. -/
structure Relabeling where
  name : Name → Name
  conceals : Bool
  injective : Function.Injective name
  this : name .this = .this
  super : name .super = .super

namespace Relabeling

variable (ρ : Relabeling)

/-- What is left of an access keyword. -/
def access (access : Access) : Access := if ρ.conceals then .unstated else access

/-- What is left of the flag that tells whether a clause is private. -/
def isPrivate (flag : Bool) : Bool := ρ.conceals || flag

@[simp]
theorem isPrivate_access (access : Access) :
    (ρ.access access).isPrivate = ρ.isPrivate access.isPrivate := by
  unfold Relabeling.access isPrivate
  cases ρ.conceals <;> rfl

@[simp]
theorem name_eq_iff {name other : Name} : ρ.name name = ρ.name other ↔ name = other :=
  ρ.injective.eq_iff

@[simp]
theorem name_eq_this_iff {name : Name} : ρ.name name = .this ↔ name = .this := by
  rw [← ρ.this, name_eq_iff, ρ.this]

@[simp]
theorem name_eq_super_iff {name : Name} : ρ.name name = .super ↔ name = .super := by
  rw [← ρ.super, name_eq_iff, ρ.super]

theorem some_name_eq_map_iff (name : Name) (other? : Option Name) :
    some (ρ.name name) = other?.map ρ.name ↔ some name = other? := by
  cases other? <;> simp

def kind : NodeKind → NodeKind
  | .moduleDecl name internal => .moduleDecl (ρ.name name) internal
  | .functionDecl name => .functionDecl (ρ.name name)
  | .recordDecl name => .recordDecl (ρ.name name)
  | .classDecl name => .classDecl (ρ.name name)
  | .enumDecl name => .enumDecl (ρ.name name)
  | .enumElement name => .enumElement (ρ.name name)
  | .variableDecl name typeExpr => .variableDecl (ρ.name name) typeExpr
  | .formal name typeExpr => .formal (ρ.name name) typeExpr
  | .typeQuery name => .typeQuery (ρ.name name)
  | .includeDecl name => .includeDecl (ρ.name name)
  | .useStmt access => .useStmt (ρ.access access)
  | .importStmt access => .importStmt (ρ.access access)
  | .identifier name => .identifier (ρ.name name)
  | .dot receiver field => .dot receiver (ρ.name field)
  | .tupleDecl => .tupleDecl
  | .multiDecl => .multiDecl
  | .clause symbol limitation limitations => .clause symbol limitation limitations
  | .rename symbol renamed => .rename symbol renamed
  | .compound form => .compound form
  | .call => .call

def node (node : Node) : Node := { node with kind := ρ.kind node.kind }

@[simp]
theorem tag_kind (kind : NodeKind) : (ρ.kind kind).tag = kind.tag := by cases kind <;> rfl

@[simp]
theorem tag_node (node : Node) : (ρ.node node).tag = node.tag := ρ.tag_kind node.kind

theorem declName?_kind (kind : NodeKind) : (ρ.kind kind).declName? = kind.declName?.map ρ.name := by
  cases kind <;> rfl

def decl : Decl → Decl
  | .node id => .node id
  | .builtin name => .builtin (ρ.name name)

@[simp]
theorem node?_decl (decl : Decl) : (ρ.decl decl).node? = decl.node? := by cases decl <;> rfl

@[simp]
theorem isBuiltin_decl (decl : Decl) : (ρ.decl decl).isBuiltin = decl.isBuiltin := by
  cases decl <;> rfl

def overloads (set : Overloads) : Overloads := ⟨ρ.decl set.first, set.rest.map ρ.decl⟩

@[simp]
theorem toList_overloads (set : Overloads) : (ρ.overloads set).toList = set.toList.map ρ.decl := rfl

@[simp]
theorem size_overloads (set : Overloads) : (ρ.overloads set).size = set.size := by
  simp [Overloads.size]

/-- What becomes of the sets that a search finds. -/
abbrev sets : List Overloads → List Overloads := List.map ρ.overloads

def table (table : DeclTable) : DeclTable := table.bimap ρ.name ρ.overloads

theorem get?_table (table : DeclTable) (name : Name) :
    (ρ.table table).get? (ρ.name name) = (table.get? name).map ρ.overloads :=
  Assoc.get?_bimap ρ.injective ρ.overloads table name

theorem table_declare (table : DeclTable) (name : Name) (id : NodeId) :
    ρ.table (table.declare name (.node id)) = (ρ.table table).declare (ρ.name name) (.node id) := by
  refine Assoc.bimap_upsert ρ.injective ρ.overloads table name fun value => ?_
  cases value with
  | none => rfl
  | some set => simp [overloads, Overloads.append, decl]

/-- The built-in types of the root scope are relabeled one by one. -/
theorem table_ofBuiltins (builtins : List Name) :
    ρ.table (.ofBuiltins builtins) = .ofBuiltins (builtins.map ρ.name) := by
  unfold DeclTable.ofBuiltins
  rw [List.foldl_map]
  refine (List.foldl_hom ρ.table fun table name => ?_).symm
  refine (Assoc.bimap_upsert ρ.injective ρ.overloads table name fun value => ?_).symm
  cases value <;> rfl

def gathered (gathered : Gathered) : Gathered :=
  { gathered with declared := ρ.table gathered.declared }

theorem gathered_declare (gathered : Gathered) (name : Name) (id : NodeId) :
    ρ.gathered (gathered.declare name id) = (ρ.gathered gathered).declare (ρ.name name) id := by
  unfold Relabeling.gathered Gathered.declare
  rw [ρ.table_declare]

@[simp]
theorem isTrivial_gathered (gathered : Gathered) :
    (ρ.gathered gathered).isTrivial = gathered.isTrivial := by
  simp [Gathered.isTrivial, Relabeling.gathered, table, Assoc.bimap, Assoc.isEmpty]

def scope (scope : Scope) : Scope := { scope with declared := ρ.table scope.declared }

theorem scope_root (builtins : List Name) :
    ρ.scope (.root builtins) = .root (builtins.map ρ.name) := by
  unfold Relabeling.scope Scope.root
  rw [ρ.table_ofBuiltins]

theorem lookup_scope (scope : Scope) (name : Name) :
    (ρ.scope scope).lookup (ρ.name name) = ρ.sets (scope.lookup name) := by
  unfold Scope.lookup
  rw [show (ρ.scope scope).declared = ρ.table scope.declared from rfl, ρ.get?_table]
  cases scope.declared.get? name <;> rfl

theorem declares_scope (scope : Scope) (name : Name) :
    (ρ.scope scope).declares (ρ.name name) = scope.declares name := by
  unfold Scope.declares Assoc.contains
  rw [show (ρ.scope scope).declared = ρ.table scope.declared from rfl, ρ.get?_table,
    Option.isSome_map]

def clause (clause : Clause) : Clause :=
  { clause with
    isPrivate := ρ.isPrivate clause.isPrivate
    names := clause.names.map (Prod.map ρ.name ρ.name) }

def route : Route → Route
  | .blocked => .blocked
  | .symbol => .symbol
  | .contents actual => .contents (ρ.name actual)

theorem actual?_clause (clause : Clause) (name : Name) :
    (ρ.clause clause).actual? (ρ.name name) = (clause.actual? name).map ρ.name := by
  unfold Clause.actual?
  rw [show (ρ.clause clause).names = clause.names.map (Prod.map ρ.name ρ.name) from rfl,
    List.find?_map, Option.map_map, Option.map_map]
  simp [Function.comp_def]

theorem route_clause (clause : Clause) (name : Name) :
    (ρ.clause clause).route (ρ.name name) = ρ.route (clause.route name) := by
  unfold Clause.route
  rw [ρ.actual?_clause, show (ρ.clause clause).kind = clause.kind from rfl]
  cases clause.kind <;> cases clause.actual? name <;> rfl

def innermost (result : InnermostMatch) : InnermostMatch :=
  { result with decl? := result.decl?.map ρ.decl }

theorem innermost_ofSets (sets : List Overloads) :
    ρ.innermost (.ofSets sets) = .ofSets (ρ.sets sets) := by
  cases sets with
  | nil => rfl
  | cons nearest rest =>
    simp [innermost, InnermostMatch.ofSets, overloads, ← ρ.size_overloads nearest]

def context (context : Context) : Context :=
  { context with
    scopes := context.scopes.map ρ.scope
    visibility := context.visibility.bimap id (List.map ρ.clause)
    innermost := context.innermost.bimap (Prod.map id ρ.name) ρ.innermost }

end Relabeling

end Scoping
