import Scoping.Proofs.Syntax.Regions
import Scoping.Proofs.Visibility.Resolution

/-!
Paths that begin with `this` or `super`. Neither is searched for: the scope that the path
begins with is read off the scopes around, so its head is refused only if there is none,
and otherwise its fields are followed from there at once.
-/

namespace Scoping

open Context Resolve

namespace Context

/-- The module that `this` or else `super` stands for in a scope. -/
def outset? (context : Context) (id : ScopeId) (name : Name) : Option ScopeId :=
  if name = .this then context.moduleOf? id else context.superOf? id

/-- The context once a problem is reported. -/
def reporting (context : Context) (diagnostic : Diagnostic) : Context :=
  { context with diagnostics := context.diagnostics.add diagnostic }

variable {program : Program} {context later : Context} {id : ScopeId}

/-- The scopes around a scope are those that were around it before. -/
theorem Sound.outward_kept (hlater : later.Sound program)
    (hscopes : context.scopes.toList <+: later.scopes.toList) (hid : context.Has id) :
    later.outward id = context.outward id ∧
      ∀ outer ∈ later.outward id, later.scope outer = context.scope outer := by
  have hsame : ∀ {other}, context.Has other → later.scope other = context.scope other :=
    fun hother => scope_eq_of_scope? <| scope?_of_prefix hscopes hother.scope?
  have hhas : later.Has id := has_iff.mpr ⟨_, scope?_of_prefix hscopes hid.scope?⟩
  refine ⟨by rw [outward, outward, hsame hid], fun outer houter => ?_⟩
  rcases List.mem_cons.mp houter with rfl | hmore
  · exact hsame hid
  · exact hsame ((hlater.index_lt_of_enclosing hhas hmore).trans hid)

/-- So `this` and `super` stand for what they stood for before. -/
theorem Sound.outset?_kept (hlater : later.Sound program)
    (hscopes : context.scopes.toList <+: later.scopes.toList) (hid : context.Has id) (name : Name) :
    later.outset? id name = context.outset? id name := by
  obtain ⟨houtward, hsame⟩ := hlater.outward_kept hscopes hid
  have hfirst : ∀ ids ⊆ later.outward id, later.firstModule? ids = context.firstModule? ids :=
    fun ids hids => List.find?_congr fun outer houter => by rw [hsame outer (hids houter)]
  have henclosing : (later.scope id).enclosing = (context.scope id).enclosing :=
    (List.cons.inj houtward).2
  rw [outset?, outset?, moduleOf?, moduleOf?, superOf?, superOf?, ← henclosing, ← houtward,
    hfirst _ (List.Subset.refl _), hfirst _ (List.subset_cons_self _ _)]

end Context

/-- The fields of a path are accesses. -/
theorem Tree.kind?_of_mem_fields {tree : Tree} {expr : NodeId} {field : NodeId × Name}
    (hfield : field ∈ (tree.path expr).fields) :
    ∃ receiver, tree.kind? field.1 = some (.dot receiver field.2) := by
  have hpeel : ∀ fuel id fields, (∀ field ∈ fields, ∃ receiver,
      tree.kind? field.1 = some (.dot receiver field.2)) →
      ∀ field ∈ (tree.peel fuel id fields).fields, ∃ receiver,
        tree.kind? field.1 = some (.dot receiver field.2) := by
    intro fuel
    induction fuel with
    | zero => exact fun id fields hfields => hfields
    | succ fuel ih =>
      intro id fields hfields
      rw [peel]
      split
      · next receiver name hkind =>
        exact ih _ _ (List.forall_mem_cons.mpr ⟨⟨receiver, hkind⟩, hfields⟩)
      · exact hfields
  exact hpeel _ _ _ (List.forall_mem_nil _) field hfield

/-- An identifier at the head of a path is no field of it. -/
theorem Tree.head_not_field {tree : Tree} {expr : NodeId} {name : Name}
    (hname : tree.identifier? (tree.path expr).head = some name) {field : NodeId × Name}
    (hfield : field ∈ (tree.path expr).fields) : field.1 ≠ (tree.path expr).head := by
  obtain ⟨receiver, hkind⟩ := kind?_of_mem_fields hfield
  intro heq
  rw [← heq, identifier?, hkind] at hname
  cases hname

namespace Program

variable {program : Program} {find : Finder} {context later : Context} {id : ScopeId}
variable {written : WrittenClause} {name : Name}

/-- Whether the form of a clause is admitted and its path begins with `this` or `super`. -/
structure SetsOut (program : Program) (written : WrittenClause) (path : Path) (name : Name) :
    Prop where
  admitted : written.Admitted
  isPath : program.pathOf? written = some path
  isHead : program.tree.identifier? path.head = some name
  keyword : name = .this ∨ name = .super

/-- What becomes of a clause whose path begins with `this` or `super`, by the part that it
contributes and the errors about it. -/
structure Departs (program : Program) (find : Finder) (context : Context) (id : ScopeId)
    (written : WrittenClause) (path : Path) (name : Name) (part : List Clause)
    (errors : List Diagnostic) : Prop where
  /-- Without a module to begin with, the head is refused and nothing else is reported. -/
  refused : context.outset? id name = none →
    part = [] ∧ errors = [.unresolvedTarget path.head written.stmt]
  /-- With one, the head is not refused. -/
  silent : ∀ start, context.outset? id name = some start → ∀ error ∈ errors, error.node ≠ path.head
  /-- The fields are then followed from that module. -/
  follows : ∀ start, context.outset? id name = some start → ∃ reached? last,
    program.resolveFields find written.stmt (start, name) path.fields context =
      some (reached?, last) ∧ (reached? = none → part = []) ∧
    ∀ reached, reached? = some reached → program.made written reached.1 = some part

theorem pathOf?_eq (written : WrittenClause) :
    program.pathOf? written = (program.targetExpr? written).map program.tree.path := by
  unfold pathOf? targetExpr?
  rw [Option.map_map]
  cases written.stmt <;> rfl

/-- The path of an `import` without its last field is part of the same chain. -/
theorem splitField_onChain (limitation : Limitation) (expr : NodeId) :
    program.tree.OnChain expr (program.splitField limitation expr).1 := by
  unfold splitField
  split
  · exact .self
  · next hkind => exact .receiver .self hkind
  · exact .self

/-- The expression that is the path of a clause stands on the chain of its symbol. -/
theorem targetExpr?_onChain {expr : NodeId} (hexpr : program.targetExpr? written = some expr) :
    program.tree.OnChain (program.tree.unrenamed written.symbol) expr := by
  obtain ⟨⟨inner, newName⟩, hparts, rfl⟩ := Option.map_eq_some_iff.mp hexpr
  rw [Tree.unrenamed_of_renamed? hparts]
  cases written.stmt with
  | use => exact .self
  | imports => exact splitField_onChain _ _

/-- The segments of the path of a clause belong to its symbol. -/
theorem within_symbol_of_onChain {expr segment : NodeId}
    (hexpr : program.targetExpr? written = some expr)
    (hsegment : program.tree.OnChain expr segment) :
    program.tree.Within written.symbol segment :=
  ((targetExpr?_onChain hexpr).trans hsegment).within (Tree.within_unrenamed _)

/-- And so to the clause. -/
theorem within_site_of_onChain {owner expr segment : NodeId}
    (hmem : written ∈ program.tree.writtenClauses owner)
    (hexpr : program.targetExpr? written = some expr)
    (hsegment : program.tree.OnChain expr segment) : program.tree.Within written.site segment :=
  (Tree.within_symbol hmem).trans (within_symbol_of_onChain hexpr hsegment)

section

variable {stmt : Statement} {expr head : NodeId}
variable (hname : program.tree.identifier? head = some name)
variable (hkeyword : name = .this ∨ name = .super)
include hname hkeyword

/-- A keyword is answered from the context, where it sets out. -/
theorem resolveHead_eq_outset : program.resolveHead find stmt id head context =
    match context.outset? id name with
    | some start => some (some (start, name), context)
    | none => some (none, context.reporting (.unresolvedTarget head stmt)) := by
  have hget : (get : Resolve Context) context = some (context, context) := rfl
  unfold resolveHead
  rw [hname]
  dsimp only
  rw [if_pos hkeyword, run_bind hget, ← outset?]
  cases context.outset? id name <;> rfl

end

section

variable {stmt : Statement} {expr : NodeId}
variable (hname : program.tree.identifier? (program.tree.path expr).head = some name)
variable (hkeyword : name = .this ∨ name = .super)
include hname hkeyword

/-- Where there is a module to begin with, the fields are all that is resolved. -/
theorem resolvePath_of_outset {start : ScopeId} (hstart : context.outset? id name = some start) :
    program.resolvePath find stmt id expr context =
      program.resolveFields find stmt (start, name) (program.tree.path expr).fields context := by
  have hhead : program.resolveHead find stmt id (program.tree.path expr).head context =
      some (some (start, name), context) := by
    rw [resolveHead_eq_outset hname hkeyword, hstart]
  exact Resolve.run_bind hhead

theorem resolvePath_of_no_outset (hnone : context.outset? id name = none) :
    program.resolvePath find stmt id expr context =
      some (none, context.reporting (.unresolvedTarget (program.tree.path expr).head stmt)) := by
  have hhead : program.resolveHead find stmt id (program.tree.path expr).head context =
      some (none, context.reporting (.unresolvedTarget (program.tree.path expr).head stmt)) := by
    rw [resolveHead_eq_outset hname hkeyword, hnone]
  exact Resolve.run_bind hhead

end

end Program

end Scoping
