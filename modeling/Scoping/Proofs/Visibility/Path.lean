import Scoping.Proofs.Context.Resolving

/-!
Which scope the path of a clause leads to. Each segment is searched for in the scope that
those before it lead to; where the search finds one declaration that can be a target, the
path goes on in the scope of that declaration. Only `this` and `super` need no search.
-/

namespace Scoping

open Context

/-- A context of some time before, whose handles still mean the same. -/
structure Context.Precedes (program : Program) (context later : Context) : Prop where
  sound : context.Sound program
  scopes : context.scopes.toList <+: later.scopes.toList

theorem Context.Precedes.mono {program : Program} {context middle later : Context}
    (hprecedes : context.Precedes program middle)
    (hscopes : middle.scopes.toList <+: later.scopes.toList) : context.Precedes program later :=
  ⟨hprecedes.sound, hprecedes.scopes.trans hscopes⟩

namespace Program

/-- Whether a name was found in a scope as one declaration, the scope of which is where a path
goes on. -/
structure Finds (program : Program) (find : Finder) (stmt : Statement) (context : Context)
    (config : LookupConfig) (scope : ScopeId) (name : Name) (decl : NodeId) (target : ScopeId) :
    Prop where
  searched : ∃ before after, before.Precedes program context ∧
    find config scope name before = some ([.single (.node decl)], after)
  admitted : program.isTarget stmt (.node decl) = true
  owned : ∃ owner, program.Owner decl owner ∧ context.OwnedBy target owner

/-- Whether a path, given by its head and its fields, leads to a scope, and which declaration
it was found as; none if it is `this` or `super`. -/
inductive Traces (program : Program) (find : Finder) (stmt : Statement) (context : Context)
    (scope : ScopeId) (head : NodeId) : List (NodeId × Name) → Option NodeId → ScopeId → Prop
  | around {before : Context} {name : Name} {target : ScopeId}
    (hname : program.tree.identifier? head = some name) (hbefore : before.Precedes program context)
    (hscope : before.Has scope)
    (haround : name = .this ∧ before.moduleOf? scope = some target ∨
      name = .super ∧ before.superOf? scope = some target) :
    Traces program find stmt context scope head [] none target
  | head {name : Name} {decl : NodeId} {target : ScopeId}
    (hname : program.tree.identifier? head = some name)
    (hordinary : ¬ (name = .this ∨ name = .super))
    (hfinds : program.Finds find stmt context stmt.headConfig scope name decl target) :
    Traces program find stmt context scope head [] (some decl) target
  | field {fields : List (NodeId × Name)} {found? : Option NodeId} {inner target : ScopeId}
    {site decl : NodeId} {name : Name}
    (hfields : Traces program find stmt context scope head fields found? inner)
    (hfinds : program.Finds find stmt context .member inner name decl target) :
    Traces program find stmt context scope head (fields ++ [(site, name)]) (some decl) target

/-- The path of a written clause, which the field that an `import` takes is no part of. -/
def pathOf? (program : Program) (written : WrittenClause) : Option Path :=
  (program.tree.renamed? written.symbol).map fun parts =>
    match written.stmt with
    | .use => program.tree.path parts.1
    | .imports => program.tree.path (program.splitField written.limitation parts.1).1

/-- Whether the path of a written clause leads to a scope. -/
def AimsAt (program : Program) (find : Finder) (context : Context) (scope : ScopeId)
    (written : WrittenClause) (found? : Option NodeId) (target : ScopeId) : Prop :=
  ∃ path, program.pathOf? written = some path ∧
    program.Traces find written.stmt context scope path.head path.fields found? target

/-- Whether a clause is part of what a written one makes of the scope that its path leads to. -/
structure ComesOf (program : Program) (find : Finder) (context : Context) (scope : ScopeId)
    (written : WrittenClause) (found? : Option NodeId) (clause : Clause) : Prop where
  made : ∃ part, program.made written clause.target = some part ∧ clause ∈ part
  aims : program.AimsAt find context scope written found? clause.target

/-- Whether each of the clauses of a scope comes of a written one, in view of those before it. -/
def AllCome (program : Program) (find : List Clause → Finder) (context : Context) (scope : ScopeId)
    (written : List WrittenClause) (clauses : List Clause) : Prop :=
  ∀ clause ∈ clauses, ∃ source ∈ written, ∃ before found?, before <+: clauses ∧
    program.ComesOf (find before) context scope source found? clause

/-- Which node the scope that a path leads to belongs to: the declaration that the path was
found as, the body that stands for it, or else, for an include without body, whatever node
the include lies in the scope of. -/
inductive Lands (program : Program) (stmt : Statement) : Option NodeId → NodeId → Prop
  | around {node : NodeId} (hmodule : program.tree.tag? node = some .moduleDecl) :
    Lands program stmt none node
  | declared {decl : NodeId} (htag : program.tree.tag? decl = some .moduleDecl ∨
      stmt = .use ∧ program.tree.tag? decl = some .enumDecl) : Lands program stmt (some decl) decl
  | included {decl body : NodeId} (hinclude : program.tree.tag? decl = some .includeDecl)
    (hbody : program.tree.body? decl = some body)
    (hmodule : program.tree.tag? body = some .moduleDecl) : Lands program stmt (some decl) body
  | bodiless {decl node : NodeId} (hinclude : program.tree.tag? decl = some .includeDecl)
    (hbody : program.tree.body? decl = none) (howner : program.Owner decl (some node)) :
    Lands program stmt (some decl) node

variable {program : Program} {find : Finder} {stmt : Statement} {context later : Context}
variable {config : LookupConfig} {scope target : ScopeId} {name : Name} {decl head : NodeId}
variable {fields : List (NodeId × Name)} {found? : Option NodeId} {written : WrittenClause}
variable {clause : Clause}

section

variable (hscopes : context.scopes.toList <+: later.scopes.toList)
include hscopes

theorem Finds.mono (hfinds : program.Finds find stmt context config scope name decl target) :
    program.Finds find stmt later config scope name decl target := by
  obtain ⟨⟨before, after, hbefore, hrun⟩, hadmitted, owner, howner, howned⟩ := hfinds
  exact ⟨⟨before, after, hbefore.mono hscopes, hrun⟩, hadmitted, owner,
    howner, howned.of_prefix hscopes⟩

theorem Traces.mono (htraces : program.Traces find stmt context scope head fields found? target) :
    program.Traces find stmt later scope head fields found? target := by
  induction htraces with
  | around hname hbefore hscope haround =>
    exact .around hname (hbefore.mono hscopes) hscope haround
  | head hname hordinary hfinds => exact .head hname hordinary (hfinds.mono hscopes)
  | field _ hfinds ih => exact ih.field (hfinds.mono hscopes)

theorem AimsAt.mono (haims : program.AimsAt find context scope written found? target) :
    program.AimsAt find later scope written found? target :=
  haims.imp fun _ haims => ⟨haims.1, haims.2.mono hscopes⟩

theorem AllCome.mono {find : List Clause → Finder} {written : List WrittenClause}
    {clauses : List Clause} (hcome : program.AllCome find context scope written clauses) :
    program.AllCome find later scope written clauses := by
  intro clause hclause
  obtain ⟨source, hsource, before, found?, hbefore, hcomes⟩ := hcome clause hclause
  exact ⟨source, hsource, before, found?, hbefore, hcomes.made, hcomes.aims.mono hscopes⟩

end

theorem AllCome.congr {find : List Clause → Finder} {written : List WrittenClause}
    {clauses : List Clause} (hcome : program.AllCome find context scope written clauses)
    (hscopes : later.scopes = context.scopes) :
    program.AllCome find later scope written clauses :=
  hcome.mono (hscopes ▸ List.prefix_rfl)

theorem AllCome.nil {find : List Clause → Finder} {written : List WrittenClause} :
    program.AllCome find context scope written [] := nofun

/-- One more written clause contributes, in view of what there is. -/
theorem AllCome.append {find : List Clause → Finder} {sources : List WrittenClause}
    {clauses part : List Clause} (hcome : program.AllCome find context scope sources clauses)
    (hwritten : written ∈ sources) (hpart : ∀ clause ∈ part, ∃ found?,
      program.ComesOf (find clauses) context scope written found? clause) :
    program.AllCome find context scope sources (clauses ++ part) := by
  intro clause hclause
  rcases List.mem_append.mp hclause with hold | hnew
  · obtain ⟨source, hsource, before, found?, hbefore, hcomes⟩ := hcome clause hold
    exact ⟨source, hsource, before, found?, hbefore.trans (List.prefix_append _ _), hcomes⟩
  · obtain ⟨found?, hcomes⟩ := hpart clause hnew
    exact ⟨written, hwritten, clauses, found?, List.prefix_append _ _, hcomes⟩

/-- What a statement can bring in the contents of is a node of the tree. -/
theorem contains_of_isTarget {decl : Decl} {id : NodeId} (hnode : decl.node? = some id)
    (htarget : program.isTarget stmt decl = true) : program.tree.contains id = true := by
  cases decl with
  | builtin name => cases hnode
  | node other =>
    obtain rfl := Option.some.inj hnode
    cases htag : program.tree.tag? other with
    | none => simp [isTarget, htag] at htarget
    | some tag => exact Tree.contains_of_tag? htag

/-- What is found and can be a target opens a scope, by itself or by its body, unless it is an
include without body. -/
theorem Finds.lands (hforest : program.tree.IsForest)
    (hfinds : program.Finds find stmt context config scope name decl target) :
    ∃ node, context.OwnedBy target (some node) ∧ program.Lands stmt (some decl) node := by
  obtain ⟨-, hadmitted, owner, howner, howned⟩ := hfinds
  obtain ⟨node, rfl⟩ := howner.exists_of_contains hforest (contains_of_isTarget rfl hadmitted)
  refine ⟨node, howned, ?_⟩
  have hopened : program.opensScope (program.tree.standIn decl) = true →
      node = program.tree.standIn decl :=
    fun hopens => Option.some.inj (howner.unique (.opens hopens))
  unfold isTarget at hadmitted
  dsimp only at hadmitted
  split at hadmitted
  · next htag =>
    rw [Tree.standIn_of_tag (by simp [htag])] at hopened
    obtain rfl := hopened (opensScope_of_isModule htag)
    exact .declared (.inl htag)
  · next hinclude =>
    cases hbody : program.tree.body? decl with
    | none => exact .bodiless hinclude hbody howner
    | some body =>
      have hmodule := hforest.bodies decl body hbody
      have hstands : program.tree.standIn decl = body := by simp [Tree.standIn, hinclude, hbody]
      rw [hstands] at hopened
      obtain rfl := hopened (opensScope_of_isModule hmodule)
      exact .included hinclude hbody hmodule
  · next htag =>
    rw [Tree.standIn_of_tag (by simp [htag])] at hopened
    obtain rfl := hopened (opensScope_of_named htag rfl)
    exact .declared (.inr ⟨by simpa using hadmitted, htag⟩)
  · cases hadmitted

/-- A path leads to the scope of a node, and not to the root. -/
theorem Traces.lands (hforest : program.tree.IsForest)
    (htraces : program.Traces find stmt context scope head fields found? target) :
    ∃ node, context.OwnedBy target (some node) ∧ program.Lands stmt found? node := by
  cases htraces with
  | @around before _ _ _ hbefore hscope haround =>
    obtain ⟨⟨node, howned⟩, hmodule⟩ :
        before.Inner target ∧ (before.scope target).isModule = true := by
      rcases haround with ⟨-, hfirst⟩ | ⟨-, hfirst⟩
      · exact ⟨hbefore.sound.inner_of_moduleOf? hscope hfirst, isModule_of_firstModule? hfirst⟩
      · exact ⟨hbefore.sound.inner_of_superOf? hscope hfirst, isModule_of_firstModule? hfirst⟩
    rw [hbefore.sound.isModule_eq howned] at hmodule
    exact ⟨node, howned.of_prefix hbefore.scopes, .around (by simpa using hmodule)⟩
  | head _ _ hfinds | field _ hfinds => exact hfinds.lands hforest

theorem Traces.inner (hforest : program.tree.IsForest)
    (htraces : program.Traces find stmt context scope head fields found? target) :
    context.Inner target :=
  (htraces.lands hforest).imp fun _ hlands => hlands.1

theorem AimsAt.inner (hforest : program.tree.IsForest)
    (haims : program.AimsAt find context scope written found? target) : context.Inner target := by
  obtain ⟨path, -, htraces⟩ := haims
  exact htraces.inner hforest

theorem ComesOf.fits (hforest : program.tree.IsForest)
    (hcomes : program.ComesOf find context scope written found? clause) : context.Fits clause := by
  obtain ⟨part, hmade, hclause⟩ := hcomes.made
  exact ⟨hcomes.aims.inner hforest, whole_of_made hmade hclause⟩

end Program

end Scoping
