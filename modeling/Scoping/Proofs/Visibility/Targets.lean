import Scoping.Proofs.Context.Grounding
import Scoping.Proofs.Request

/-!
What clauses are about. Whatever was asked before, the clauses of a scope come of what its
owner's statements say, and each target belongs to the module or enumeration that a path was
found as, or to the body of an include. An include that no body is linked to passes for a
module all the same: what it leads to is the scope that it lies in, whatever owns that.
-/

namespace Scoping

open Context Resolve

/-- A context whose recorded clauses come of written ones, the paths of which lead to their
targets. -/
structure Context.Aimed (program : Program) (context : Context) : Prop where
  sound : context.Sound program
  come : ∀ id clauses, context.visibility.get? id = some clauses →
    ∀ owner, (context.scope id).owner = some owner →
      ∃ fuel, program.AllCome (program.findWithin (program.resolveVisibility fuel) id) context id
        (program.tree.writtenClauses owner) clauses

namespace Context.Aimed

variable {program : Program} {context later : Context} {id : ScopeId}

theorem empty (program : Program) : Context.empty.Aimed program :=
  ⟨sound_empty program, nofun⟩

/-- More scopes do not change what is known of the clauses that were recorded before. -/
theorem grows (haimed : context.Aimed program) (hgrows : context.Grows later)
    (hlater : later.Sound program) (hsame : later.visibility = context.visibility) :
    later.Aimed program := by
  refine ⟨hlater, fun id clauses hclauses owner howner => ?_⟩
  rw [hsame] at hclauses
  have hid := (haimed.sound.asked id (by rw [Memo.get?_eq_some_iff.mp hclauses]; rfl)).1
  rw [hgrows.scope hid] at howner
  obtain ⟨fuel, hcome⟩ := haimed.come id clauses hclauses owner howner
  exact ⟨fuel, hcome.mono hgrows.scopes⟩

variable (haimed : context.Aimed program)
include haimed

theorem beginning (hid : context.Has id) (himports : (context.scope id).hasImports = true) :
    (context.beginning id).Aimed program := by
  refine ⟨haimed.sound.beginning hid himports, fun other clauses hclauses owner howner => ?_⟩
  rw [Context.beginning, Memo.get?_begin] at hclauses
  obtain ⟨fuel, hcome⟩ := haimed.come other clauses hclauses owner howner
  exact ⟨fuel, hcome.congr rfl⟩

theorem finishing {clauses : List Clause} (fuel : Nat) (hid : context.Has id)
    (himports : (context.scope id).hasImports = true)
    (hstated : program.Stated (program.findWithin (program.resolveVisibility fuel) id) context id
      clauses) : (context.finishing id clauses).Aimed program := by
  refine ⟨haimed.sound.finishing hid himports hstated.fits hstated.made,
    fun other found hfound owner howner => ?_⟩
  rcases Memo.eq_or_get?_of_finish hfound with ⟨rfl, rfl⟩ | hknown
  · exact ⟨fuel, (hstated.come owner howner).congr rfl⟩
  · obtain ⟨fuel', hcome⟩ := haimed.come other found hknown owner howner
    exact ⟨fuel', hcome.congr rfl⟩

end Context.Aimed

/-- A name that stands for the target of a clause stands for its owner. -/
theorem Search.throughClauses_of_symbol {context : Context} {clause : Clause} {name : Name}
    {owner : NodeId} (howned : context.OwnedBy clause.target (some owner))
    (hroute : clause.route name = .symbol) (innermost : Bool)
    (contents : ScopeId → Name → Search (List Overloads)) (rest : List Clause)
    (entered : List ScopeId) :
    throughClauses innermost contents name (clause :: rest) entered context =
      some (((true, [.single (.node owner)]), entered), context) := by
  rw [throughClauses, hroute]
  refine bind_run_eq_some_iff.mpr ⟨context.scope clause.target, entered, context, rfl, ?_⟩
  rw [howned.2]
  rfl

namespace Program

variable {program : Program} {context : Context} {id : ScopeId}

theorem records_aimed (program : Program) : program.Records (Context.Aimed program) where
  sound _ haimed := haimed.sound
  growing _ _ haimed := haimed.grows
  beginning := Context.Aimed.beginning
  finishing fuel haimed := haimed.finishing fuel

/-- Where includes have bodies, a path leads to a module or, in a `use`, to an enumeration. -/
theorem Lands.isModule_or_isEnum {stmt : Statement} {found? : Option NodeId} {node : NodeId}
    (hlands : program.Lands stmt found? node)
    (hlinked : ∀ decl ∈ found?, program.tree.tag? decl = some .includeDecl →
      (program.tree.body? decl).isSome = true) :
    program.tree.tag? node = some .moduleDecl ∨
      stmt = .use ∧ program.tree.tag? node = some .enumDecl := by
  cases hlands with
  | around hmodule | included _ _ hmodule => exact .inl hmodule
  | declared htag => exact htag
  | bodiless hinclude hbody _ =>
    have hsome := hlinked _ rfl hinclude
    rw [hbody] at hsome
    cases hsome

/-- The clauses of any scope come of written ones, whose paths were searched for as far as the
clauses before them let one see, and lead to the scopes of modules, or of enumerations for a
`use`, as long as no include without body is found. A name that stands for a target then
stands for that module or enumeration. -/
theorem visibility_targets {tree : Tree} (hfinished : tree.Finished) (hgrounded : tree.Grounded)
    (htree : program.tree = tree) (hreachable : program.Reachable context)
    (hid : context.Has id) :
    ∃ found later, program.visibility id context = some (found, later) ∧
      ∀ clause ∈ found.getD [], ∃ owner written fuel before found? node,
        later.OwnedBy id (some owner) ∧ written ∈ tree.writtenClauses owner ∧
        before <+: found.getD [] ∧
        program.ComesOf (program.findWithin (program.resolveVisibility fuel) id before) later id
          written found? clause ∧
        later.OwnedBy clause.target (some node) ∧ program.Lands written.stmt found? node ∧
        ((∀ decl ∈ found?, tree.tag? decl = some .includeDecl →
            (tree.body? decl).isSome = true) →
          tree.tag? node = some .moduleDecl ∨
            written.stmt = .use ∧ tree.tag? node = some .enumDecl) ∧
        ∀ name, clause.route name = .symbol → ∀ innermost contents rest entered,
          Search.throughClauses innermost contents name (clause :: rest) entered later =
            some (((true, [.single (.node node)]), entered), later) := by
  subst htree
  have hforest := hfinished.isForest hgrounded
  have hserves := program.records_aimed.serves hforest
  obtain ⟨-, haimed⟩ := Reaches.answering hforest hserves (.empty program) hreachable
  obtain ⟨found, later, hrun, hchanges, hanswers⟩ := hserves.visibility haimed hid
  refine ⟨found, later, hrun, fun clause hclause => ?_⟩
  obtain ⟨clauses, rfl⟩ : ∃ clauses, found = some clauses := by
    cases found with
    | none => cases hclause
    | some clauses => exact ⟨clauses, rfl⟩
  have hknown : later.visibility.get? id = some clauses := hanswers.1.symm
  have himports := (hchanges.2.sound.asked id (by rw [Memo.get?_eq_some_iff.mp hknown]; rfl)).2
  obtain ⟨owner, howned⟩ :=
    hchanges.2.sound.inner_of_hasImports (hchanges.1.toGrows.has hid) himports
  obtain ⟨fuel, hcome⟩ := hchanges.2.come id clauses hknown owner howned.2
  obtain ⟨written, hwritten, before, found?, hbefore, hcomes⟩ := hcome clause hclause
  obtain ⟨path, -, htraces⟩ := hcomes.aims
  obtain ⟨node, htarget, hlands⟩ := htraces.lands hforest
  exact ⟨owner, written, fuel, before, found?, node, howned, hwritten, hbefore, hcomes, htarget,
    hlands, hlands.isModule_or_isEnum,
    fun name hroute => Search.throughClauses_of_symbol htarget hroute⟩

/-- A module that includes another, and a third one that uses the included module. -/
def includedUseTree : Tree :=
  .ofSteps [.includeDecl "Sub", .variableDecl "s" none, .moduleDecl false "Sub" [⟨1⟩],
    .link ⟨0⟩ ⟨2⟩, .moduleDecl false "Outer" [⟨0⟩], .dotted "Outer.Sub", .clause ⟨5⟩ .unlimited [],
    .useStmt .unstated [⟨6⟩], .moduleDecl false "User" [⟨7⟩]]

def includedUse : Program := (Session.fresh includedUseTree {}).program

/-- What is known once the scope of the third module is asked for. -/
def includedUseAsked : Context := (includedUse.askAll [.scopeOf ⟨8⟩] .empty).getD .empty

theorem includedUse_visibility_targets :
    ∃ found later, includedUse.visibility ⟨1⟩ includedUseAsked = some (found, later) ∧
      (found.getD []).length = 2 ∧
      ∀ clause ∈ found.getD [], ∃ node, later.OwnedBy clause.target (some node) ∧
        (includedUseTree.tag? node = some .moduleDecl ∨
          includedUseTree.tag? node = some .enumDecl) := by
  have hreachable : includedUse.Reachable includedUseAsked :=
    .askAll .refl (show includedUse.askAll [.scopeOf ⟨8⟩] .empty = some includedUseAsked by
      decide +kernel)
  have hfinished : includedUseTree.Finished := Tree.finished_ofSteps (by decide +kernel)
  have hid : includedUseAsked.Has ⟨1⟩ := by decide +kernel
  have htree : includedUse.tree = includedUseTree := tree_fresh includedUseTree {}
  have hgrounded : includedUseTree.Grounded := by decide +kernel
  obtain ⟨found, later, hrun, htargets⟩ :=
    visibility_targets hfinished hgrounded htree hreachable hid
  refine ⟨found, later, hrun, ?_, fun clause hclause => ?_⟩
  · have hlength : (includedUse.visibility ⟨1⟩ includedUseAsked).map
        (fun result => (result.1.getD []).length) = some 2 := by decide +kernel
    rw [hrun] at hlength
    exact Option.some.inj hlength
  · obtain ⟨-, written, -, -, found?, node, -, -, -, -, htarget, -, hmodule, -⟩ :=
      htargets clause hclause
    have hbodies : ∀ index < includedUseTree.size,
        includedUseTree.tag? ⟨index⟩ = some .includeDecl →
        (includedUseTree.body? ⟨index⟩).isSome = true := by decide +kernel
    refine ⟨node, htarget, (hmodule fun decl _ hinclude => ?_).imp_right And.right⟩
    exact hbodies decl.index (of_decide_eq_true (Tree.contains_of_tag? hinclude)) hinclude

/-- A function with a `use` of a module that it includes, to which no body is linked. -/
def bodilessUseTree : Tree :=
  .ofSteps [.includeDecl "Sub", .identifier "Sub", .clause ⟨1⟩ .unlimited [],
    .useStmt .unstated [⟨2⟩], .functionDecl "f" [] [⟨0⟩, ⟨3⟩], .moduleDecl false "M" [⟨4⟩]]

def bodilessUse : Program := (Session.fresh bodilessUseTree {}).program

/-- The name of the included module. -/
def bodilessUseName : Name := (bodilessUse.tree.identifier? ⟨1⟩).getD .this

/-- What is known once the clauses of the function are asked for. -/
def bodilessUseAsked : Context :=
  (bodilessUse.askAll [.scopeOf ⟨4⟩, .visibility ⟨2⟩] .empty).getD .empty

/-- The target of both clauses is the scope of the function, which is what the name of the
module is looked up as; no error is reported. -/
theorem bodilessUse_targets_function :
    bodilessUseTree.Finished ∧ bodilessUseTree.Grounded ∧
    bodilessUse.Reachable bodilessUseAsked ∧ bodilessUseAsked.OwnedBy ⟨2⟩ (some ⟨4⟩) ∧
    bodilessUseTree.tag? ⟨4⟩ = some .functionDecl ∧
    bodilessUse.visibility ⟨2⟩ bodilessUseAsked =
      some (some [⟨⟨2⟩, .symbolOnly, true, [(bodilessUseName, bodilessUseName)]⟩,
        ⟨⟨2⟩, .allContents, true, []⟩], bodilessUseAsked) ∧
    bodilessUse.respond (.lookup { imports := true } none ⟨2⟩ bodilessUseName []) bodilessUseAsked =
      some (.sets [.single (.node ⟨4⟩)] [⟨2⟩], bodilessUseAsked) ∧
    bodilessUseAsked.errors = [] := by
  have hasked : bodilessUse.askAll [.scopeOf ⟨4⟩, .visibility ⟨2⟩] .empty =
      some bodilessUseAsked := by decide +kernel
  have howned : bodilessUseAsked.Has ⟨2⟩ ∧ (bodilessUseAsked.scope ⟨2⟩).owner = some ⟨4⟩ := by
    decide +kernel
  have hlookup : bodilessUse.respond (.lookup { imports := true } none ⟨2⟩ bodilessUseName [])
      bodilessUseAsked = some (.sets [.single (.node ⟨4⟩)] [⟨2⟩], bodilessUseAsked) := by
    decide +kernel
  exact ⟨Tree.finished_ofSteps (by decide +kernel), by decide +kernel, .askAll .refl hasked, howned,
    by decide +kernel, by decide +kernel, hlookup, by decide +kernel⟩

end Program

end Scoping
