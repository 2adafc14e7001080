import Scoping.Proofs.Relabeling.Asking
import Scoping.Proofs.Relabeling.Building
import Scoping.Proofs.Syntax.Placement

/-!
Sharing an interner is without effect. Names only ever are compared, looked up and spelled
out, so it does not matter which numbers they have: over an interner that was filled with
any texts before, the same steps build the same tree and the same queries are answered
alike, once names are spelled out.
-/

namespace Scoping

open Interner

/-- What a build step comes to, with names spelled out and the number of interned texts left
out. -/
inductive StepReport where
  | node (id : NodeId)
  | text (text : String)
  | count
  | done
deriving DecidableEq

/-- A finished tree, with names spelled out. -/
structure TreeReport where
  nodes : List NodeReport
  roots : List (String × NodeId)
  bodies : List (NodeId × NodeId)
deriving DecidableEq

/-- What a query comes to, with names spelled out and the number of interned texts left
out. -/
inductive AnswerReport where
  | text (text : String)
  | count
  | answer (answer : Answer)
deriving DecidableEq

/-- What a reply comes to, with names spelled out. -/
structure ReplyReport where
  answer : AnswerReport
  scopeCount : Nat
  diagnosticCount : Nat
deriving DecidableEq

namespace Interner

variable (names : Interner)

def reportStep : BuildAnswer → StepReport
  | .node id => .node id
  | .name name => .text (names.display name)
  | .count _ => .count
  | .done => .done

def reportTree (tree : Tree) : TreeReport where
  nodes := tree.nodes.toList.map names.reportNode
  roots := tree.roots.entries.map fun (name, id) => (names.display name, id)
  bodies := tree.bodies.entries

/-- The label of a built-in type shows its name as a number, so it is left out. -/
def reportAnswer : Query → Answer → AnswerReport
  | .intern _, .name name => .text (names.display name)
  | .internedCount, .count _ => .count
  | _, .innermost report =>
    .answer (.innermost { report with
      label := if report.isBuiltin = some true then none else report.label })
  | _, answer => .answer answer

def reportReply (query : Query) (reply : Reply) : ReplyReport where
  answer := names.reportAnswer query reply.answer
  scopeCount := reply.scopeCount
  diagnosticCount := reply.diagnosticCount

end Interner

namespace Session

/-- All that building a tree over an interner that holds `texts` and asking about it comes
to, with names spelled out. -/
def observe (texts : List String) (steps : List BuildStep) (config : Config)
    (queries : List Query) :
    List (Except BuildError StepReport) ×
      Except BuildError (TreeReport × Option (List ReplyReport)) :=
  let (_, names) := Interner.initial.internAll texts
  let (outcomes, builder) := BuildStep.runAll steps (.ofNames names)
  (outcomes.map (Except.map builder.names.reportStep),
    builder.finish.map fun tree => (tree.names.reportTree tree,
      ((fresh tree config).askAll queries).map fun (replies, session) =>
        List.zipWith session.names.reportReply queries replies))

end Session

namespace Builder

theorem collectRoots_map {ρ : Relabeling} {names names' : Interner} (roots : Assoc Name NodeId)
    {nodes : List Node} (hdisplay : ∀ node ∈ nodes, ∀ name ∈ node.kind.names,
      names'.display (ρ.name name) = names.display name) :
    collectRoots names' (roots.bimap ρ.name id) (nodes.map ρ.node) =
      (collectRoots names roots nodes).map (Assoc.bimap ρ.name id) := by
  induction nodes generalizing roots with
  | nil => rfl
  | cons node rest ih =>
    obtain ⟨hnode, hrest⟩ := List.forall_mem_cons.mp hdisplay
    obtain ⟨nodeId, parent, kind, children⟩ := node
    rw [List.map_cons, collectRoots, collectRoots]
    cases parent with
    | some parent => exact ih roots hrest
    | none =>
      cases kind with
      | moduleDecl name internal =>
        dsimp only [Relabeling.node, Relabeling.kind]
        rw [Assoc.get?_bimap ρ.injective]
        cases roots.get? name with
        | none =>
          dsimp only [Option.map_none]
          rw [← ih _ hrest, Assoc.bimap_insert ρ.injective]
          rfl
        | some first =>
          dsimp only [Option.map_some]
          rw [hnode name (by simp [NodeKind.names])]
          rfl
      | _ => rfl

namespace Alike

variable {builder builder' : Builder} (halike : builder.Alike builder') {ρ : Relabeling}
variable (hρ : Pairing.sharing.fits builder.names builder'.names ρ)
include halike hρ

/-- The names in the nodes that a tree ends with read the same. -/
theorem display_of_placed {nodes : Array Node}
    (hplaced : placeBodies builder.nodes builder.bodies.entries = .ok nodes) {index : Nat}
    {node : Node} (hnode : nodes[index]? = some node) {name : Name}
    (hname : name ∈ node.kind.names) :
    builder'.names.display (ρ.name name) = builder.names.display name := by
  have hview := map_placeBodies Node.kind (fun _ _ => rfl) hplaced index
  rw [hnode, Option.map_some] at hview
  obtain ⟨old, hold, hkind⟩ := Option.map_eq_some_iff.mp hview.symm
  obtain ⟨text, htext⟩ := halike.known index old hold name (hkind ▸ hname)
  exact Twins.display ⟨text, htext, hρ.2 htext⟩

/-- The second builder ends as the first one does, with the names relabeled. -/
theorem finish_eq : builder'.finish = builder.finish.map fun tree =>
    { names := builder'.names, nodes := tree.nodes.map ρ.node,
      roots := tree.roots.bimap ρ.name id, bodies := tree.bodies } := by
  unfold finish
  rw [halike.nodes ρ hρ, halike.bodies, placeBodies_map]
  cases hplaced : placeBodies builder.nodes builder.bodies.entries with
  | error error => rfl
  | ok nodes =>
    have hroots : collectRoots builder'.names .empty (nodes.toList.map ρ.node) =
        (collectRoots builder.names .empty nodes.toList).map (Assoc.bimap ρ.name id) := by
      refine collectRoots_map .empty fun node hnode name hname => ?_
      obtain ⟨index, hlt, hread⟩ := Array.mem_iff_getElem.mp (Array.mem_toList_iff.mp hnode)
      exact display_of_placed halike hρ hplaced
        ((Array.getElem?_eq_getElem hlt).trans (congrArg some hread)) hname
    show (collectRoots builder'.names .empty (nodes.map ρ.node).toList >>= _) =
      (collectRoots builder.names .empty nodes.toList >>= _).map _
    rw [Array.toList_map, hroots]
    cases collectRoots builder.names .empty nodes.toList <;> rfl

end Alike

theorem names_of_finish {builder : Builder} {tree : Tree} (hfinish : builder.finish = .ok tree) :
    tree.names = builder.names := by
  obtain ⟨hplaced, hcollected, -⟩ := eq_of_finish hfinish
  unfold finish at hfinish
  rw [hplaced] at hfinish
  change (collectRoots builder.names .empty tree.nodes.toList >>= _) = _ at hfinish
  rw [hcollected] at hfinish
  rw [← Except.ok.inj hfinish]

/-- Builders that are alike finish alike: both are refused for the same reason, or both end
with trees that a relabeling leads between. -/
theorem Alike.finish {builder builder' : Builder} (halike : builder.Alike builder') :
    Matches (fun tree tree' => tree.names = builder.names ∧ tree'.names = builder'.names ∧
      ∀ ρ, Pairing.sharing.fits builder.names builder'.names ρ → tree.Relabeled ρ tree')
      builder.finish builder'.finish := by
  obtain ⟨ρ, hρ⟩ := halike.exists_fits
  have heq := halike.finish_eq hρ
  cases hfinish : builder.finish with
  | error error =>
    rw [hfinish] at heq
    rw [heq]
    exact .refused error
  | ok tree =>
    rw [hfinish] at heq
    rw [heq]
    refine .ok ⟨names_of_finish hfinish, rfl, fun ρ' hρ' => ?_⟩
    have hsame := heq.symm.trans (halike.finish_eq hρ')
    rw [hfinish] at hsame
    have htree := Except.ok.inj hsame
    refine ⟨congrArg Tree.nodes htree, congrArg Tree.roots htree, rfl, ?_⟩
    intro id kind hkind name hname
    obtain ⟨node, hnode, rfl⟩ := Option.map_eq_some_iff.mp hkind
    rw [names_of_finish hfinish]
    exact display_of_placed halike hρ' (eq_of_finish hfinish).1 hnode hname

theorem alike_ofNames (texts : List String) :
    (ofNames .initial).Alike (ofNames (Interner.initial.internAll texts).2) where
  paired := ⟨sound_initial, sound_initial.internAll texts,
    fun name text hread => ⟨name, extends_internAll .initial texts name text hread⟩⟩
  bodies := rfl
  linked := rfl
  known _ _ hnode := by cases hnode
  nodes _ _ := by simp [ofNames]

end Builder

/-- Trees that a relabeling leads between are shown alike. -/
theorem Tree.Relabeled.reportTree {ρ : Relabeling} {tree tree' : Tree}
    (hrelabeled : tree.Relabeled ρ tree') {names names' : Interner}
    (hspells : ρ.Spells names names') (hplain : ρ.conceals = false) :
    names'.reportTree tree' = names.reportTree tree := by
  have hnodes : tree'.nodes.toList.map names'.reportNode =
      tree.nodes.toList.map names.reportNode := by
    rw [hrelabeled.nodes, Array.toList_map, ρ.list_map_shown hspells.reportNode,
      Relabeling.shown, hplain]
    rfl
  have hroots : tree'.roots.entries.map (fun entry => (names'.display entry.1, entry.2)) =
      tree.roots.entries.map fun entry => (names.display entry.1, entry.2) := by
    rw [hrelabeled.roots]
    show (tree.roots.entries.map _).map _ = _
    rw [List.map_map]
    exact List.map_congr_left fun entry _ => congrArg (·, entry.2) (hspells entry.1)
  simp only [Interner.reportTree, hnodes, hrelabeled.bodies]
  exact congrArg (TreeReport.mk _ · _) hroots

/-- Names are spelled out in all other answers already. -/
theorem reportAnswer_of_isName (names names' : Interner) (query : Query) {answer : Answer}
    (hspelled : answer.isName = false) :
    names'.reportAnswer query answer = names.reportAnswer query answer := by
  unfold Interner.reportAnswer
  split
  · cases hspelled
  all_goals rfl

/-- Answers that are alike are shown alike, once names are spelled out. -/
theorem Answer.Alike.reportAnswer {ρ : Relabeling} {names names' : Interner}
    (hspells : ρ.Spells names names') (hplain : ρ.conceals = false) {query : Query}
    {answer answer' : Answer} (halike : Answer.Alike .sharing ρ query answer answer') :
    names'.reportAnswer query answer' = names.reportAnswer query answer := by
  cases halike with
  | name text name => exact congrArg AnswerReport.text (hspells name)
  | size => rfl
  | innermost ref text _ result =>
    obtain ⟨decl?, found⟩ := result
    rcases decl? with _ | _ | _ <;> rfl
  | shown _ hspelled =>
    rw [Relabeling.shown, hplain]
    exact reportAnswer_of_isName names names' query hspelled

theorem Reply.AllAlike.reportReplies {ρ : Relabeling} {names names' : Interner}
    (hspells : ρ.Spells names names') (hplain : ρ.conceals = false) {queries : List Query}
    {replies replies' : List Reply} (halike : Reply.AllAlike .sharing ρ queries replies replies') :
    List.zipWith names'.reportReply queries replies' =
      List.zipWith names.reportReply queries replies := by
  induction halike with
  | nil => rfl
  | @cons query reply reply' _ _ _ hreply _ ih =>
    have hfirst : names'.reportReply query reply' = names.reportReply query reply := by
      unfold Interner.reportReply
      rw [hreply.answer.reportAnswer hspells hplain, hreply.scopeCount, hreply.diagnosticCount]
    exact congrArg₂ List.cons hfirst ih

theorem BuildAnswer.Alike.reportStep {names names' : Interner} {answer answer' : BuildAnswer}
    (halike : BuildAnswer.Alike names names' answer answer') :
    names'.reportStep answer' = names.reportStep answer := by
  cases halike with
  | name htwins => exact congrArg StepReport.text htwins.display
  | _ => rfl

/-- Sequences of outcomes that match are shown alike. -/
theorem map_reportStep_eq {names names' : Interner}
    {outcomes outcomes' : List (Except BuildError BuildAnswer)}
    (hmatches : List.Forall₂ (Matches (BuildAnswer.Alike names names')) outcomes outcomes') :
    outcomes'.map (Except.map names'.reportStep) = outcomes.map (Except.map names.reportStep) := by
  induction hmatches with
  | nil => rfl
  | cons houtcome _ ih =>
    refine congrArg₂ List.cons ?_ ih
    cases houtcome with
    | ok hanswer => exact congrArg Except.ok hanswer.reportStep
    | refused => rfl

namespace Session

/-- Trees over interners that go together are asked about with the same results. -/
theorem report_askAll_eq {tree tree' : Tree} (hpairs : Pairing.sharing.pairs tree.names tree'.names)
    (htree : ∀ ρ, Pairing.sharing.fits tree.names tree'.names ρ → tree.Relabeled ρ tree')
    (config : Config) (queries : List Query) :
    (((fresh tree' config).askAll queries).map fun (replies, session) =>
        List.zipWith session.names.reportReply queries replies) =
      ((fresh tree config).askAll queries).map fun (replies, session) =>
        List.zipWith session.names.reportReply queries replies := by
  have hstart : (fresh tree config).Alike .sharing (fresh tree' config) :=
    (Alike.start hpairs htree config).1
  have hasked := askAll_alike hstart queries
  generalize (fresh tree config).askAll queries = left at hasked ⊢
  generalize (fresh tree' config).askAll queries = right at hasked ⊢
  cases hasked with
  | none => rfl
  | some hafter =>
    obtain ⟨ρ, hρ, hspells⟩ := Pairing.sharing.spells hafter.alike.paired
    exact congrArg some ((hafter.outcomes ρ hρ).2.reportReplies hspells hρ.1)

/-- Whatever texts an interner held before, building over it and asking about the tree comes
to the same as over a fresh one: the same nodes and errors step by step, the same tree or
the same refusal in the end, and the same replies to every sequence of queries, once names
are spelled out. -/
theorem observe_eq_fresh (texts : List String) (steps : List BuildStep) (config : Config)
    (queries : List Query) :
    observe texts steps config queries = observe [] steps config queries := by
  obtain ⟨halike, -, -, houtcomes⟩ := BuildStep.runAll_alike (Builder.alike_ofNames texts) steps
  refine Prod.ext (map_reportStep_eq houtcomes) ?_
  have hfinish := halike.finish
  have hpairs := halike.paired
  change Except.map _
      (BuildStep.runAll steps (.ofNames (Interner.initial.internAll texts).2)).2.finish =
    Except.map _ (BuildStep.runAll steps (.ofNames .initial)).2.finish
  generalize (BuildStep.runAll steps (.ofNames .initial)).2 = builder at hfinish hpairs
  generalize (BuildStep.runAll steps (.ofNames (Interner.initial.internAll texts).2)).2 =
    builder' at hfinish hpairs
  generalize builder.finish = outcome at hfinish
  generalize builder'.finish = outcome' at hfinish
  cases hfinish with
  | refused error => rfl
  | @ok tree tree' htrees =>
    obtain ⟨hnames, hnames', hrelabeled⟩ := htrees
    rw [← hnames, ← hnames'] at hpairs hrelabeled
    obtain ⟨ρ, hρ, hspells⟩ := Pairing.sharing.spells hpairs
    exact congrArg Except.ok (Prod.ext ((hrelabeled ρ hρ).reportTree hspells hρ.1)
      (report_askAll_eq hpairs hrelabeled config queries))

end Session

end Scoping
