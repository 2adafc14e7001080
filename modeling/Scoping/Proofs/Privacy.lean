import Scoping.Proofs.Relabeling.Asking
import Scoping.Proofs.Syntax.WellFormed

/-!
Access keywords are without effect. A `use` or `import` that is marked private brings in
the same names as a public one, for the clients of its module too: two trees that differ
in access keywords only answer every sequence of queries alike, handle by handle, and only
what shows the keywords themselves tells them apart.
-/

namespace Scoping

/-- A kind as it would be if no access keyword were written. -/
def NodeKind.withoutAccess : NodeKind → NodeKind
  | useStmt _ => useStmt .unstated
  | importStmt _ => importStmt .unstated
  | kind => kind

/-- A tree as it would be if no access keyword were written. -/
def Tree.withoutAccess (tree : Tree) : Tree :=
  { tree with nodes := tree.nodes.map fun node => { node with kind := node.kind.withoutAccess } }

/-- A reply as it would be if no access keyword were written. -/
def Reply.withoutAccess (reply : Reply) : Reply :=
  { reply with answer := reply.answer.withoutAccess }

namespace Relabeling

/-- Leaves every name as it is and conceals the access keywords. -/
def concealing : Relabeling := ⟨id, true, Function.injective_id, rfl, rfl⟩

theorem kind_concealing (kind : NodeKind) : concealing.kind kind = kind.withoutAccess := by
  cases kind <;> rfl

theorem decl_concealing (decl : Decl) : concealing.decl decl = decl := by cases decl <;> rfl

theorem innermost_concealing (result : InnermostMatch) : concealing.innermost result = result := by
  obtain ⟨decl?, found⟩ := result
  simp [innermost, funext decl_concealing]

theorem spells_concealing (names : Interner) : concealing.Spells names names := fun _ => rfl

theorem shown_concealing {α : Type} (withoutAccess : α → α) (report : α) :
    concealing.shown withoutAccess report = withoutAccess report := rfl

end Relabeling

open Relabeling

/-- One interner on both sides, and the access keywords concealed. -/
def Pairing.concealing : Pairing where
  conceals := true
  pairs names names' := names' = names
  fits _ _ ρ := ρ = .concealing
  intern text hsame := by rw [hsame]
  narrows text hsame _ hρ := ⟨hρ, by rw [hsame, hρ]; rfl⟩
  concealed hρ := by rw [hρ]; rfl
  spells hsame := ⟨.concealing, rfl, by rw [hsame]; exact spells_concealing _⟩

theorem Tree.relabeled_withoutAccess (tree : Tree) :
    tree.Relabeled .concealing tree.withoutAccess where
  nodes := by
    refine congrArg (Array.map · tree.nodes) (funext fun node => ?_)
    rw [Relabeling.node, kind_concealing]
  roots := by simp [withoutAccess, Assoc.bimap, Relabeling.concealing]
  bodies := rfl
  display _ _ _ _ _ := rfl

/-- Two answers that are alike differ in what shows access keywords. -/
theorem Answer.Alike.eq_withoutAccess {query : Query} {answer answer' : Answer}
    (halike : Answer.Alike .concealing .concealing query answer answer') :
    answer' = answer.withoutAccess := by
  cases halike with
  | name => rfl
  | size hsame => exact congrArg (fun names => Answer.count names.size) hsame
  | innermost ref text names result =>
    rw [innermost_concealing]
    rfl
  | shown => exact shown_concealing _ _

theorem Reply.AllAlike.eq_withoutAccess {queries : List Query} {replies replies' : List Reply}
    (halike : Reply.AllAlike .concealing .concealing queries replies replies') :
    replies' = replies.map Reply.withoutAccess := by
  induction halike with
  | nil => rfl
  | cons hreply _ ih =>
    obtain ⟨hanswer, hscopes, hdiagnostics⟩ := hreply
    exact congrArg₂ List.cons
      (congr (congrArg₂ Reply.mk hanswer.eq_withoutAccess hscopes) hdiagnostics) ih

namespace Session

/-- A tree without access keywords is answered about as the tree itself, with the
keywords left out of the answers. -/
theorem askAll_withoutAccess (tree : Tree) (config : Config) (queries : List Query) :
    ((fresh tree.withoutAccess config).askAll queries).map Prod.fst =
      ((fresh tree config).askAll queries).map fun result => result.1.map Reply.withoutAccess := by
  have hstart : (fresh tree config).Alike .concealing (fresh tree.withoutAccess config) :=
    (Alike.start (show Pairing.concealing.pairs tree.names tree.names from rfl)
      (fun _ hρ => hρ ▸ tree.relabeled_withoutAccess) config).1
  have hasked := askAll_alike hstart queries
  generalize (fresh tree config).askAll queries = left at hasked ⊢
  generalize (fresh tree.withoutAccess config).askAll queries = right at hasked ⊢
  cases hasked with
  | none => rfl
  | some hafter => exact congrArg some (hafter.outcomes .concealing rfl).2.eq_withoutAccess

/-- Whether a `use` or `import` is private has no effect on resolution: trees that differ
in access keywords only give equal replies to every sequence of queries, whatever the
configuration, but for what shows the keywords themselves. -/
theorem access_unobservable {tree tree' : Tree} (hsame : tree.withoutAccess = tree'.withoutAccess)
    (config : Config) (queries : List Query) :
    ((fresh tree config).askAll queries).map (fun result => result.1.map Reply.withoutAccess) =
      ((fresh tree' config).askAll queries).map fun result =>
        result.1.map Reply.withoutAccess := by
  rw [← askAll_withoutAccess, ← askAll_withoutAccess, hsame]

/-- A module that uses another one, and a client that uses the first. -/
def clientTree (access : Access) : Tree :=
  .ofSteps [.variableDecl "x" none, .moduleDecl false "A" [⟨0⟩], .identifier "A",
    .clause ⟨2⟩ .unlimited [], .useStmt access [⟨3⟩], .moduleDecl false "B" [⟨4⟩],
    .identifier "B", .clause ⟨6⟩ .unlimited [], .useStmt .unstated [⟨7⟩],
    .moduleDecl false "C" [⟨8⟩]]

/-- What the client finds under the name of a variable of the other module, and what the
module on the way brings in. -/
def clientQueries : List Query :=
  [.lookup ⟨.node ⟨9⟩, none, "x", .allVisible⟩, .visibility (.node ⟨5⟩)]

/-- The client finds the variable, whether the module on the way uses the other one publicly
or privately. -/
theorem client_access_unobservable :
    (clientTree .exposed).kind? ⟨4⟩ = some (.useStmt .exposed) ∧
      (clientTree .hidden).kind? ⟨4⟩ = some (.useStmt .hidden) ∧
      ((fresh (clientTree .hidden) {}).askAll clientQueries).map
          (fun result => result.1.head?.map Reply.answer) = some (some (.sets [[.node ⟨0⟩]])) ∧
      ((fresh (clientTree .exposed) {}).askAll clientQueries).map
          (fun result => result.1.map Reply.withoutAccess) =
        ((fresh (clientTree .hidden) {}).askAll clientQueries).map fun result =>
          result.1.map Reply.withoutAccess := by
  have hsame : (clientTree .exposed).withoutAccess = (clientTree .hidden).withoutAccess := by
    decide +kernel
  exact ⟨by decide +kernel, by decide +kernel, by decide +kernel,
    access_unobservable hsame {} clientQueries⟩

end Session

end Scoping
