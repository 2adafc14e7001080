import Scoping.Proofs.Instantiation

/-!
The questions that can be asked about a program in one context, and the contexts
that asking them leads to. Whatever was asked before, and whatever the tree's
statements bring in from each other, each question has an answer.
-/

namespace Scoping

open Context Resolve

/-- One question, in terms of the handles of a context. -/
inductive Request where
  | rootScope
  | scopeOf (node : NodeId)
  | moduleOf (id : ScopeId)
  | visibility (id : ScopeId)
  /-- A lookup that skips the scopes in `entered`. -/
  | lookup (config : LookupConfig) (receiver : Option ScopeId) (id : ScopeId) (name : Name)
    (entered : List ScopeId)
  | innermost (id : ScopeId) (name : Name)
  | seesWhole (goal start : ScopeId)
  | instantiation (id : ScopeId) (outer : Option PoiId)
deriving DecidableEq

/-- What a question is answered with. -/
inductive Response where
  | scope (id : ScopeId)
  | scope? (id : Option ScopeId)
  | clauses (found : Option (List Clause))
  /-- The sets found, and the scopes entered in the end. -/
  | sets (found : List Overloads) (entered : List ScopeId)
  | innermost (result : InnermostMatch)
  | flag (flag : Bool)
  | poi (id : PoiId)
deriving DecidableEq

/-- The nodes and handles of a question are those of the tree and the context. -/
def Request.Valid (program : Program) (context : Context) : Request → Prop
  | .rootScope => True
  | .scopeOf node => program.tree.contains node = true
  | .moduleOf id | .visibility id | .innermost id _ => context.Has id
  | .lookup _ receiver id _ _ => (∀ other ∈ receiver, context.Has other) ∧ context.Has id
  | .seesWhole goal start => context.Has goal ∧ context.Has start
  | .instantiation id outer => context.Has id ∧ ∀ link ∈ outer, link.index < context.pois.size

instance Request.decidableValid (program : Program) (context : Context) :
    (request : Request) → Decidable (request.Valid program context)
  | .rootScope => inferInstanceAs (Decidable True)
  | .scopeOf node => inferInstanceAs (Decidable (program.tree.contains node = true))
  | .moduleOf id | .visibility id | .innermost id _ => inferInstanceAs (Decidable (context.Has id))
  | .lookup _ receiver id _ _ =>
    inferInstanceAs (Decidable ((∀ other ∈ receiver, context.Has other) ∧ context.Has id))
  | .seesWhole goal start => inferInstanceAs (Decidable (context.Has goal ∧ context.Has start))
  | .instantiation id outer =>
    inferInstanceAs (Decidable (context.Has id ∧ ∀ link ∈ outer, link.index < context.pois.size))

namespace Program

/-- Answers a question. -/
def respond (program : Program) : Request → Resolve Response
  | .rootScope => .scope <$> program.rootScope
  | .scopeOf node => .scope <$> program.scopeOf node
  | .moduleOf id => return .scope? ((← get).moduleOf? id)
  | .visibility id => .clauses <$> program.visibility id
  | .lookup config receiver id name entered => do
    let (found, entered) ← (program.lookupSharing config receiver id name).run entered
    return .sets found entered
  | .innermost id name => .innermost <$> program.innermost id name
  | .seesWhole goal start => .flag <$> program.seesWhole goal start
  | .instantiation id outer => .poi <$> program.instantiationPoint id outer

/-- The contexts that valid questions lead to from a given one. -/
inductive Reaches (program : Program) (start : Context) : Context → Prop
  | refl : Reaches program start start
  | asked {context later : Context} {request : Request} {response : Response}
    (hcontext : Reaches program start context) (hvalid : request.Valid program context)
    (hresponse : program.respond request context = some (response, later)) :
    Reaches program start later

/-- The contexts that valid questions lead to, starting with nothing worked out. -/
def Reachable (program : Program) : Context → Prop := program.Reaches .empty

/-- Asks questions one after another, none of which may be invalid. -/
def askAll (program : Program) : List Request → Context → Option Context
  | [], context => some context
  | request :: rest, context =>
    if request.Valid program context then
      (program.respond request context).bind fun result => program.askAll rest result.2
    else none

variable {program : Program} {keeps : Context → Prop} {context : Context}

theorem Reaches.trans {later last : Context} (hfirst : program.Reaches context later)
    (hsecond : program.Reaches later last) : program.Reaches context last := by
  induction hsecond with
  | refl => exact hfirst
  | asked _ hvalid hresponse ih => exact ih.asked hvalid hresponse

theorem Reaches.askAll {later last : Context} {requests : List Request}
    (hreaches : program.Reaches context later)
    (hasked : program.askAll requests later = some last) : program.Reaches context last := by
  induction requests generalizing later with
  | nil => exact Option.some.inj hasked ▸ hreaches
  | cons request rest ih =>
    rw [Program.askAll] at hasked
    split at hasked
    · next hvalid =>
      obtain ⟨⟨response, next⟩, hresponse, hrest⟩ := Option.bind_eq_some_iff.mp hasked
      exact ih (hreaches.asked hvalid hresponse) hrest
    · cases hasked

/-- A question is answered, and leaves the links well formed. -/
theorem respond_ends (hforest : program.tree.IsForest) (hserves : program.Serves keeps)
    (hkeeps : keeps context) {request : Request} (hvalid : request.Valid program context) :
    Ends (Answering keeps) (program.respond request) context
      fun _ later => context.Linked keeps → later.Linked keeps := by
  have hsound := hserves.sound _ hkeeps
  have hrefl : ∀ later, Answering keeps context later → Answering keeps later later :=
    fun later hchanges => ⟨.refl later, hchanges.2⟩
  have hresolving : ∀ {α : Type} {action : Resolve α} {post : α → Context → Prop},
      Ends (Resolving keeps) action context post →
        Ends (Answering keeps) action context fun _ later =>
          context.Linked keeps → later.Linked keeps :=
    fun hends => (hends.mono fun _ _ hchanges _ hlinked =>
      hlinked.of_sameLinks hsound hchanges.1.toGrows hchanges.1.sameLinks).widen fun _ => .of_resolving
  cases request with
  | rootScope =>
    exact .map hrefl (hresolving ((rootScope_ends hsound).resolving hserves.toUpholds hkeeps))
  | scopeOf node =>
    exact .map hrefl
      (hresolving ((scopeOf_ends hforest hsound node).resolving hserves.toUpholds hkeeps))
  | moduleOf id => exact .get_bind (.pure ⟨.refl context, hkeeps⟩ fun hlinked => hlinked)
  | visibility id =>
    have hid : context.Has id := hvalid
    exact .map hrefl (hresolving (hserves.visibility hkeeps hid))
  | lookup config receiver id name entered =>
    refine (hresolving (lookupSharing_ends hforest hserves hkeeps hvalid.1 hvalid.2 config name
      entered)).bind fun result later hchanges hlinked => ?_
    exact .pure ⟨.refl later, hchanges.2⟩ hlinked
  | innermost id name =>
    have hid : context.Has id := hvalid
    refine .map hrefl ((innermost_ends hforest hserves hkeeps hid name).mono ?_)
    exact fun _ _ hchanges hpost hlinked => hlinked.of_sameLinks hsound hchanges.1 hpost.2.1
  | seesWhole goal start =>
    exact .map hrefl (hresolving (seesWhole_ends hserves hkeeps hvalid.2))
  | instantiation id outer =>
    exact .map hrefl
      ((instantiationPoint_ends hserves hkeeps hvalid.1 hvalid.2).mono fun _ _ _ hpost => hpost.2)

/-- What is true of a context between questions. -/
structure Settled (program : Program) (context : Context) : Prop where
  sound : context.Sound program
  /-- No resolution is open. -/
  idle : ∀ id, ¬ context.Running id

theorem settled_empty (program : Program) : program.Settled .empty :=
  ⟨sound_empty program, nofun⟩

/-- Questions take nothing back. -/
theorem Reaches.answering {later : Context} (hforest : program.tree.IsForest)
    (hserves : program.Serves keeps) (hkeeps : keeps context)
    (hreaches : program.Reaches context later) : Answering keeps context later := by
  induction hreaches with
  | refl => exact ⟨.refl context, hkeeps⟩
  | asked _ hvalid hresponse ih =>
    exact IsTrans.trans _ _ _ ih
      ((respond_ends hforest hserves ih.2 hvalid).of_run hresponse).1

theorem Reachable.settled (hforest : program.tree.IsForest)
    (hreachable : program.Reachable context) : program.Settled context := by
  obtain ⟨hgrows, hsound⟩ :=
    Reaches.answering hforest (serves_sound hforest) (sound_empty program) hreachable
  exact ⟨hsound, fun id hrunning => (settled_empty program).idle id (hgrows.running id hrunning)⟩

/-- Between questions the links are well formed. -/
theorem Reachable.linked (hforest : program.tree.IsForest)
    (hreachable : program.Reachable context) : context.Linked (Sound program) := by
  induction hreachable with
  | refl => exact linked_empty
  | asked hcontext hvalid hresponse ih =>
    have hsettled := Reachable.settled hforest hcontext
    exact ((respond_ends hforest (serves_sound hforest) hsettled.sound hvalid).of_run hresponse).2 ih

/-- Every question about a finished tree whose chains of parents end is answered,
however scopes use and import each other: the fuel, which only depends on the
number of nodes, is never used up. -/
theorem respond_isSome {tree : Tree} (hfinished : tree.Finished) (hgrounded : tree.Grounded)
    (htree : program.tree = tree) (hreachable : program.Reachable context) {request : Request}
    (hvalid : request.Valid program context) : (program.respond request context).isSome = true := by
  have hforest : program.tree.IsForest := htree ▸ hfinished.isForest hgrounded
  obtain ⟨response, later, hrun, -⟩ :=
    respond_ends hforest (serves_sound hforest) (hreachable.settled hforest).sound hvalid
  rw [hrun, Option.isSome_some]

/-- A new session is about the tree that it was given. -/
theorem tree_fresh (tree : Tree) (config : Config) :
    (Session.fresh tree config).program.tree = tree := rfl

/-- Two modules that use each other, with a variable of the same name in each. -/
def mutualUse : Program :=
  (Session.fresh (.ofSteps
    [.identifier "B", .clause ⟨0⟩ .unlimited [], .useStmt .unstated [⟨1⟩], .variableDecl "x" none,
      .moduleDecl false "A" [⟨2⟩, ⟨3⟩], .identifier "A", .clause ⟨5⟩ .unlimited [],
      .useStmt .unstated [⟨6⟩], .variableDecl "x" none,
      .moduleDecl false "B" [⟨7⟩, ⟨8⟩]]) {}).program

/-- The name of the variable in each of the two modules. -/
def mutualUseName : Name := (mutualUse.tree.declName? ⟨3⟩).getD .this

/-- What is known of the two modules once the scope of the first is asked for. -/
def mutualUseAsked : Context := (mutualUse.askAll [.scopeOf ⟨4⟩] .empty).getD .empty

theorem mutualUse_finished : mutualUse.tree.Finished := Tree.finished_ofSteps (by decide +kernel)

theorem mutualUse_grounded : mutualUse.tree.Grounded := by decide +kernel

theorem mutualUse_reachable : mutualUse.Reachable mutualUseAsked :=
  Reaches.askAll .refl (show mutualUse.askAll [.scopeOf ⟨4⟩] .empty = some mutualUseAsked by
    decide +kernel)

theorem mutualUse_has : mutualUseAsked.Has ⟨1⟩ := by decide +kernel

theorem mutualUse_respond_isSome :
    (mutualUse.respond (.visibility ⟨1⟩) mutualUseAsked).isSome = true :=
  respond_isSome mutualUse_finished mutualUse_grounded rfl mutualUse_reachable
    (show mutualUseAsked.Has ⟨1⟩ from mutualUse_has)

end Program

end Scoping
