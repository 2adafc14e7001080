import Scoping.Proofs.Gathering
import Scoping.Proofs.Context.ScopeOf
import Scoping.Visibility.Target

/-!
A program beside one of the same tree in which more nodes open a scope. The scopes
that only the second one has are spare: they declare nothing and bring nothing in.
Whatever a clause can have as its target has the same owner in both.
-/

namespace Scoping

open Context

/-- The same program, with another choice of whether empty blocks share. -/
abbrev Program.sharing (program : Program) (shares : Bool) : Program :=
  { program with sharesEmpty := shares }

namespace Gathered

/-- Whether all declared nodes are as asked. -/
def Declares (p : NodeId → Prop) (gathered : Gathered) : Prop :=
  ∀ name overloads, gathered.declared.get? name = some overloads →
    ∀ node, .node node ∈ overloads.toList → p node

variable {p : NodeId → Prop} {gathered : Gathered}

theorem declares_declare (hdeclares : gathered.Declares p) (name : Name) {id : NodeId}
    (hid : p id) : (gathered.declare name id).Declares p := by
  intro other overloads hdeclared node hnode
  rcases DeclTable.cases_of_mem_declare hdeclared hnode with ⟨-, hnew⟩ | ⟨known, hknown, hold⟩
  · cases hnew
    exact hid
  · exact hdeclares other known hknown node hold

end Gathered

namespace Tree

variable {tree : Tree}

/-- Whether only declarations of several names at once stand between a node and one
that it is below. -/
inductive HeldIn (tree : Tree) (owner : NodeId) : NodeId → Prop
  | child {node : NodeId} (hparent : tree.parent? node = some owner) : HeldIn tree owner node
  | through {node holder : NodeId} (hparent : tree.parent? node = some holder)
    (htag : tree.tag? holder = some .tupleDecl ∨ tree.tag? holder = some .multiDecl)
    (hholder : HeldIn tree owner holder) : HeldIn tree owner node

theorem declares_gatherChild (hplaced : tree.Placed) (excluded : Option Name) {owner id : NodeId}
    {fuel : Nat} {gathered : Gathered}
    (hdeclares : gathered.Declares fun node =>
      tree.tag? node ≠ some .typeQuery → tree.HeldIn owner node)
    (hid : tree.HeldIn owner id) :
    (tree.gatherChild excluded fuel gathered id).Declares fun node =>
      tree.tag? node ≠ some .typeQuery → tree.HeldIn owner node := by
  induction fuel generalizing gathered id with
  | zero => exact hdeclares
  | succ fuel ih =>
    have hall : tree.tag? id = some .tupleDecl ∨ tree.tag? id = some .multiDecl →
        ((tree.children id).foldl (tree.gatherChild excluded fuel) gathered).Declares
          fun node => tree.tag? node ≠ some .typeQuery → tree.HeldIn owner node :=
      fun htag => List.foldlRecOn _ _ hdeclares fun _ hdeclares child hchild =>
        ih hdeclares (.through (hplaced.children id child hchild) htag hid)
    have hdeclare : ∀ name, (gathered.declare name id).Declares fun node =>
        tree.tag? node ≠ some .typeQuery → tree.HeldIn owner node :=
      fun name => Gathered.declares_declare hdeclares name fun _ => hid
    rw [gatherChild]
    split
    · exact hdeclares
    · next hkind => exact hall (.inl (tag?_of_kind? hkind))
    · next hkind => exact hall (.inr (tag?_of_kind? hkind))
    · exact hdeclares
    · exact hdeclares
    · exact hdeclare _
    · split
      · exact hdeclares
      · exact hdeclare _
    · exact hdeclare _
    · refine List.foldlRecOn _ _ (hdeclare _) fun _ hdeclares query hquery => ?_
      exact Gathered.declares_declare hdeclares query.1 fun hother =>
        absurd (tag?_of_mem_typeQueries hquery) hother
    · split
      · exact hdeclare _
      · exact hdeclares

/-- What a node declares is below it, with nothing between that opens a scope, unless it is
a pattern variable. -/
theorem heldIn_of_gather (hplaced : tree.Placed) (owner : NodeId) (excluded : Option Name) :
    (tree.gather owner excluded).Declares fun node =>
      tree.tag? node ≠ some .typeQuery → tree.HeldIn owner node :=
  List.foldlRecOn _ _ (fun _ _ hnone => nomatch hnone) fun _ hdeclares child hchild =>
    declares_gatherChild hplaced excluded hdeclares (.child (hplaced.children owner child hchild))

end Tree

namespace Program

variable {program : Program} {shares : Bool}

theorem tag?_of_opensScope {node : NodeId} (hopens : program.opensScope node = true) :
    ∃ tag, program.tree.tag? node = some tag ∧ tag.mayOpenScope = true := by
  unfold opensScope at hopens
  cases htag : program.tree.tag? node with
  | none =>
    rw [htag] at hopens
    cases hopens
  | some tag =>
    rw [htag] at hopens
    exact ⟨tag, rfl, (Bool.and_eq_true _ _ ▸ hopens).1⟩

theorem opensScope_of_tag_eq_false {node : NodeId} {tag : Tag}
    (htag : program.tree.tag? node = some tag) (hcloses : tag.mayOpenScope = false) :
    program.opensScope node = false := by
  rw [opensScope, htag]
  simp [hcloses]

/-- What opens a scope is no include, so it stands for itself. -/
theorem standIn_of_opensScope {node : NodeId} (hopens : program.opensScope node = true) :
    program.tree.standIn node = node := by
  obtain ⟨tag, htag, hmay⟩ := tag?_of_opensScope hopens
  refine Tree.standIn_of_tag fun hinclude => ?_
  rw [htag, Option.some_inj] at hinclude
  subst hinclude
  cases hmay

theorem owner_self {node : NodeId} (hopens : program.opensScope node = true) :
    program.Owner node (some node) := by
  have hstands := standIn_of_opensScope hopens
  have howner : program.Owner node (some (program.tree.standIn node)) :=
    .opens (by rwa [hstands])
  rwa [hstands] at howner

/-- What a node holds with nothing between that opens a scope lies in its scope. -/
theorem around_of_heldIn {owner node : NodeId} (hopens : program.opensScope owner = true)
    (hheld : program.tree.HeldIn owner node) : program.Around node (some owner) := by
  induction hheld with
  | child hparent =>
    rw [Around, hparent]
    exact owner_self hopens
  | @through node holder hparent htag _ ih =>
    have hcloses : ∀ tag, program.tree.tag? holder = some tag →
        tag = .tupleDecl ∨ tag = .multiDecl → program.opensScope holder = false := by
      rintro tag hholder (rfl | rfl) <;> exact opensScope_of_tag_eq_false hholder rfl
    have hstands : program.tree.standIn holder = holder := Tree.standIn_of_tag fun hinclude => by
      rw [hinclude] at htag
      rcases htag with htag | htag <;> cases htag
    rw [Around, hparent]
    refine Around.owner ?_ (by rwa [hstands])
    rw [hstands]
    exact htag.elim (fun htag => hcloses _ htag (.inl rfl)) fun htag => hcloses _ htag (.inr rfl)

/-- Whether a node lies in the scope of one owner in two programs. -/
def SameOwner (program other : Program) (node : NodeId) : Prop :=
  ∃ owner, program.Owner node owner ∧ other.Owner node owner

/-- Whether a node, if a clause can have it as its target, has one owner whether or not
empty blocks share. -/
def Steady (program : Program) (shares : Bool) (node : NodeId) : Prop :=
  ∀ stmt, program.isTarget stmt (.node node) = true →
    program.SameOwner (program.sharing shares) node

/-- Whether all declarations found are steady. -/
def AllSteady (program : Program) (shares : Bool) (found : List Overloads) : Prop :=
  ∀ overloads ∈ found, ∀ node, .node node ∈ overloads.toList → program.Steady shares node

theorem AllSteady.nil : program.AllSteady shares [] := List.forall_mem_nil _

theorem AllSteady.append {found more : List Overloads} (hfound : program.AllSteady shares found)
    (hmore : program.AllSteady shares more) : program.AllSteady shares (found ++ more) :=
  fun overloads hmem => (List.mem_append.mp hmem).elim (hfound overloads) (hmore overloads)

theorem AllSteady.single {node : NodeId} (hsteady : program.Steady shares node) :
    program.AllSteady shares [.single (.node node)] := by
  intro overloads hmem other hother
  obtain rfl := List.mem_singleton.mp hmem
  cases List.mem_singleton.mp hother
  exact hsteady

section

variable (hmore : shares = true → program.sharesEmpty = true)
include hmore

theorem opensScope_sharing {node : NodeId} (hopens : program.opensScope node = true) :
    (program.sharing shares).opensScope node = true := by
  unfold opensScope at hopens ⊢
  cases htag : program.tree.tag? node with
  | none =>
    rw [htag] at hopens
    cases hopens
  | some tag =>
    rw [htag] at hopens
    change (tag.mayOpenScope && (tag.opensNamedScope || !shares ||
      !(program.gather node).isTrivial)) = true
    cases shares with
    | false => simp_all
    | true =>
      rw [hmore rfl] at hopens
      exact hopens

/-- The owner of a node stays, unless a spare scope comes between the two. -/
theorem Owner.same_or_spare {node : NodeId} {owner owner' : Option NodeId}
    (howner : program.Owner node owner) (howner' : (program.sharing shares).Owner node owner') :
    owner' = owner ∨ ∃ spare, owner' = some spare ∧ program.opensScope spare = false ∧
      program.Around spare owner := by
  induction howner' with
  | opens =>
    cases howner with
    | opens => exact .inl rfl
    | climbs hcloses hparent howner =>
      refine .inr ⟨_, rfl, hcloses, ?_⟩
      rw [Around]
      simpa only [hparent] using howner
    | top hcloses hparent =>
      refine .inr ⟨_, rfl, hcloses, ?_⟩
      rw [Around]
      simp only [hparent]
  | climbs hcloses hparent _ ih =>
    cases howner with
    | opens hopens =>
      rw [opensScope_sharing hmore hopens] at hcloses
      cases hcloses
    | climbs _ hparent' howner =>
      obtain rfl := Option.some.inj (hparent.symm.trans hparent')
      exact ih howner
    | top _ hparent' => cases hparent.symm.trans hparent'
  | top hcloses hparent =>
    cases howner with
    | opens hopens =>
      rw [opensScope_sharing hmore hopens] at hcloses
      cases hcloses
    | climbs _ hparent' => cases hparent.symm.trans hparent'
    | top => exact .inl rfl

theorem Around.same_or_spare {node : NodeId} {owner owner' : Option NodeId}
    (haround : program.Around node owner) (haround' : (program.sharing shares).Around node owner') :
    owner' = owner ∨ ∃ spare, owner' = some spare ∧ program.opensScope spare = false ∧
      program.Around spare owner := by
  unfold Around at haround haround'
  cases hparent : program.tree.parent? node with
  | none =>
    rw [hparent] at haround haround'
    exact .inl (haround'.trans haround.symm)
  | some parent =>
    rw [hparent] at haround haround'
    exact haround.same_or_spare hmore haround'

theorem sameOwner_of_opensScope {node : NodeId}
    (hopens : program.opensScope (program.tree.standIn node) = true) :
    program.SameOwner (program.sharing shares) node :=
  ⟨_, .opens hopens, .opens (opensScope_sharing hmore hopens)⟩

theorem steady_of_opensScope {node : NodeId} (hopens : program.opensScope node = true) :
    program.Steady shares node :=
  fun _ _ => sameOwner_of_opensScope hmore (by rwa [standIn_of_opensScope hopens])

theorem steady_of_isModule {node : NodeId} (htag : program.tree.tag? node = some .moduleDecl) :
    program.Steady shares node :=
  steady_of_opensScope hmore (opensScope_of_isModule htag)

/-- An include lies in the scope of its body, or else in the scope that declares it. -/
theorem sameOwner_of_heldIn (hplaced : program.tree.Placed) {owner node : NodeId}
    (hopens : program.opensScope owner = true) (hheld : program.tree.HeldIn owner node)
    (hinclude : program.tree.tag? node = some .includeDecl) :
    program.SameOwner (program.sharing shares) node := by
  cases hbody : program.tree.body? node with
  | some body =>
    have hstands : program.tree.standIn node = body := by simp [Tree.standIn, hinclude, hbody]
    refine sameOwner_of_opensScope hmore ?_
    rw [hstands]
    exact opensScope_of_isModule (hplaced.bodies node body hbody)
  | none =>
    have hstands : program.tree.standIn node = node := by simp [Tree.standIn, hinclude, hbody]
    have hcloses : ∀ other : Program, other.tree = program.tree →
        other.opensScope (program.tree.standIn node) = false := fun other htree =>
      opensScope_of_tag_eq_false (by rw [htree, hstands, hinclude]) rfl
    have haround := around_of_heldIn hopens hheld
    have haround' := around_of_heldIn (opensScope_sharing hmore hopens) hheld
    rw [← hstands] at haround haround'
    exact ⟨some owner, Around.owner (hcloses program rfl) haround,
      Around.owner (hcloses (program.sharing shares) rfl) haround'⟩

/-- Whatever a node declares is steady. -/
theorem steady_of_gather (hplaced : program.tree.Placed) {owner : NodeId}
    (hopens : program.opensScope owner = true) :
    (program.gather owner).Declares (program.Steady shares) := by
  intro name overloads hdeclared node hnode stmt htarget
  unfold isTarget at htarget
  dsimp only at htarget
  split at htarget
  · next htag => exact steady_of_isModule hmore htag stmt (by rw [isTarget, htag])
  · next htag =>
    have hheld := Tree.heldIn_of_gather hplaced owner _ name overloads hdeclared node hnode
      (by simp [htag])
    exact sameOwner_of_heldIn hmore hplaced hopens hheld htag
  · next htag =>
    have hopens : program.opensScope node = true := opensScope_of_named htag rfl
    exact sameOwner_of_opensScope hmore (by rwa [standIn_of_opensScope hopens])
  · cases htarget

end

end Program

/-- Whatever a scope declares is steady. -/
theorem Context.Sound.allSteady_lookup {program : Program} {shares : Bool} {context : Context}
    (hsound : context.Sound program) (hmore : shares = true → program.sharesEmpty = true)
    (hplaced : program.tree.Placed) {id : ScopeId} (hid : context.Has id) (name : Name) :
    program.AllSteady shares ((context.scope id).lookup name) := by
  intro overloads hmem node hnode
  have hdeclared := Option.mem_toList.mp hmem
  have hshapes := hsound.shapes id hid
  generalize context.scope id = scope at hshapes hdeclared
  cases hshapes with
  | root => cases DeclTable.allBuiltin_ofBuiltins _ name overloads hdeclared _ hnode
  | inner hopens =>
    exact Program.steady_of_gather hmore hplaced hopens name overloads hdeclared node hnode

/-- A scope in which nothing is to be found. -/
structure Scope.Bare (scope : Scope) : Prop where
  declared : ∀ name, scope.lookup name = []
  hasImports : scope.hasImports = false
  autoUses : scope.autoUses = false
  isModule : scope.isModule = false

namespace Context

variable {program : Program} {shares : Bool} {context later : Context} {id : ScopeId}

/-- Whether a scope is one that a program does without. -/
def Spare (program : Program) (context : Context) (id : ScopeId) : Prop :=
  ∃ node, context.OwnedBy id (some node) ∧ program.opensScope node = false

theorem Spare.mono (hspare : context.Spare program id) (hgrows : context.Grows later) :
    later.Spare program id := by
  obtain ⟨node, howned, hcloses⟩ := hspare
  exact ⟨node, hgrows.ownedBy howned, hcloses⟩

theorem Spare.of_grows (hspare : later.Spare program id) (hgrows : context.Grows later)
    (hid : context.Has id) : context.Spare program id := by
  obtain ⟨node, howned, hcloses⟩ := hspare
  exact ⟨node, hgrows.ownedBy_of_has hid howned, hcloses⟩

/-- A program has no scopes that it does without. -/
theorem Sound.not_spare (hsound : context.Sound program) : ¬ context.Spare program id := by
  rintro ⟨node, howned, hcloses⟩
  rw [hsound.opensScope_of_owner howned] at hcloses
  cases hcloses

theorem Spare.bare (hspare : context.Spare program id)
    (hsound : context.Sound (program.sharing shares)) : (context.scope id).Bare := by
  obtain ⟨node, howned, hcloses⟩ := hspare
  obtain ⟨hopens, _, _, -, -, -, hscope⟩ := hsound.scope_of_ownedBy_some howned
  obtain ⟨tag, htag, hmay⟩ := Program.tag?_of_opensScope hopens
  have hboth : tag.opensNamedScope = false ∧ (program.gather node).isTrivial = true := by
    rw [Program.opensScope, show program.tree.tag? node = some tag from htag] at hcloses
    simp only [hmay, Bool.true_and, Bool.or_eq_false_iff, Bool.not_eq_false'] at hcloses
    exact ⟨hcloses.1.1, hcloses.2⟩
  have hmodule : tag ≠ .moduleDecl := by
    rintro rfl
    cases hboth.1
  obtain ⟨hempty, himports⟩ := Bool.and_eq_true_iff.mp hboth.2
  have hnot : (program.tree.tag? node == some .moduleDecl) = false := by
    rw [show program.tree.tag? node = some tag from htag]
    simpa using hmodule
  rw [hscope]
  refine ⟨fun name => ?_, (Bool.not_eq_true' _).mp himports, ?_, hnot⟩
  · have hnone : (program.gather node).declared.get? name = none := by
      rw [Assoc.get?, List.isEmpty_iff.mp hempty]
      rfl
    exact congrArg Option.toList hnone
  · exact Bool.and_eq_false_iff.mpr (.inl hnot)

end Context

end Scoping
