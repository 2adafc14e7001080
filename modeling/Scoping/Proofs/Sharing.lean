import Scoping.Proofs.Request
import Scoping.Proofs.Visibility.Abreast

/-!
Blocks that declare nothing share the scope around them. A program is compared with the
plain one, which gives every such block a scope of its own: what is looked up in a shared
scope is what the plain program finds from the node that owns it. It is also what the plain
program finds from the block itself, since a scope that declares nothing only adds a step on
the way out. The climb ends at the first module on that way though, and a module in which
the search starts is not on it: a block that lies in a module inside another node sees more
when it shares the scope of that module.
-/

namespace Scoping

open Context Resolve

namespace Search

/-- What the first of several sources comes to is what counts of it. -/
theorem collect_cons_congr {innermost : Bool} {source source' : Search (List Overloads)}
    {entered entered' : List ScopeId} (hsame : source entered = source' entered')
    (rest : List (Search (List Overloads))) :
    collect innermost (source :: rest) entered = collect innermost (source' :: rest) entered' := by
  rw [collect, collect, bind_run, bind_run, hsame]

theorem collect_cons_eq_some_iff {source : Search (List Overloads)}
    {rest : List (Search (List Overloads))} {entered : List ScopeId} {context : Context}
    {result : (List Overloads × List ScopeId) × Context} :
    collect false (source :: rest) entered context = some result ↔
      ∃ found further later, source entered context = some ((found, further), later) ∧
        ∃ more last final, collect false rest further later = some ((more, last), final) ∧
          ((found ++ more, last), final) = result := by
  have hcollect : collect false (source :: rest) =
      source >>= fun found => collect false rest >>= fun more => pure (found ++ more) := by
    simp [collect]
  rw [hcollect, bind_run, bind_eq_some_iff]
  constructor
  · rintro ⟨⟨found, further⟩, later, hsource, hrest⟩
    rw [bind_run] at hrest
    obtain ⟨⟨more, last⟩, final, hmore, hresult⟩ := bind_eq_some_iff.mp hrest
    exact ⟨found, further, later, hsource, more, last, final, hmore, Option.some.inj hresult⟩
  · rintro ⟨found, further, later, hsource, more, last, final, hmore, rfl⟩
    refine ⟨(found, further), later, hsource, ?_⟩
    rw [bind_run]
    exact bind_eq_some_iff.mpr ⟨(more, last), final, hmore, rfl⟩

/-- A source that finds nothing when it is asked again may be asked once. -/
theorem collect_twice {source : Search (List Overloads)} {rest : List (Search (List Overloads))}
    {entered : List ScopeId} {context : Context}
    {result : (List Overloads × List ScopeId) × Context}
    (hagain : ∀ found further later, source entered context = some ((found, further), later) →
      source further later = some (([], further), later))
    (hrun : collect false (source :: source :: rest) entered context = some result) :
    collect false (source :: rest) entered context = some result := by
  obtain ⟨found, further, later, hsource, more, last, final, hrest, rfl⟩ :=
    collect_cons_eq_some_iff.mp hrun
  obtain ⟨_, _, _, hsource', more, last, final, hrest, hresult⟩ := collect_cons_eq_some_iff.mp hrest
  cases (hagain found further later hsource).symm.trans hsource'
  cases hresult
  exact collect_cons_eq_some_iff.mpr ⟨found, further, later, hsource, more, last, final, hrest, rfl⟩

end Search

namespace Context.Sound

variable {program : Program} {context : Context} (hsound : context.Sound program) {id : ScopeId}
include hsound

/-- The scopes around the scope of a node end at the root. -/
theorem getLast?_enclosing {node : NodeId} (howned : context.OwnedBy id (some node)) :
    (context.scope id).enclosing.getLast? = some ⟨0⟩ := by
  obtain ⟨-, _, _, -, -, hparent, hscope⟩ := hsound.scope_of_ownedBy_some howned
  rw [hscope]
  exact hsound.getLast?_outward hparent.1

/-- Around the scope of a node without parent there is only the root. -/
theorem enclosing_of_parent?_eq_none {node : NodeId} (howned : context.OwnedBy id (some node))
    (hparent : program.tree.parent? node = none) : (context.scope id).enclosing = [⟨0⟩] := by
  obtain ⟨-, _, owner, -, haround, houter, hscope⟩ := hsound.scope_of_ownedBy_some howned
  rw [Program.Around, hparent] at haround
  obtain rfl : owner = none := haround
  obtain rfl := hsound.eq_of_ownedBy houter (hsound.root_of_has howned.1)
  rw [hscope]
  change context.outward ⟨0⟩ = [⟨0⟩]
  rw [outward, hsound.scope_of_ownedBy_none houter]
  rfl

end Context.Sound

namespace Program

variable {program : Program} {context : Context} {id : ScopeId}

/-- A level of a search that has come to a scope has entered it. -/
theorem entered_of_run (hforest : program.tree.IsForest) (hsound : context.Sound program)
    (hid : context.Has id) {innermost decls imports : Bool} {name : Name}
    {entered further : List ScopeId} {found : List Overloads} {later : Context}
    (hrun : Search.enter id (program.searchLevel program.clausesOf innermost program.depth decls
      imports id name) entered context = some ((found, further), later)) :
    Resolving (Context.Sound program) context later ∧ id ∈ further := by
  rw [Search.enter_run] at hrun
  split at hrun
  · next hseen =>
    cases hrun
    exact ⟨⟨.refl _, hsound⟩, hseen⟩
  · have hserves := serves_sound hforest
    have hlevel : Search.Covers (Context.Sound program) program.atRest innermost context
        (id :: entered)
        (program.searchLevel program.clausesOf innermost program.depth decls imports id name)
        fun world => world.sources decls imports id name :=
      searchLevel_covers hforest hserves.toUpholds (portrays_world hserves.toUpholds _)
        (clausesOf_shows hserves) hid (program.unentered_lt _)
    obtain ⟨hchanges, hmore, -⟩ :=
      (hlevel context _ (.refl _) hsound (List.Subset.refl _)).of_run hrun
    exact ⟨hchanges, hmore List.mem_cons_self⟩

/-- A search from the scope of a node, that is no module inside another one, goes through
the scopes on the way out to a module and then the root. -/
theorem collect_of_search (hforest : program.tree.IsForest) (hsound : context.Sound program)
    {node : NodeId} (howned : context.OwnedBy id (some node))
    (hclimbs : (context.scope id).isModule = false ∨ (context.scope id).enclosing = [⟨0⟩])
    {name : Name} {result : (List Overloads × List ScopeId) × Context}
    (hrun : program.search program.clausesOf .allVisible id name [] context = some result) :
    Search.collect false (program.sourcesAround program.clausesOf .allVisible
      (context.upToModule (context.outward id) ++ [⟨0⟩]) name) [] context = some result := by
  have hclimb : context.climb id = context.upToModule (context.scope id).enclosing ++ [⟨0⟩] := by
    rw [climb, hsound.getLast?_enclosing howned]
    rfl
  have hlevel : Search.enter id
        (program.searchLevel program.clausesOf false program.depth true true id name) [] =
      program.searchLevel program.clausesOf false program.depth true true id name [id] := by
    rw [Search.enter_run, if_neg List.not_mem_nil]
  replace hrun : Search.collect false (Search.enter id (program.searchLevel program.clausesOf false
      program.depth true true id name) :: program.sourcesAround program.clausesOf .allVisible
        (context.climb id) name) [] context = some result := by
    rw [Search.collect_cons_congr hlevel]
    rw [search, Search.enter_run, if_neg List.not_mem_nil] at hrun
    exact hrun
  rw [hclimb] at hrun
  rw [outward, upToModule]
  cases hmodule : (context.scope id).isModule with
  | false =>
    rw [if_neg Bool.false_ne_true]
    exact hrun
  | true =>
    rw [if_pos rfl]
    have henclosing := hclimbs.resolve_left (hmodule ▸ Bool.noConfusion)
    have hroot : context.Has ⟨0⟩ := (hsound.root_of_has howned.1).1
    -- the root is the nearest scope around the module, and comes once more at the end
    have htwice : context.upToModule (context.scope id).enclosing = [⟨0⟩] := by
      rw [henclosing, upToModule, upToModule]
      split <;> rfl
    rw [htwice] at hrun
    obtain ⟨found, further, later, hfirst, more, last, final, hrest, rfl⟩ :=
      Search.collect_cons_eq_some_iff.mp hrun
    obtain ⟨hlater, -⟩ := entered_of_run hforest hsound howned.1 hfirst
    refine Search.collect_cons_eq_some_iff.mpr ⟨found, further, later, hfirst, more, last, final,
      Search.collect_twice (fun _ reached later' hroot' => ?_) hrest, rfl⟩
    dsimp only at hroot' ⊢
    rw [Search.enter_run,
      if_pos (entered_of_run hforest hlater.2 (hlater.1.toGrows.has hroot) hroot').2]
    rfl

section

variable {shares : Bool} {left right : Context} {id' : ScopeId}
variable (hforest : program.tree.IsForest) (hmore : shares = true → program.sharesEmpty = true)
variable (hsound : left.Sound program) (habreast : left.Abreast program shares right)
include hforest hmore hsound habreast

/-- A name means the same in scopes of one owner. -/
theorem lookup_of_sameScope (hid : left.SameScope right id id') {config : LookupConfig}
    {name : Name} {found : List Overloads} {last : Context}
    (hrun : program.lookup config none id name left = some (found, last)) :
    ∃ last', (program.sharing shares).lookup config none id' name right = some (found, last') := by
  obtain ⟨⟨value, entered⟩, hsearch, hvalue⟩ := map_eq_some_iff.mp hrun
  obtain rfl : found = value := hvalue.symm
  obtain ⟨-, ⟨found', entered'⟩, last', hsearch', -, ⟨hsame, -⟩, -⟩ :=
    search_mirrors hforest (couples_abreast hmore) (clausesOf_mirrors hforest hmore) config hid name
      left right [] [] (.refl _) (.refl _) .nil left right (.refl _) hsound (.refl _) habreast _ _
      hsearch
  obtain rfl : found = found' := hsame
  exact ⟨last', map_eq_some_iff.mpr ⟨_, hsearch', rfl⟩⟩

/-- In a spare scope a name means what it means in the scope that may be shared, where that
is no module inside another node. -/
theorem lookup_of_spare {spare owner : NodeId} (hcloses : program.opensScope spare = false)
    (haround : program.Around spare (some owner)) (howned : left.OwnedBy id (some owner))
    (howned' : right.OwnedBy id' (some spare))
    (hclimbs : (left.scope id).isModule = false ∨ (left.scope id).enclosing = [⟨0⟩])
    {name : Name} {found : List Overloads} {last : Context}
    (hrun : program.lookup .allVisible none id name left = some (found, last)) :
    ∃ last', (program.sharing shares).lookup .allVisible none id' name right =
      some (found, last') := by
  have hspare : right.Spare program id' := ⟨spare, howned', hcloses⟩
  have hview : program.MirrorsView shares (Abreast program shares) left right program.clausesOf
      (program.sharing shares).clausesOf := clausesOf_mirrors hforest hmore
  have hclimb : Padded (left.SameScope right) (right.Spare program)
      (left.upToModule (left.outward id) ++ [⟨0⟩]) (right.climb id') := by
    rw [climb, habreast.sound.getLast?_enclosing howned']
    refine (SameScope.upToModule hsound habreast.sound (SameScope.enclosing_of_spare hsound
      habreast.sound hmore haround howned howned')).append (.cons ?_ .nil)
    exact ⟨none, hsound.root_of_has howned.1, habreast.sound.root_of_has howned'.1⟩
  obtain ⟨⟨value, entered⟩, hsearch, hvalue⟩ := map_eq_some_iff.mp hrun
  obtain rfl : found = value := hvalue.symm
  have hmirrors := Search.collect_mirrors false (.spare
    (searchLevel_spare_mirrors (couples_abreast hmore) hview false true true hspare name)
    (sourcesAround_mirrors hforest (couples_abreast hmore) hview .allVisible hclimb name))
  obtain ⟨-, ⟨found', entered'⟩, last', hsearch', -, ⟨hsame, -⟩, -⟩ :=
    hmirrors left right [] [id'] (.refl _) (.refl _) (.spare .nil hspare) left right (.refl _)
      hsound (.refl _) habreast _ _ (collect_of_search hforest hsound howned hclimbs hsearch)
  obtain rfl : found = found' := hsame
  have hwhole : (program.sharing shares).search (program.sharing shares).clausesOf .allVisible id'
      name [] right = some ((found, entered'), last') := by
    rw [search, Search.enter_run, if_neg List.not_mem_nil]
    exact hsearch'
  exact ⟨last', map_eq_some_iff.mpr ⟨_, hwhole, rfl⟩⟩

end

/-- The same program, in which every node that may open a scope opens its own. -/
abbrev plain (program : Program) : Program := program.sharing false

/-- What a name means at a node, asked before anything else. -/
def meaning (program : Program) (node : NodeId) (name : Name) : Option (List Overloads) :=
  ((program.scopeOf node >>= fun id => program.lookup .allVisible none id name) .empty).map Prod.fst

theorem meaning_of_run {node : NodeId} {name : Name} {found : List Overloads} {later : Context}
    (hscope : program.scopeOf node .empty = some (id, context))
    (hlookup : program.lookup .allVisible none id name context = some (found, later)) :
    program.meaning node name = some found := by
  rw [meaning, bind_eq_some_iff.mpr ⟨id, context, hscope, hlookup⟩]
  rfl

/-- Whether a node lies in the scope of a module inside another node, for want of one that
the plain program gives it. -/
def SharesNested (program : Program) (node : NodeId) : Prop :=
  ∃ owner, program.Owner node (some owner) ∧ ¬ program.plain.Owner node (some owner) ∧
    program.tree.tag? owner = some .moduleDecl ∧ program.tree.parent? owner ≠ none

/-- Around a spare scope of a tree that can be climbed there is the scope of a node. -/
theorem Around.exists_of_spare (hforest : program.tree.IsForest) {spare : NodeId}
    {owner : Option NodeId} (hopens : program.plain.opensScope spare = true)
    (hcloses : program.opensScope spare = false) (haround : program.Around spare owner) :
    ∃ node, owner = some node := by
  have hid : program.tree.contains spare = true :=
    decide_eq_true (show spare.index < program.plain.tree.size from contains_of_opensScope hopens)
  unfold Around at haround
  cases hparent : program.tree.parent? spare with
  | none =>
    rw [opensScope_of_isModule (hforest.tops spare hid hparent)] at hcloses
    cases hcloses
  | some parent =>
    rw [hparent] at haround
    exact haround.exists_of_contains hforest (hforest.parents _ _ hparent)

/-- The plain program finds a scope for every node too, and is equally far then. -/
theorem scopeOf_plain (hforest : program.tree.IsForest)
    (hbuilding : program.Building .empty context) (node : NodeId) :
    ∃ id later owner, program.plain.scopeOf node .empty = some (id, later) ∧
      context.Abreast program false later ∧ program.plain.Owner node owner ∧
      later.OwnedBy id owner := by
  have hforest' : program.plain.tree.IsForest := hforest
  obtain ⟨id, later, hscope, hbuilding', owner, howner, howned⟩ :=
    scopeOf_ends hforest' (sound_empty program.plain) node
  exact ⟨id, later, owner, hscope, (abreast_empty program false).growing hbuilding hbuilding',
    howner, howned⟩

/-- A scope that is shared for want of another one is no module inside another node, unless
it is by way of exception. -/
theorem climbs_of_not_sharesNested (hsound : context.Sound program) {node owner spare : NodeId}
    (hnested : ¬ program.SharesNested node) (howner : program.Owner node (some owner))
    (hspare : program.plain.Owner node (some spare)) (hcloses : program.opensScope spare = false)
    (howned : context.OwnedBy id (some owner)) :
    (context.scope id).isModule = false ∨ (context.scope id).enclosing = [⟨0⟩] := by
  rw [hsound.isModule_eq howned]
  by_cases htag : program.tree.tag? owner = some .moduleDecl
  · refine .inr (hsound.enclosing_of_parent?_eq_none howned ?_)
    by_contra hparent
    refine hnested ⟨owner, howner, fun hother => ?_, htag, hparent⟩
    obtain rfl : spare = owner := Option.some.inj (hspare.unique hother)
    rw [hsound.opensScope_of_owner howned] at hcloses
    cases hcloses
  · exact .inl (by simpa using htag)

/-- A name has a meaning at every node: the one that the plain program gives it at the owner
of the scope in which the node lies, and at the node itself unless that scope is shared with
a module inside another node. -/
theorem meaning_eq_plain {tree : Tree} (hfinished : tree.Finished) (hgrounded : tree.Grounded)
    (htree : program.tree = tree) (node : NodeId) (name : Name) :
    ∃ found, program.meaning node name = some found ∧
      (∀ owner, program.Owner node (some owner) → program.plain.meaning owner name = some found) ∧
      (¬ program.SharesNested node → program.plain.meaning node name = some found) := by
  have hforest : program.tree.IsForest := htree ▸ hfinished.isForest hgrounded
  have hmore : false = true → program.sharesEmpty = true := nofun
  obtain ⟨id, left, hscope, hbuilding, owner, howner, howned⟩ :=
    scopeOf_ends hforest (sound_empty program) node
  have hsound := hbuilding.2
  obtain ⟨found, last, hlookup, -⟩ :=
    lookup_ends hforest (serves_sound hforest) hsound howned.1 .allVisible name
  refine ⟨found, meaning_of_run hscope hlookup, fun first hfirst => ?_, fun hnested => ?_⟩
  · obtain rfl := howner.unique hfirst
    obtain ⟨id', right, owner', hscope', habreast, howner', howned'⟩ :=
      scopeOf_plain hforest hbuilding first
    have hopens := opensScope_sharing hmore (hsound.opensScope_of_owner howned)
    obtain rfl := howner'.unique (owner_self hopens)
    obtain ⟨last', hlookup'⟩ :=
      lookup_of_sameScope hforest hmore hsound habreast ⟨some first, howned, howned'⟩ hlookup
    exact meaning_of_run hscope' hlookup'
  · obtain ⟨id', right, owner', hscope', habreast, howner', howned'⟩ :=
      scopeOf_plain hforest hbuilding node
    rcases howner.same_or_spare hmore howner' with rfl | ⟨spare, rfl, hcloses, haround⟩
    · obtain ⟨last', hlookup'⟩ :=
        lookup_of_sameScope hforest hmore hsound habreast ⟨owner', howned, howned'⟩ hlookup
      exact meaning_of_run hscope' hlookup'
    · obtain ⟨first, rfl⟩ :=
        haround.exists_of_spare hforest (habreast.sound.opensScope_of_owner howned') hcloses
      have hclimbs := climbs_of_not_sharesNested hsound hnested howner howner' hcloses howned
      obtain ⟨last', hlookup'⟩ := lookup_of_spare hforest hmore hsound habreast hcloses haround
        howned howned' hclimbs hlookup
      exact meaning_of_run hscope' hlookup'

/-- A module with a variable `x`, an empty block, and a module `Inner` that holds nothing but
another empty block. -/
def emptyBlocksTree : Tree :=
  .ofSteps [.variableDecl "x" none, .compound .block [], .compound .block [],
    .moduleDecl false "Inner" [⟨2⟩], .moduleDecl false "Outer" [⟨0⟩, ⟨1⟩, ⟨3⟩]]

/-- The program of that tree, in which both blocks share the scope around them. -/
def emptyBlocks : Program := (Session.fresh emptyBlocksTree {}).program

/-- The name of the variable of the outer module. -/
def emptyBlocksName : Name := (emptyBlocks.tree.declName? ⟨0⟩).getD .this

theorem emptyBlocks_finished : emptyBlocks.tree.Finished :=
  show emptyBlocksTree.Finished from Tree.finished_ofSteps (by decide +kernel)

theorem emptyBlocks_grounded : emptyBlocks.tree.Grounded := by decide +kernel

/-- The block of the outer module may share its scope. -/
theorem emptyBlocks_meaning_eq_plain :
    ∃ found, emptyBlocks.meaning ⟨1⟩ emptyBlocksName = some found ∧
      emptyBlocks.plain.meaning ⟨4⟩ emptyBlocksName = some found ∧
      emptyBlocks.plain.meaning ⟨1⟩ emptyBlocksName = some found := by
  have howner : emptyBlocks.Owner ⟨1⟩ (some ⟨4⟩) :=
    .climbs (show emptyBlocks.opensScope ⟨1⟩ = false by decide +kernel)
      (show emptyBlocks.tree.parent? ⟨1⟩ = some ⟨4⟩ by decide +kernel)
      (owner_self (by decide +kernel))
  have hnested : ¬ emptyBlocks.SharesNested ⟨1⟩ := by
    rintro ⟨owner, hother, -, -, hparent⟩
    obtain rfl := Option.some.inj (howner.unique hother)
    exact hparent (by decide +kernel)
  obtain ⟨found, hfound, hshared, hplain⟩ :=
    meaning_eq_plain emptyBlocks_finished emptyBlocks_grounded rfl ⟨1⟩ emptyBlocksName
  exact ⟨found, hfound, hshared ⟨4⟩ howner, hplain hnested⟩

/-- The block of the inner module, which shares the scope of that module, sees the variable
outside. With a scope of its own it would not, since a lookup climbs no further than to the
nearest module around the scope that it starts from. -/
theorem emptyBlocks_meaning_ne_plain :
    emptyBlocks.tree.Finished ∧ emptyBlocks.tree.Grounded ∧ emptyBlocks.sharesEmpty = true ∧
      emptyBlocks.meaning ⟨2⟩ emptyBlocksName = some [.single (.node ⟨0⟩)] ∧
      emptyBlocks.plain.meaning ⟨2⟩ emptyBlocksName = some [] :=
  ⟨emptyBlocks_finished, emptyBlocks_grounded, rfl, by decide +kernel, by decide +kernel⟩

end Program

end Scoping
