import Scoping.Proofs.Context.Mirrors
import Scoping.Proofs.Lookup.Search

/-!
A search mirrors another one of the same name from the scope of the same owner, when
the views of clauses that they are given do. Scopes are then entered in the same
order on both sides, spare ones apart, from which a search comes back with nothing.
-/

namespace Scoping

open Context Resolve

variable {program : Program} {shares : Bool} {keeps : Context → Context → Prop}
variable {left right : Context} {α β : Type}

/-- A search that ends whenever another one does, in the same result, if both have
entered the same scopes before, those to spare apart. -/
def Search.Mirrors (program : Program) (keeps : Context → Context → Prop) (left right : Context)
    (good : α → Prop) (search search' : Search α) : Prop :=
  ∀ left' right' entered entered', left.Grows left' → right.Grows right' →
    left'.Tracks program right' entered entered' →
    program.Mirrors keeps left' right' (search entered) (search' entered')
      fun result last result' last' => (result.1 = result'.1 ∧ good result.1) ∧
        last.Tracks program last' result.2 result'.2

namespace Search

variable {good : α → Prop} {good' : β → Prop}

theorem Mirrors.mono {left' right' : Context} {search search' : Search α}
    (hmirrors : Mirrors program keeps left right good search search') (hleft : left.Grows left')
    (hright : right.Grows right') : Mirrors program keeps left' right' good search search' :=
  fun start start' entered entered' hstart hstart' =>
    hmirrors start start' entered entered' (hleft.trans hstart) (hright.trans hstart')

theorem Mirrors.pure {value : α} (hvalue : good value) :
    Mirrors program keeps left right good (Pure.pure value) (Pure.pure value) :=
  fun _ _ _ _ _ _ hentered => Program.Mirrors.pure fun _ _ hleft hright =>
    ⟨⟨rfl, hvalue⟩, hentered.mono hleft hright⟩

theorem Mirrors.bind {first first' : Search α} {next next' : α → Search β}
    (hfirst : Mirrors program keeps left right good first first')
    (hnext : ∀ value, good value →
      Mirrors program keeps left right good' (next value) (next' value)) :
    Mirrors program keeps left right good' (first >>= next) (first' >>= next') := by
  intro start start' entered entered' hstart hstart' hentered
  rw [bind_run, bind_run]
  apply Program.Mirrors.bind (hfirst start start' entered entered' hstart hstart' hentered)
  rintro ⟨value, reached⟩ middle ⟨value', reached'⟩ middle' hmiddle hmiddle'
    ⟨⟨hvalue, hgood⟩, hreached⟩
  obtain rfl : value = value' := hvalue
  exact hnext value hgood middle middle' reached reached' (hstart.trans hmiddle)
    (hstart'.trans hmiddle') hreached

/-- A computation that knows of no entered scopes, and a search that goes on with
its result. -/
theorem Mirrors.lift_bind {γ δ : Type} {first : Resolve γ} {first' : Resolve δ}
    {next : γ → Search α} {next' : δ → Search α} {agree : γ → Context → δ → Context → Prop}
    (hfirst : program.Mirrors keeps left right first first' agree)
    (hnext : ∀ value middle value' middle', left.Grows middle → right.Grows middle' →
      agree value middle value' middle' →
      Mirrors program keeps middle middle' good (next value) (next' value')) :
    Mirrors program keeps left right good ((liftM first : Search γ) >>= next)
      ((liftM first' : Search δ) >>= next') := by
  intro start start' entered entered' hstart hstart' hentered
  rw [lift_bind_run, lift_bind_run]
  apply (hfirst.mono hstart hstart').bind
  intro value middle value' middle' hmiddle hmiddle' hagree
  exact hnext value middle value' middle' (hstart.trans hmiddle) (hstart'.trans hmiddle') hagree
    middle middle' entered entered' (.refl _) (.refl _) (hentered.mono hmiddle hmiddle')

/-- What is true of every context may be used where the searches begin. -/
theorem Mirrors.of_start {search search' : Search α}
    (hstart : ∀ left' right', left.Grows left' → left'.Sound program → right.Grows right' →
      keeps left' right' → Mirrors program keeps left' right' good search search') :
    Mirrors program keeps left right good search search' :=
  fun _ _ entered entered' hgrows hgrows' hentered =>
    .of_start fun left' right' hleft hsound hright hkeeps =>
      hstart left' right' (hgrows.trans hleft) hsound (hgrows'.trans hright) hkeeps left' right'
        entered entered' (.refl _) (.refl _) (hentered.mono hleft hright)

theorem Mirrors.get_bind {next next' : Context → Search α}
    (hnext : ∀ left' right', left.Grows left' → left'.Sound program → right.Grows right' →
      keeps left' right' → Mirrors program keeps left' right' good (next left') (next' right')) :
    Mirrors program keeps left right good (getThe Context >>= next) (getThe Context >>= next') := by
  intro start start' entered entered' hstart hstart' hentered
  refine Program.Mirrors.get_bind fun left' right' hleft hsound hright hkeeps => ?_
  exact hnext left' right' (hstart.trans hleft) hsound (hstart'.trans hright) hkeeps left' right'
    entered entered' (.refl _) (.refl _) (hentered.mono hleft hright)

section

variable (hcouples : program.Couples shares keeps)
include hcouples

theorem enter_mirrors {id id' : ScopeId} {inside inside' : Search (List Overloads)}
    (hid : left.SameScope right id id')
    (hinside : Mirrors program keeps left right (program.AllSteady shares) inside inside') :
    Mirrors program keeps left right (program.AllSteady shares) (enter id inside)
      (enter id' inside') := by
  intro start start' entered entered' hstart hstart' hentered
  rw [enter_run, enter_run]
  refine .of_start fun left' right' hleft hsound hright hkeeps => ?_
  have hid' := hid.mono (hstart.trans hleft) (hstart'.trans hright)
  have hentered' := hentered.mono hleft hright
  have hmem := hid'.mem_iff hsound (hcouples.sound _ _ hkeeps) hentered'
  by_cases hseen : id ∈ entered
  · rw [if_pos hseen, if_pos (hmem.mp hseen)]
    exact Mirrors.pure .nil left' right' entered entered' (.refl _) (.refl _) hentered'
  · rw [if_neg hseen, if_neg (mt hmem.mpr hseen)]
    exact hinside left' right' _ _ (hstart.trans hleft) (hstart'.trans hright)
      (hentered'.cons hid')

end

/-- A spare scope may be entered on one side alone, if nothing is found there. -/
theorem enter_spare_mirrors {id' : ScopeId} {inside' : Search (List Overloads)}
    (hspare : right.Spare program id')
    (hinside : Mirrors program keeps left right (program.AllSteady shares) (Pure.pure []) inside') :
    Mirrors program keeps left right (program.AllSteady shares) (Pure.pure [])
      (enter id' inside') := by
  intro start start' entered entered' hstart hstart' hentered
  rw [enter_run]
  split
  · exact Mirrors.pure .nil start start' entered entered' (.refl _) (.refl _) hentered
  · exact hinside start start' entered (id' :: entered') hstart hstart'
      (hentered.spare (hspare.mono hstart'))

/-- Sources that come to the same are collected to the same; those that come to nothing
may be there on one side alone. -/
theorem collect_mirrors (innermost : Bool) {searches searches' : List (Search (List Overloads))}
    (hall : Padded (Mirrors program keeps left right (program.AllSteady shares))
      (Mirrors program keeps left right (program.AllSteady shares) (Pure.pure [])) searches
      searches') :
    Mirrors program keeps left right (program.AllSteady shares) (collect innermost searches)
      (collect innermost searches') := by
  induction hall with
  | nil => exact .pure .nil
  | cons hfirst _ ih =>
    refine hfirst.bind fun found hfound => ?_
    split
    · exact .pure hfound
    · exact ih.bind fun more hmore => .pure (hfound.append hmore)
  | @spare first' rest rest' hfirst _ ih =>
    have hsame : collect innermost rest =
        (Pure.pure [] >>= fun found : List Overloads =>
          if innermost && !found.isEmpty then Pure.pure found
          else collect innermost rest >>= fun more => Pure.pure (found ++ more)) := by
      simp
    rw [hsame]
    refine hfirst.bind fun found hfound => ?_
    split
    · exact .pure hfound
    · exact ih.bind fun more hmore => .pure (hfound.append hmore)

/-- Sources that yield nothing and change nothing are collected to nothing. -/
theorem collect_of_still {innermost : Bool} {searches : List (Search (List Overloads))}
    {entered : List ScopeId} {context : Context}
    (hstill : ∀ search ∈ searches, search entered context = some (([], entered), context)) :
    collect innermost searches entered context = some (([], entered), context) := by
  induction searches with
  | nil => rfl
  | cons search rest ih =>
    obtain ⟨hsearch, hrest⟩ := List.forall_mem_cons.mp hstill
    rw [collect, bind_run]
    refine bind_eq_some_iff.mpr ⟨([], entered), context, hsearch, ?_⟩
    rw [List.isEmpty_nil, Bool.not_true, Bool.and_false, if_neg Bool.false_ne_true, bind_run]
    exact bind_eq_some_iff.mpr ⟨_, context, ih hrest, rfl⟩

theorem gate_mirrors (condition : Bool) {search search' : Search (List Overloads)}
    (hsearch : Mirrors program keeps left right (program.AllSteady shares) search search') :
    Mirrors program keeps left right (program.AllSteady shares) (gate condition search)
      (gate condition search') := by
  cases condition with
  | false => exact .pure .nil
  | true => exact hsearch

variable (hforest : program.tree.IsForest) (hcouples : program.Couples shares keeps)
include hforest hcouples

theorem declarations_mirrors {id id' : ScopeId} (hid : left.SameScope right id id') (name : Name) :
    Mirrors program keeps left right (program.AllSteady shares) (declarations id name)
      (declarations id' name) := by
  refine .of_start fun left' right' hleft hsound hright hkeeps => ?_
  have hid' := hid.mono hleft hright
  intro start start' entered entered' hstart hstart' hentered
  refine .get_bind fun last last' hlast _ hlast' hkept => .pure fun _ _ hmore hmore' => ?_
  have hscope := hstart.trans hlast
  have hscope' := hstart'.trans hlast'
  refine ⟨⟨?_, ?_⟩, hentered.mono (hlast.trans hmore) (hlast'.trans hmore')⟩
  · rw [hscope.scope hid'.has.1, hscope'.scope hid'.has.2,
      hid'.scope_eq hsound (hcouples.sound _ _ hkeeps)]
    rfl
  · rw [hscope.scope hid'.has.1]
    exact hsound.allSteady_lookup hcouples.more hforest.toPlaced hid'.has.1 name

omit hforest in
/-- Clauses that say the same are gone through in the same way. -/
theorem throughClauses_mirrors (innermost : Bool)
    {contents contents' : ScopeId → Name → Search (List Overloads)} {name : Name}
    {clauses clauses' : List Clause} (hclauses : left.SameClauses right clauses clauses')
    (hcontents : ∀ id id' actual, left.SameScope right id id' →
      Mirrors program keeps left right (program.AllSteady shares) (contents id actual)
        (contents' id' actual)) :
    Mirrors program keeps left right (fun result => program.AllSteady shares result.2)
      (throughClauses innermost contents name clauses)
      (throughClauses innermost contents' name clauses') := by
  induction hclauses with
  | nil => exact .pure .nil
  | @cons clause clause' rest rest' hclause hrest ih =>
    rw [throughClauses, throughClauses, ← hclause.route_eq name]
    cases clause.route name with
    | blocked => exact ih
    | symbol =>
      refine .of_start fun left' right' hleft hsound hright hkeeps => ?_
      have htarget := hclause.target.mono hleft hright
      have hscope : program.Mirrors keeps left' right' (Resolve.scope clause.target)
          (Resolve.scope clause'.target)
          fun scope _ scope' _ => (∃ enclosing, scope' = { scope with enclosing }) ∧
            ∀ owner, scope.owner = some owner → program.opensScope owner = true := by
        refine .get_bind fun last last' hlast hsound' hlast' hkept => .pure fun _ _ _ _ => ?_
        have hsame := htarget.mono hlast hlast'
        exact ⟨⟨_, hsame.scope_eq hsound' (hcouples.sound _ _ hkept)⟩,
          fun owner howner => hsound'.opensScope_of_owner ⟨hsame.has.1, howner⟩⟩
      apply Mirrors.lift_bind hscope
      rintro scope middle _ middle' hmiddle hmiddle' ⟨⟨enclosing, rfl⟩, hopens⟩
      dsimp only
      split
      · next owner howner =>
        exact .pure (.single (Program.steady_of_opensScope hcouples.more (hopens owner howner)))
      · exact (ih.mono hleft hright).mono hmiddle hmiddle'
    | contents actual =>
      refine (hcontents _ _ actual hclause.target).bind fun found hfound => ?_
      split
      · exact .pure hfound
      · exact ih.bind fun more hmore => .pure (hfound.append hmore)

end Search

namespace Program

/-- Two views of clauses, each of its own context, that show the same, and in spare
scopes nothing. -/
structure MirrorsView (program : Program) (shares : Bool) (keeps : Context → Context → Prop)
    (left right : Context) (view view' : ClauseView) : Prop where
  same : ∀ left' right' id id', left.Grows left' → right.Grows right' →
    left'.SameScope right' id id' → program.Mirrors keeps left' right' (view id) (view' id')
      fun clauses last clauses' last' => last.SameClauses last' clauses clauses'
  spare : ∀ right' id', right.Grows right' → right'.Sound (program.sharing shares) →
    right'.Spare program id' → view' id' right' = some ([], right')

theorem MirrorsView.mono {left' right' : Context} {view view' : ClauseView}
    (hview : program.MirrorsView shares keeps left right view view') (hleft : left.Grows left')
    (hright : right.Grows right') : program.MirrorsView shares keeps left' right' view view' where
  same start start' id id' hstart hstart' :=
    hview.same start start' id id' (hleft.trans hstart) (hright.trans hstart')
  spare start' id' hstart' := hview.spare start' id' (hright.trans hstart')

/-- A level of a search in a bare scope yields nothing and changes nothing. -/
theorem searchLevel_of_bare {view : ClauseView} {context : Context} {id : ScopeId}
    (hbare : (context.scope id).Bare) (hview : view id context = some ([], context))
    (innermost : Bool) (fuel : Nat) (decls imports : Bool) (name : Name)
    (entered : List ScopeId) :
    program.searchLevel view innermost (fuel + 1) decls imports id name entered context =
      some (([], entered), context) := by
  rw [searchLevel]
  refine Search.collect_of_still (List.forall_mem_cons.mpr ⟨?_, List.forall_mem_singleton.mpr ?_⟩)
  · cases decls with
    | false => rfl
    | true => exact congrArg (fun found => some ((found, entered), context)) (hbare.declared name)
  · cases imports with
    | false => rfl
    | true =>
      rw [Search.gate, if_pos rfl, searchImports_eq, Search.lift_bind_run]
      refine bind_eq_some_iff.mpr ⟨[], context, hview, ?_⟩
      rw [Search.throughClauses, pure_bind]
      dsimp only
      rw [if_neg Bool.false_ne_true, searchAuto, Search.bind_run]
      refine bind_eq_some_iff.mpr ⟨([], entered), context, ?_, rfl⟩
      rw [Search.lift_bind_run]
      refine bind_eq_some_iff.mpr ⟨_, context, rfl, ?_⟩
      rw [hbare.autoUses]
      rfl

/-- What a search asks after its first scope: the scopes around it, then the top level. -/
def sourcesAround (program : Program) (view : ClauseView) (config : LookupConfig)
    (around : List ScopeId) (name : Name) : List (Search (List Overloads)) :=
  (around.map fun outer => Search.enter outer
    (program.searchLevel view config.innermost program.depth true config.imports outer name)) ++
    [Search.gate config.toplevel (program.searchToplevel name)]

variable (hforest : program.tree.IsForest) (hcouples : program.Couples shares keeps)
variable {view view' : ClauseView}
variable (hview : program.MirrorsView shares keeps left right view view')
include hforest hcouples hview

theorem searchImports_mirrors (innermost : Bool)
    {contents contents' : ScopeId → Name → Search (List Overloads)} {id id' : ScopeId}
    (hid : left.SameScope right id id') (name : Name)
    (hcontents : ∀ left' right' id id' actual, left.Grows left' → right.Grows right' →
      left'.SameScope right' id id' →
      Search.Mirrors program keeps left' right' (program.AllSteady shares) (contents id actual)
        (contents' id' actual)) :
    Search.Mirrors program keeps left right (program.AllSteady shares)
      (program.searchImports view innermost contents id name)
      ((program.sharing shares).searchImports view' innermost contents' id' name) := by
  apply Search.Mirrors.lift_bind (hview.same left right id id' (.refl _) (.refl _) hid)
  intro clauses middle clauses' middle' hmiddle hmiddle' hclauses
  refine (Search.throughClauses_mirrors hcouples innermost hclauses fun target target' actual =>
    hcontents middle middle' target target' actual hmiddle hmiddle').bind ?_
  rintro ⟨closed, found⟩ hfound
  dsimp only
  split
  · exact .pure hfound
  apply Search.Mirrors.lift_bind (scope_mirrors hcouples (hid.mono hmiddle hmiddle'))
  rintro scope later _ later' hlater hlater' ⟨enclosing, rfl⟩
  dsimp only
  split
  · apply Search.Mirrors.lift_bind (autoScope_mirrors hcouples hforest)
    intro auto last auto' last' hlast hlast' hauto
    cases hauto with
    | none => exact .pure hfound
    | some hauto =>
      have hmore := hcontents last last' _ _ name ((hmiddle.trans hlater).trans hlast)
        ((hmiddle'.trans hlater').trans hlast') hauto
      exact hmore.bind fun more hmore => .pure (hfound.append hmore)
  · exact .pure hfound

theorem searchLevel_mirrors (innermost : Bool) (fuel : Nat) (decls imports : Bool)
    {id id' : ScopeId} (hid : left.SameScope right id id') (name : Name) :
    Search.Mirrors program keeps left right (program.AllSteady shares)
      (program.searchLevel view innermost fuel decls imports id name)
      ((program.sharing shares).searchLevel view' innermost fuel decls imports id' name) := by
  induction fuel generalizing left right decls imports id id' name with
  | zero =>
    intro _ _ _ _ _ _ _ _ _ _ _ _ _ _ _ hrun
    cases hrun
  | succ fuel ih =>
    have hdecls := Search.gate_mirrors decls
      (Search.declarations_mirrors hforest hcouples hid name)
    refine Search.collect_mirrors innermost
      (.cons hdecls (.cons (Search.gate_mirrors imports ?_) .nil))
    apply searchImports_mirrors hforest hcouples hview innermost hid name
    intro left' right' target target' actual hleft hright htarget
    exact Search.enter_mirrors hcouples htarget
      (ih (hview.mono hleft hright) true true htarget actual)

omit hforest in
/-- A level of a search in a spare scope yields nothing. -/
theorem searchLevel_spare_mirrors (innermost : Bool) (decls imports : Bool) {id' : ScopeId}
    (hspare : right.Spare program id') (name : Name) :
    Search.Mirrors program keeps left right (program.AllSteady shares) (pure [])
      ((program.sharing shares).searchLevel view' innermost program.depth decls imports id'
        name) := by
  intro start start' entered entered' hstart hstart' hentered left' right' hleft hsound hright
    hkeeps found last hrun
  obtain ⟨rfl, rfl⟩ := Prod.mk.inj (Option.some.inj hrun)
  have hspare' := hspare.mono (hstart'.trans hright)
  have hsound' := hcouples.sound _ _ hkeeps
  refine ⟨⟨.refl left', hsound⟩, ([], entered'), right', ?_, ⟨.refl right', hkeeps⟩, ⟨rfl, .nil⟩,
    hentered.mono hleft hright⟩
  exact searchLevel_of_bare (hspare'.bare hsound')
    (hview.spare right' id' (hstart'.trans hright) hsound' hspare') innermost _ decls imports name
    entered'

theorem sourcesAround_mirrors (config : LookupConfig) {around around' : List ScopeId}
    (haround : Padded (left.SameScope right) (right.Spare program) around around') (name : Name) :
    Padded (Search.Mirrors program keeps left right (program.AllSteady shares))
      (Search.Mirrors program keeps left right (program.AllSteady shares) (pure []))
      (program.sourcesAround view config around name)
      ((program.sharing shares).sourcesAround view' config around' name) := by
  refine Padded.append (haround.map
    (fun outer outer' houter => Search.enter_mirrors hcouples houter
      (searchLevel_mirrors hforest hcouples hview _ _ true config.imports houter name))
    fun outer' hspare => Search.enter_spare_mirrors hspare
      (searchLevel_spare_mirrors hcouples hview _ true config.imports hspare name))
    (.cons (Search.gate_mirrors config.toplevel ?_) .nil)
  change Search.Mirrors program keeps left right (program.AllSteady shares)
    (program.searchToplevel name) (program.searchToplevel name)
  unfold searchToplevel
  split
  · next top htop =>
    exact .pure (.single (steady_of_isModule hcouples.more (hforest.toplevels _ _ htop)))
  · exact .pure .nil

/-- Searches for a name from scopes of one owner find the same, when the clauses
that they see say the same. -/
theorem search_mirrors (config : LookupConfig) {id id' : ScopeId}
    (hid : left.SameScope right id id') (name : Name) :
    Search.Mirrors program keeps left right (program.AllSteady shares)
      (program.search view config id name)
      ((program.sharing shares).search view' config id' name) := by
  refine Search.enter_mirrors hcouples hid (.get_bind ?_)
  intro left' right' hleft hsound hright hkeeps
  have hview' := hview.mono hleft hright
  have hid' := hid.mono hleft hright
  have haround : Padded (left'.SameScope right') (right'.Spare program)
      (if config.parents then left'.climb id else [])
      (if config.parents then right'.climb id' else []) := by
    split
    · exact hid'.climb hsound (hcouples.sound _ _ hkeeps) hcouples.more
    · exact .nil
  exact Search.collect_mirrors _ (.cons
    (searchLevel_mirrors hforest hcouples hview' _ _ config.decls config.imports hid' name)
    (sourcesAround_mirrors hforest hcouples hview' config haround name))

end Program

end Scoping
