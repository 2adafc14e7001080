import Scoping.Proofs.Lookup.Mirrors
import Scoping.Proofs.Visibility.Resolution

/-!
The statements of one scope say the same in two contexts, when the searches that
they ask for find the same.
-/

namespace Scoping

open Context Resolve

variable {program : Program} {shares : Bool} {keeps : Context → Context → Prop}
variable {left right : Context}

/-- Two finders, each of its own context, that find the same. -/
def Finder.Mirrors (program : Program) (shares : Bool) (keeps : Context → Context → Prop)
    (left right : Context) (find find' : Finder) : Prop :=
  ∀ left' right' config id id' name, left.Grows left' → right.Grows right' →
    left'.SameScope right' id id' →
    program.Mirrors keeps left' right' (find config id name) (find' config id' name)
      fun found _ found' _ => found = found' ∧ program.AllSteady shares found

theorem Finder.Mirrors.mono {left' right' : Context} {find find' : Finder}
    (hfind : find.Mirrors program shares keeps left right find') (hleft : left.Grows left')
    (hright : right.Grows right') : find.Mirrors program shares keeps left' right' find' :=
  fun start start' config id id' name hstart hstart' =>
    hfind start start' config id id' name (hleft.trans hstart) (hright.trans hstart')

/-- Whether paths, each of its own context, reach the same scope by the same name. -/
def Context.SameReached (left right : Context) (reached reached' : ScopeId × Name) : Prop :=
  left.SameScope right reached.1 reached'.1 ∧ reached.2 = reached'.2

namespace Program

theorem sharing_tree (program : Program) (shares : Bool) :
    (program.sharing shares).tree = program.tree := rfl

theorem sharing_listedName? (program : Program) (shares : Bool) :
    (program.sharing shares).listedName? = program.listedName? := rfl

theorem sharing_isTarget (program : Program) (shares : Bool) :
    (program.sharing shares).isTarget = program.isTarget := rfl

theorem sharing_splitField (program : Program) (shares : Bool) :
    (program.sharing shares).splitField = program.splitField := rfl

variable (hcouples : program.Couples shares keeps)

section

include hcouples

theorem report_return_mirrors {α β : Type} {value : α} {value' : β}
    {agree : α → Context → β → Context → Prop} (diagnostic : Diagnostic)
    (hagree : ∀ left' right', agree value left' value' right') :
    program.Mirrors keeps left right (do Resolve.report diagnostic; return value)
      (do Resolve.report diagnostic; return value') agree :=
  (report_mirrors hcouples diagnostic).bind fun _ _ _ _ _ _ _ => .pure fun _ _ _ _ => hagree _ _

theorem splitRename_mirrors (symbol : NodeId) :
    program.Mirrors keeps left right (program.splitRename symbol) (program.splitRename symbol)
      fun split? _ split?' _ => split? = split?' := by
  unfold splitRename
  split
  · split
    · exact .pure fun _ _ _ _ => rfl
    · exact report_return_mirrors hcouples _ fun _ _ => rfl
  · exact .pure fun _ _ _ _ => rfl

theorem listedPair_mirrors (entry : NodeId) :
    program.Mirrors keeps left right (program.listedPair entry) (program.listedPair entry)
      fun pairs _ pairs' _ => pairs = pairs' := by
  unfold listedPair
  split
  · exact .pure fun _ _ _ _ => rfl
  · exact report_return_mirrors hcouples _ fun _ _ => rfl
  · split
    · exact report_return_mirrors hcouples _ fun _ _ => rfl
    · exact report_return_mirrors hcouples _ fun _ _ => rfl
    · exact .pure fun _ _ _ _ => rfl
  · exact report_return_mirrors hcouples _ fun _ _ => rfl

theorem listedPairs_mirrors (entries : List NodeId) :
    program.Mirrors keeps left right (program.listedPairs entries)
      ((program.sharing shares).listedPairs entries)
      fun pairs _ pairs' _ => pairs = pairs' := by
  induction entries generalizing left right with
  | nil => exact .pure fun _ _ _ _ => rfl
  | cons entry rest ih =>
    apply (listedPair_mirrors hcouples entry).bind
    rintro pair middle _ middle' - - rfl
    apply ih.bind
    rintro pairs last _ last' - - rfl
    exact .pure fun _ _ _ _ => rfl

/-- The last step of a clause with a list: its pairs, and clauses made of them. -/
theorem listedPairs_return_mirrors {clauses clauses' : List (Name × Name) → List Clause}
    (entries : List NodeId)
    (hsame : ∀ names left' right', left.Grows left' → right.Grows right' →
      left'.SameClauses right' (clauses names) (clauses' names)) :
    program.Mirrors keeps left right
      (do let names ← program.listedPairs entries
          return clauses names)
      (do let names ← (program.sharing shares).listedPairs entries
          return clauses' names)
      fun clauses last clauses' last' => last.SameClauses last' clauses clauses' := by
  apply (listedPairs_mirrors hcouples entries).bind
  rintro names middle _ middle' hmiddle hmiddle' rfl
  exact .pure fun _ _ hlast hlast' => hsame names _ _ (hmiddle.trans hlast) (hmiddle'.trans hlast')

theorem refuseRenames_mirrors (entries : List NodeId) :
    program.Mirrors keeps left right (program.refuseRenames entries)
      ((program.sharing shares).refuseRenames entries) fun _ _ _ _ => True := by
  induction entries generalizing left right with
  | nil => exact .pure fun _ _ _ _ => trivial
  | cons entry rest ih =>
    rw [refuseRenames, refuseRenames, sharing_tree program shares]
    split
    · exact (report_mirrors hcouples _).bind fun _ _ _ _ _ _ _ => ih
    · exact ih

section

variable {find find' : Finder} (hfind : find.Mirrors program shares keeps left right find')
variable {id id' : ScopeId} (hid : left.SameScope right id id')
include hfind hid

theorem checkName_mirrors (stmt : Statement) (name : Name) (site : NodeId) :
    program.Mirrors keeps left right (program.checkName find stmt id name site)
      ((program.sharing shares).checkName find' stmt id' name site) fun _ _ _ _ => True := by
  apply (hfind _ _ _ _ _ _ (.refl _) (.refl _) hid).bind
  rintro found middle _ middle' - - ⟨rfl, hsteady⟩
  split
  · exact report_mirrors hcouples _
  · exact .pure fun _ _ _ _ => trivial

theorem checkListed_mirrors (stmt : Statement) (entries : List NodeId) :
    program.Mirrors keeps left right (program.checkListed find stmt id entries)
      ((program.sharing shares).checkListed find' stmt id' entries) fun _ _ _ _ => True := by
  induction entries generalizing left right with
  | nil => exact .pure fun _ _ _ _ => trivial
  | cons entry rest ih =>
    rw [checkListed, checkListed, sharing_listedName? program shares]
    split
    · exact (checkName_mirrors hcouples hfind hid _ _ _).bind fun _ _ _ _ hleft hright _ =>
        ih (hfind.mono hleft hright) (hid.mono hleft hright)
    · exact ih hfind hid

end

end

variable (hforest : program.tree.IsForest)
include hforest hcouples

section

variable {find find' : Finder} (hfind : find.Mirrors program shares keeps left right find')
variable {id id' : ScopeId} (hid : left.SameScope right id id')
include hfind hid

theorem resolveSegment_mirrors (stmt : Statement) (config : LookupConfig) (name : Name)
    (site : NodeId) :
    program.Mirrors keeps left right (program.resolveSegment find stmt config id name site)
      ((program.sharing shares).resolveSegment find' stmt config id' name site)
      fun target? last target?' last' => Option.Rel (last.SameScope last') target? target?' := by
  apply (hfind _ _ _ _ _ _ (.refl _) (.refl _) hid).bind
  rintro found middle _ middle' - - ⟨rfl, hsteady⟩
  rw [sharing_isTarget program shares]
  split
  · exact report_return_mirrors hcouples _ fun _ _ => .none
  · split
    · next decl _ _ node hnode htarget =>
      obtain rfl : decl = .node node := by
        cases decl with
        | node other => rw [Option.some.inj hnode]
        | builtin => cases hnode
      have hsame := hsteady _ (List.mem_singleton_self _) node List.mem_cons_self stmt htarget
      refine .map ((sameScopeOf_mirrors hcouples hforest hsame).imp
        fun _ _ _ _ _ _ hscope => .some hscope)
    · exact report_return_mirrors hcouples _ fun _ _ => .none
  · exact report_return_mirrors hcouples _ fun _ _ => .none

theorem resolveHead_mirrors (stmt : Statement) (head : NodeId) :
    program.Mirrors keeps left right (program.resolveHead find stmt id head)
      ((program.sharing shares).resolveHead find' stmt id' head)
      fun reached? last reached?' last' =>
        Option.Rel (last.SameReached last') reached? reached?' := by
  unfold resolveHead
  rw [sharing_tree program shares]
  split
  · exact report_return_mirrors hcouples _ fun _ _ => .none
  · next name _ =>
    split
    · refine .get_bind fun left' right' hleft hsound hright hkeeps => ?_
      have hid' := hid.mono hleft hright
      have hsound' := hcouples.sound _ _ hkeeps
      have houter : Option.Rel (left'.SameScope right')
          (if name = .this then left'.moduleOf? id else left'.superOf? id)
          (if name = .this then right'.moduleOf? id' else right'.superOf? id') := by
        split
        · exact hid'.moduleOf? hsound hsound' hcouples.more
        · exact hid'.superOf? hsound hsound' hcouples.more
      generalize (if name = .this then left'.moduleOf? id else left'.superOf? id) = outer
        at houter ⊢
      generalize (if name = .this then right'.moduleOf? id' else right'.superOf? id') = outer'
        at houter ⊢
      cases houter with
      | none => exact report_return_mirrors hcouples _ fun _ _ => .none
      | some hsame => exact .pure fun _ _ hmore hmore' => .some ⟨hsame.mono hmore hmore', rfl⟩
    · apply (resolveSegment_mirrors hcouples hforest hfind hid _ _ _ _).bind
      rintro target? middle target?' middle' - - htarget
      cases htarget with
      | none => exact .pure fun _ _ _ _ => .none
      | some hsame => exact .pure fun _ _ hmore hmore' => .some ⟨hsame.mono hmore hmore', rfl⟩

theorem resolveFields_mirrors (stmt : Statement) (name : Name) (fields : List (NodeId × Name)) :
    program.Mirrors keeps left right (program.resolveFields find stmt (id, name) fields)
      ((program.sharing shares).resolveFields find' stmt (id', name) fields)
      fun reached? last reached?' last' =>
        Option.Rel (last.SameReached last') reached? reached?' := by
  induction fields generalizing left right id id' name with
  | nil => exact .pure fun _ _ hleft hright => .some ⟨hid.mono hleft hright, rfl⟩
  | cons field rest ih =>
    apply (resolveSegment_mirrors hcouples hforest hfind hid _ _ _ _).bind
    rintro inner? middle inner?' middle' hleft hright hinner
    cases hinner with
    | none => exact .pure fun _ _ _ _ => .none
    | some hsame => exact ih (hfind.mono hleft hright) hsame _

theorem resolvePath_mirrors (stmt : Statement) (expr : NodeId) :
    program.Mirrors keeps left right (program.resolvePath find stmt id expr)
      ((program.sharing shares).resolvePath find' stmt id' expr)
      fun reached? last reached?' last' =>
        Option.Rel (last.SameReached last') reached? reached?' := by
  apply (resolveHead_mirrors hcouples hforest hfind hid _ _).bind
  rintro reached? middle reached?' middle' hleft hright hreached
  cases hreached with
  | none => exact .pure fun _ _ _ _ => .none
  | @some reached reached' hsame =>
    obtain ⟨target, name⟩ := reached
    obtain ⟨target', name'⟩ := reached'
    obtain ⟨htarget, rfl⟩ := hsame
    exact resolveFields_mirrors hcouples hforest (hfind.mono hleft hright) htarget _ _ _

theorem throughTarget_mirrors (stmt : Statement) (symbol : NodeId) {pathOf : NodeId → NodeId}
    {rest rest' : NodeId → Option Name → ScopeId → Name → Resolve (List Clause)}
    (hrest : ∀ expr newName target target' name later later', left.Grows later →
      right.Grows later' → later.SameScope later' target target' →
      program.Mirrors keeps later later' (rest expr newName target name)
        (rest' expr newName target' name)
        fun clauses last clauses' last' => last.SameClauses last' clauses clauses') :
    program.Mirrors keeps left right (program.throughTarget find stmt id symbol pathOf rest)
      ((program.sharing shares).throughTarget find' stmt id' symbol pathOf rest')
      fun clauses last clauses' last' => last.SameClauses last' clauses clauses' := by
  apply (splitRename_mirrors hcouples symbol).bind
  rintro parts? middle _ middle' hmiddle hmiddle' rfl
  cases parts? with
  | none => exact .pure fun _ _ _ _ => .nil
  | some parts =>
    apply (resolvePath_mirrors hcouples hforest (hfind.mono hmiddle hmiddle')
      (hid.mono hmiddle hmiddle') _ _).bind
    rintro reached? later reached?' later' hlater hlater' hreached
    cases hreached with
    | none => exact .pure fun _ _ _ _ => .nil
    | @some reached reached' hsame =>
      obtain ⟨target, name⟩ := reached
      obtain ⟨target', name'⟩ := reached'
      obtain ⟨htarget, rfl⟩ := hsame
      exact hrest _ _ _ _ _ _ _ (hmiddle.trans hlater) (hmiddle'.trans hlater') htarget

end

section

variable {find find' : List Clause → Finder} {id id' : ScopeId} {before before' : List Clause}
variable (hfind : ∀ left' right' clauses clauses', left.Grows left' → right.Grows right' →
  left'.SameClauses right' clauses clauses' →
  (find clauses).Mirrors program shares keeps left' right' (find' clauses'))
variable (hid : left.SameScope right id id') (hbefore : left.SameClauses right before before')
include hfind hid hbefore

theorem useClauses_mirrors (isPrivate : Bool) (site symbol : NodeId) (limitation : Limitation)
    (limitations : List NodeId) :
    program.Mirrors keeps left right
      (program.useClauses find id isPrivate before site symbol limitation limitations)
      ((program.sharing shares).useClauses find' id' isPrivate before' site symbol limitation
        limitations)
      fun clauses last clauses' last' => last.SameClauses last' clauses clauses' := by
  rw [useClauses_eq, useClauses_eq]
  split
  · exact report_return_mirrors hcouples _ fun _ _ => .nil
  apply throughTarget_mirrors hcouples hforest (hfind _ _ _ _ (.refl _) (.refl _) hbefore) hid
  intro expr newName target target' name later later' hlater hlater' htarget
  have hboth : ∀ {last last'} kind names kind' names', later.Grows last → later'.Grows last' →
      last.SameClauses last'
        [⟨target, kind, isPrivate, names⟩, ⟨target, kind', isPrivate, names'⟩]
        [⟨target', kind, isPrivate, names⟩, ⟨target', kind', isPrivate, names'⟩] := by
    intro last last' kind names kind' names' hlast hlast'
    have hsame := htarget.mono hlast hlast'
    exact .cons ⟨hsame, rfl, rfl, rfl⟩ (.cons ⟨hsame, rfl, rfl, rfl⟩ .nil)
  dsimp only
  split
  · refine (refuseRenames_mirrors hcouples _).bind fun _ _ _ _ hlast hlast' _ => ?_
    refine listedPairs_return_mirrors hcouples _ fun names _ _ hfinal hfinal' => ?_
    exact hboth _ _ _ _ (hlast.trans hfinal) (hlast'.trans hfinal')
  · have hitself : later.SameClauses later'
        (before ++ [⟨target, .symbolOnly, isPrivate, [(name, newName.getD name)]⟩])
        (before' ++ [⟨target', .symbolOnly, isPrivate, [(name, newName.getD name)]⟩]) :=
      List.rel_append (hbefore.mono hlater hlater') (.cons ⟨htarget, rfl, rfl, rfl⟩ .nil)
    have hfind' := hfind later later' _ _ hlater hlater' hitself
    apply (checkListed_mirrors hcouples hfind' htarget _ _).bind
    intro _ _ _ _ hlast hlast' _
    refine listedPairs_return_mirrors hcouples _ fun names _ _ hfinal hfinal' => ?_
    exact hboth _ _ _ _ (hlast.trans hfinal) (hlast'.trans hfinal')
  all_goals exact .pure fun _ _ => hboth _ _ _ _

theorem importClauses_mirrors (isPrivate : Bool) (site symbol : NodeId) (limitation : Limitation)
    (limitations : List NodeId) :
    program.Mirrors keeps left right
      (program.importClauses find id isPrivate before site symbol limitation limitations)
      ((program.sharing shares).importClauses find' id' isPrivate before' site symbol limitation
        limitations)
      fun clauses last clauses' last' => last.SameClauses last' clauses clauses' := by
  rw [importClauses_eq, importClauses_eq, sharing_splitField program shares]
  split
  · exact report_return_mirrors hcouples _ fun _ _ => .nil
  apply throughTarget_mirrors hcouples hforest (hfind _ _ _ _ (.refl _) (.refl _) hbefore) hid
  intro expr newName target target' name later later' hlater hlater' htarget
  have hone : ∀ {last last'} kind names, later.Grows last → later'.Grows last' →
      last.SameClauses last' [⟨target, kind, isPrivate, names⟩]
        [⟨target', kind, isPrivate, names⟩] :=
    fun _ _ hlast hlast' => .cons ⟨htarget.mono hlast hlast', rfl, rfl, rfl⟩ .nil
  have hfind' := hfind later later' _ _ hlater hlater' (hbefore.mono hlater hlater')
  split
  · apply (checkListed_mirrors hcouples hfind' htarget _ _).bind
    intro _ _ _ _ hlast hlast' _
    exact listedPairs_return_mirrors hcouples _ fun names _ _ hfinal hfinal' =>
      hone _ _ (hlast.trans hfinal) (hlast'.trans hfinal')
  · apply (checkName_mirrors hcouples hfind' htarget _ _ _).bind
    intro _ _ _ _ hlast hlast' _
    exact .pure fun _ _ hfinal hfinal' => hone _ _ (hlast.trans hfinal) (hlast'.trans hfinal')
  · exact .pure fun _ _ => hone _ _

theorem addClause_mirrors (stmt : Statement) (isPrivate : Bool) (site : NodeId) :
    program.Mirrors keeps left right (program.addClause find stmt id isPrivate before site)
      ((program.sharing shares).addClause find' stmt id' isPrivate before' site)
      fun clauses last clauses' last' => last.SameClauses last' clauses clauses' := by
  unfold addClause
  rw [sharing_tree program shares]
  split
  · next symbol limitation limitations _ =>
    cases stmt with
    | use =>
      apply (useClauses_mirrors hcouples hforest hfind hid hbefore _ _ _ _ _).bind
      intro added middle added' middle' hmiddle hmiddle' hadded
      exact .pure fun _ _ hlast hlast' => List.rel_append
        (hbefore.mono (hmiddle.trans hlast) (hmiddle'.trans hlast')) (hadded.mono hlast hlast')
    | imports =>
      apply (importClauses_mirrors hcouples hforest hfind hid hbefore _ _ _ _ _).bind
      intro added middle added' middle' hmiddle hmiddle' hadded
      exact .pure fun _ _ hlast hlast' => List.rel_append
        (hbefore.mono (hmiddle.trans hlast) (hmiddle'.trans hlast')) (hadded.mono hlast hlast')
  · exact .pure fun _ _ hleft hright => hbefore.mono hleft hright

omit hcouples hforest hfind hid in
/-- Steps that each add clauses, one after another. -/
theorem foldlM_mirrors {step step' : List Clause → NodeId → Resolve (List Clause)}
    (hstep : ∀ left' right' clauses clauses' node, left.Grows left' → right.Grows right' →
      left'.SameClauses right' clauses clauses' →
      program.Mirrors keeps left' right' (step clauses node) (step' clauses' node)
        fun clauses last clauses' last' => last.SameClauses last' clauses clauses')
    (nodes : List NodeId) :
    program.Mirrors keeps left right (nodes.foldlM step before) (nodes.foldlM step' before')
      fun clauses last clauses' last' => last.SameClauses last' clauses clauses' := by
  induction nodes generalizing left right before before' with
  | nil => exact .pure fun _ _ hleft hright => hbefore.mono hleft hright
  | cons node rest ih =>
    rw [List.foldlM_cons, List.foldlM_cons]
    apply (hstep left right before before' node (.refl _) (.refl _) hbefore).bind
    intro clauses middle clauses' middle' hmiddle hmiddle' hclauses
    exact ih hclauses fun left' right' more more' next hleft hright =>
      hstep left' right' more more' next (hmiddle.trans hleft) (hmiddle'.trans hright)

theorem addStatement_mirrors (node : NodeId) :
    program.Mirrors keeps left right (program.addStatement find id before node)
      ((program.sharing shares).addStatement find' id' before' node)
      fun clauses last clauses' last' => last.SameClauses last' clauses clauses' := by
  have hadd : ∀ stmt isPrivate, program.Mirrors keeps left right
      ((program.tree.children node).foldlM (program.addClause find stmt id isPrivate) before)
      ((program.tree.children node).foldlM
        ((program.sharing shares).addClause find' stmt id' isPrivate) before')
      fun clauses last clauses' last' => last.SameClauses last' clauses clauses' := by
    intro stmt isPrivate
    refine foldlM_mirrors hbefore ?_ _
    intro left' right' clauses clauses' site hleft hright hsame
    exact addClause_mirrors hcouples hforest
      (fun start start' more more' hstart hstart' =>
        hfind start start' more more' (hleft.trans hstart) (hright.trans hstart'))
      (hid.mono hleft hright) hsame _ _ _
  unfold addStatement
  rw [sharing_tree program shares]
  dsimp only
  split
  · exact hadd _ _
  · exact hadd _ _
  · exact .pure fun _ _ hleft hright => hbefore.mono hleft hright

end

/-- The statements of a scope say the same on both sides. -/
theorem resolveStatements_mirrors {find find' : List Clause → Finder} {id id' : ScopeId}
    (hfind : ∀ left' right' clauses clauses', left.Grows left' → right.Grows right' →
      left'.SameClauses right' clauses clauses' →
      (find clauses).Mirrors program shares keeps left' right' (find' clauses'))
    (hid : left.SameScope right id id') :
    program.Mirrors keeps left right (program.resolveStatements find id)
      ((program.sharing shares).resolveStatements find' id')
      fun clauses last clauses' last' => last.SameClauses last' clauses clauses' := by
  apply (scope_mirrors hcouples hid).bind
  rintro scope middle _ middle' hmiddle hmiddle' ⟨enclosing, rfl⟩
  dsimp only
  split
  · refine foldlM_mirrors .nil (fun left' right' clauses clauses' node hleft hright hsame => ?_) _
    have hleft' := hmiddle.trans hleft
    have hright' := hmiddle'.trans hright
    exact addStatement_mirrors hcouples hforest
      (fun start start' more more' hstart hstart' =>
        hfind start start' more more' (hleft'.trans hstart) (hright'.trans hstart'))
      (hid.mono hleft' hright') hsame node
  · exact .pure fun _ _ _ _ => .nil

end Program

namespace Program

/-- Two ways to ask for the clauses of other scopes while one is being resolved,
each of its own context, that give the same, and of spare scopes nothing. -/
structure MirrorsInner (program : Program) (shares : Bool) (keeps : Context → Context → Prop)
    (left right : Context) (id : ScopeId)
    (inner inner' : ScopeId → Resolve (Option (List Clause))) : Prop where
  same : ∀ left' right' other other', left.Grows left' → right.Grows right' →
    left'.SameScope right' other other' → other ≠ id →
    program.Mirrors keeps left' right' (inner other) (inner' other')
      fun found last found' last' => last.SameClauses last' (found.getD []) (found'.getD [])
  spare : ∀ right' other', right.Grows right' → right'.Sound (program.sharing shares) →
    right'.Spare program other' → inner' other' right' = some (none, right')

theorem MirrorsInner.mono {left' right' : Context} {id : ScopeId}
    {inner inner' : ScopeId → Resolve (Option (List Clause))}
    (hinner : program.MirrorsInner shares keeps left right id inner inner')
    (hleft : left.Grows left') (hright : right.Grows right') :
    program.MirrorsInner shares keeps left' right' id inner inner' where
  same start start' other other' hstart hstart' :=
    hinner.same start start' other other' (hleft.trans hstart) (hright.trans hstart')
  spare start' other' hstart' := hinner.spare start' other' (hright.trans hstart')

variable {inner inner' : ScopeId → Resolve (Option (List Clause))} {id id' : ScopeId}
variable (hcouples : program.Couples shares keeps) (hid : left.SameScope right id id')
include hcouples hid

theorem viewWithin_mirrors {clauses clauses' : List Clause}
    (hclauses : left.SameClauses right clauses clauses')
    (hinner : program.MirrorsInner shares keeps left right id inner inner')
    (hspare : ¬ right.Spare program id') :
    program.MirrorsView shares keeps left right (viewWithin inner id clauses)
      (viewWithin inner' id' clauses') where
  same middle middle' other other' hmiddle hmiddle' hother := by
    refine .of_start fun left' right' hleft hsound hright hkeeps => ?_
    have hleft' := hmiddle.trans hleft
    have hright' := hmiddle'.trans hright
    have hsame : other = id ↔ other' = id' := (hother.mono hleft hright).eq_iff hsound
      (hcouples.sound _ _ hkeeps) (hid.mono hleft' hright')
    unfold viewWithin
    by_cases heq : other = id
    · rw [if_pos heq, if_pos (hsame.mp heq)]
      exact .pure fun _ _ hlast hlast' =>
        hclauses.mono (hleft'.trans hlast) (hright'.trans hlast')
    · rw [if_neg heq, if_neg (mt hsame.mpr heq)]
      apply (hinner.same left' right' other other' hleft' hright' (hother.mono hleft hright)
        heq).bind
      intro found last found' last' _ _ hfound
      exact .pure fun _ _ hmore hmore' => hfound.mono hmore hmore'
  spare right' other' hright hsound hother := by
    have hne : other' ≠ id' := by
      rintro rfl
      exact hspare (hother.of_grows hright hid.has.2)
    unfold viewWithin
    rw [if_neg hne]
    exact bind_eq_some_iff.mpr ⟨none, right', hinner.spare right' other' hright hsound hother, rfl⟩

variable (hforest : program.tree.IsForest)
variable (hinner : program.MirrorsInner shares keeps left right id inner inner')
include hforest hinner

theorem findWithin_mirrors {clauses clauses' : List Clause}
    (hclauses : left.SameClauses right clauses clauses') :
    (program.findWithin inner id clauses).Mirrors program shares keeps left right
      ((program.sharing shares).findWithin inner' id' clauses') := by
  intro left' right' config other other' name hleft hright hother
  refine .of_start fun start start' hstart hsound hstart' _ => ?_
  have hgrows := hleft.trans hstart
  have hgrows' := hright.trans hstart'
  have hid' := hid.mono hgrows hgrows'
  have hview := viewWithin_mirrors hcouples hid' (hclauses.mono hgrows hgrows')
    (hinner.mono hgrows hgrows') (hid'.not_spare hsound)
  refine .map (((search_mirrors hforest hcouples hview config (hother.mono hstart hstart') name)
    start start' [] [] (.refl _) (.refl _) .nil).imp ?_)
  exact fun _ _ _ _ _ _ hresult => hresult.1

/-- The statements of a scope say the same, when requests for the clauses of other
scopes are answered with the same. -/
theorem statementsWithin_mirrors :
    program.Mirrors keeps left right (program.resolveStatements (program.findWithin inner id) id)
      ((program.sharing shares).resolveStatements
        ((program.sharing shares).findWithin inner' id') id')
      fun clauses last clauses' last' => last.SameClauses last' clauses clauses' := by
  refine resolveStatements_mirrors hcouples hforest ?_ hid
  intro left' right' clauses clauses' hleft hright hclauses
  exact findWithin_mirrors hcouples (hid.mono hleft hright) hforest (hinner.mono hleft hright)
    hclauses

end Program

end Scoping
