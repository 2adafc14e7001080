import Scoping.Proofs.Lookup.Inspecting

/-!
What a nested scope sees of what is visible around it. An ordinary lookup climbs out to
the nearest module and then to the root, so it begins wherever the lookup from the scope
around it begins, unless that is a module inside another scope. What the one finds is
then found by the other, as far as no scope is entered for another name before.
-/

namespace Scoping

open Context Resolve

variable {program : Program} {context : Context} {config : LookupConfig} {id start : ScopeId}

namespace Context

/-- The lookups that an ordinary lookup from a scope takes in: that from the scope around
it, unless this is a module that lies in another scope than the root; and from each scope
where the lookup begins, the one that does not climb on. -/
inductive TakesIn (context : Context) (id : ScopeId) : LookupConfig → ScopeId → Prop
  | parent {parent : ScopeId} {outer : List ScopeId}
    (henclosing : (context.scope id).enclosing = parent :: outer)
    (hmodule : (context.scope parent).isModule = true →
      ∀ other ∈ outer, context.OwnedBy other none) : TakesIn context id .allVisible parent
  | alone {outer : ScopeId} (hbegins : context.Begins id outer) :
    TakesIn context id ⟨true, true, false, false, false⟩ outer

theorem TakesIn.config_eq (htakes : context.TakesIn id config start) :
    config.imports = true ∧ config.toplevel = false ∧ config.innermost = false := by
  cases htakes with
  | parent => exact ⟨rfl, rfl, rfl⟩
  | alone => exact ⟨rfl, rfl, rfl⟩

namespace Sound

variable (hsound : context.Sound program) (hid : context.Has id)
include hsound hid

/-- Where a lookup from the scope around begins, the lookup from inside begins too. -/
theorem begins_of_parent {parent first : ScopeId} {outer : List ScopeId}
    (henclosing : (context.scope id).enclosing = parent :: outer)
    (hmodule : (context.scope parent).isModule = true → ∀ other ∈ outer, context.OwnedBy other none)
    (hbegins : context.Begins parent first) : context.Begins id first := by
  have houtward : context.outward id = [id] ++ parent :: outer := by
    rw [outward, henclosing]
    rfl
  have houter : (context.scope parent).enclosing = outer :=
    (List.cons.inj (hsound.outward_of_append hid houtward)).2
  cases hbegins with
  | here =>
    exact .around (henclosing.trans (List.nil_append _).symm) fun _ hinner =>
      absurd hinner List.not_mem_nil
  | @around before after _ hfirst hbefore =>
    rw [houter] at hfirst
    cases hkind : (context.scope parent).isModule with
    | true =>
      refine .root (hmodule hkind first ?_)
      rw [hfirst]
      exact List.mem_append_right _ List.mem_cons_self
    | false =>
      have hway : (context.scope id).enclosing = (parent :: before) ++ first :: after := by
        rw [henclosing, hfirst]
        rfl
      exact .around hway (List.forall_mem_cons.mpr ⟨hkind, hbefore⟩)
  | root howned => exact .root howned

theorem has_of_takesIn (htakes : context.TakesIn id config start) : context.Has start := by
  cases htakes with
  | parent henclosing _ =>
    exact hsound.has_of_enclosing hid (henclosing ▸ List.mem_cons_self)
  | alone hbegins =>
    rcases List.mem_cons.mp ((hsound.begins_iff hid).mp hbegins) with rfl | hclimb
    · exact hid
    · exact hsound.has_of_climb hid hclimb

/-- Wherever a lookup that is taken in begins, the one that takes it in begins. -/
theorem mem_climb_of_takesIn (htakes : context.TakesIn id config start) {first : ScopeId}
    (hfirst : first = start ∨ config.parents = true ∧ first ∈ context.climb start) :
    first ∈ id :: context.climb id := by
  rw [← hsound.begins_iff hid]
  cases htakes with
  | parent henclosing hmodule =>
    have hparent := hsound.has_of_enclosing hid (henclosing ▸ List.mem_cons_self)
    refine hsound.begins_of_parent hid henclosing hmodule ((hsound.begins_iff hparent).mpr ?_)
    exact List.mem_cons.mpr (hfirst.imp_right And.right)
  | alone hbegins =>
    rcases hfirst with rfl | ⟨hparents, -⟩
    · exact hbegins
    · cases hparents

end Sound

end Context

namespace Program

/-- A lookup takes in what those of the scopes around find, if no scope that both inspect
is inspected under different names. -/
theorem lookup_enclosing_subset {tree : Tree} (hfinished : tree.Finished)
    (hgrounded : tree.Grounded) (htree : program.tree = tree)
    (hreachable : program.Reachable context) (hid : context.Has id) (name : Name)
    (htakes : context.TakesIn id config start) :
    ∃ found middle nested last,
      program.lookup config none start name context = some (found, middle) ∧
      program.lookup .allVisible none id name middle = some (nested, last) ∧
      ∀ final, program.Reaches last final →
        final.LooksAlike program .allVisible config id start name →
        ∀ overloads ∈ found, overloads ∈ nested := by
  have hforest : program.tree.IsForest := htree ▸ hfinished.isForest hgrounded
  have hserves := serves_sound hforest
  have hsound := (hreachable.settled hforest).sound
  have hstart := hsound.has_of_takesIn hid htakes
  obtain ⟨himports, htoplevel, hall⟩ := htakes.config_eq
  obtain ⟨found, middle, hrun, hchanges, entered, hyields⟩ :=
    lookup_yields hforest hserves hsound hstart config name
  obtain ⟨nested, last, hnested, hmore, entered', hyields'⟩ :=
    lookup_yields hforest hserves hchanges.2 (hchanges.1.toGrows.has hid) .allVisible name
  refine ⟨found, middle, nested, last, hrun, hnested, ?_⟩
  intro final hreaches halike
  obtain ⟨hgrows, hfinal⟩ := hreaches.answering hforest hserves hmore.2
  have hlater := hmore.1.toGrows.trans hgrows
  have hfound := hyields final hlater hfinal
  have hwalk := hyields' final hgrows hfinal
  rw [hall] at hfound
  refine hfinal.subset_of_looksAlike halike (fun _ => rfl) rfl hall hwalk.walks hfound.walks ?_
  have hwithin := hchanges.1.toGrows.trans hlater
  intro source hsource
  -- the scope of a source among the beginnings of the one is among those of the other
  have hbegins : ∀ first ∈ id :: context.climb id, first ∈ entered' := by
    intro first hfirst
    rcases List.mem_cons.mp hfirst with rfl | hclimb
    · exact hwalk.walks.pending_done (mem_beginnings_iff.mpr (.inl rfl))
    · rw [← hsound.climb_of_grows hid hwithin] at hclimb
      exact hwalk.walks.pending_done
        (mem_beginnings_iff.mpr (.inr (.inl ⟨rfl, first, hclimb, rfl⟩)))
  rcases mem_beginnings_iff.mp hsource with rfl | ⟨hparents, outer, houter, rfl⟩ | ⟨htop, -⟩
  · exact hbegins start (hsound.mem_climb_of_takesIn hid htakes (.inl rfl))
  · rw [hsound.climb_of_grows hstart hwithin] at houter
    exact hbegins outer (hsound.mem_climb_of_takesIn hid htakes (.inr ⟨hparents, houter⟩))
  · rw [htoplevel] at htop
    cases htop

/-- A module `Inner` that holds a function, inside a module that declares `x`; and a
module that uses `T` as a whole and holds a function that imports the variable `o` of `T`
as `n`, which is also the name of another variable there. -/
def nesting : Program :=
  (Session.fresh (.ofSteps
    [.variableDecl "x" none, .functionDecl "f" [] [], .moduleDecl false "Inner" [⟨1⟩],
      .moduleDecl false "Outer" [⟨0⟩, ⟨2⟩],
      .variableDecl "o" none, .variableDecl "n" none, .moduleDecl false "T" [⟨4⟩, ⟨5⟩],
      .identifier "T", .identifier "o", .renameTo ⟨8⟩ "n", .clause ⟨7⟩ .braces [⟨10⟩],
      .importStmt .unstated [⟨11⟩], .functionDecl "g" [] [⟨12⟩],
      .identifier "T", .clause ⟨14⟩ .unlimited [], .useStmt .unstated [⟨15⟩],
      .moduleDecl false "M" [⟨16⟩, ⟨13⟩]]) {}).program

/-- The name that a variable declares. -/
def nestingName (node : NodeId) : Name := (nesting.tree.declName? node).getD .this

/-- What is known once the contents of the two functions are asked for, and what the
second one brings in. -/
def nestingAsked : Context :=
  (nesting.askAll [.scopeOf ⟨1⟩, .scopeOf ⟨13⟩, .visibility ⟨5⟩, .visibility ⟨4⟩]
    .empty).getD .empty

theorem nesting_askAll :
    nesting.askAll [.scopeOf ⟨1⟩, .scopeOf ⟨13⟩, .visibility ⟨5⟩, .visibility ⟨4⟩] .empty =
      some nestingAsked := by decide +kernel

theorem nesting_finished : nesting.tree.Finished := Tree.finished_ofSteps (by decide +kernel)

theorem nesting_grounded : nesting.tree.Grounded := by decide +kernel

/-- What the using module sees of `o` the function in it sees too. -/
theorem nesting_lookup_enclosing_subset : ∃ found nested,
    nesting.lookup .allVisible none ⟨4⟩ (nestingName ⟨4⟩) nestingAsked =
      some (found, nestingAsked) ∧
    nesting.lookup .allVisible none ⟨5⟩ (nestingName ⟨4⟩) nestingAsked =
      some (nested, nestingAsked) ∧
    found ≠ [] ∧ ∀ overloads ∈ found, overloads ∈ nested := by
  have hreachable : nesting.Reachable nestingAsked := .askAll .refl nesting_askAll
  have hsound := (hreachable.settled (nesting_finished.isForest nesting_grounded)).sound
  have henclosing : (nestingAsked.scope ⟨5⟩).enclosing = ⟨4⟩ :: [⟨0⟩] := by decide +kernel
  have hid : nestingAsked.Has ⟨5⟩ := by decide +kernel
  obtain ⟨found, middle, nested, last, hfound, hnested, hsubset⟩ :=
    lookup_enclosing_subset nesting_finished nesting_grounded rfl hreachable
      hid (nestingName ⟨4⟩)
      (.parent henclosing fun _ other hother =>
        List.mem_singleton.mp hother ▸ hsound.root_of_has hid)
  have hrun : ∀ start ∈ [(⟨4⟩ : ScopeId), ⟨5⟩],
      nesting.lookup .allVisible none start (nestingName ⟨4⟩) nestingAsked =
        some ([.single (.node ⟨4⟩)], nestingAsked) := by decide +kernel
  obtain ⟨rfl, rfl⟩ := Prod.mk.inj (Option.some.inj (hfound.symm.trans (hrun ⟨4⟩ (.head _))))
  obtain ⟨rfl, rfl⟩ := Prod.mk.inj
    (Option.some.inj (hnested.symm.trans (hrun ⟨5⟩ (.tail _ (.head _)))))
  refine ⟨_, _, hfound, hnested, by decide, hsubset _ .refl ?_⟩
  refine hsound.looksAlike_of_unrenamed ?_ rfl _ _ _
  rw [hsound.unrenamed_iff]
  decide +kernel

/-- Two scopes miss what the scope around them sees: the function in `Inner`, because
`Inner` is a module and its lookup climbs no further; and the importing function, because
it enters `T` for `o` first. -/
theorem nesting_lookup_not_mem :
    nesting.tree.Finished ∧ nesting.tree.Grounded ∧ nesting.Reachable nestingAsked ∧
    ∀ case ∈ [((⟨3⟩ : ScopeId), (⟨2⟩ : ScopeId), (⟨0⟩ : NodeId)), (⟨5⟩, ⟨4⟩, ⟨5⟩)],
      let (id, parent, node) := case
      nestingAsked.Has id ∧ (nestingAsked.scope id).isModule = false ∧
      (nestingAsked.scope id).parent? = some parent ∧
      (nesting.lookup .allVisible none parent (nestingName node) nestingAsked).map Prod.fst =
        some [.single (.node node)] ∧
      ∀ found ∈ (nesting.lookup .allVisible none id (nestingName node) nestingAsked).map Prod.fst,
        .single (.node node) ∉ found :=
  ⟨nesting_finished, nesting_grounded, .askAll .refl nesting_askAll, by decide +kernel⟩

end Program

end Scoping
