import Scoping.Proofs.Syntax.Growing

/-!
Paths written with dots. A path is cut at its dots and made into an identifier with one field
access after another around it; reading the names from the innermost receiver outward gives
the path back.
-/

namespace Scoping

theorem Text.isIdentifier_iff {text : String} : isIdentifier text = true ↔
    ∃ first rest, text.toList = first :: rest ∧ (first = '_' ∨ isXidStart first = true) ∧
      ∀ c ∈ rest, isXidContinue c = true := by
  unfold isIdentifier
  cases text.toList with
  | nil => simp
  | cons first rest =>
    simp only [Bool.and_eq_true, Bool.or_eq_true, beq_iff_eq, List.all_eq_true]
    constructor
    · rintro ⟨hfirst, hrest⟩
      exact ⟨first, rest, rfl, hfirst, hrest⟩
    · rintro ⟨_, _, heq, hfirst, hrest⟩
      obtain ⟨rfl, rfl⟩ := List.cons.inj heq
      exact ⟨hfirst, hrest⟩

namespace Builder

/-- What lies between two separators has none. -/
theorem forall_mem_splitOnP {α : Type} {separates : α → Bool} {items part : List α}
    (hpart : part ∈ items.splitOnP separates) : ∀ item ∈ part, separates item = false := by
  induction items generalizing part with
  | nil =>
    rw [List.splitOnP_nil, List.mem_singleton] at hpart
    simp [hpart]
  | cons first rest ih =>
    rw [List.splitOnP_cons_eq_if_modifyHead] at hpart
    split at hpart
    · rcases List.mem_cons.mp hpart with rfl | hrest
      · simp
      · exact ih hrest
    · next hfirst =>
      cases hsplit : rest.splitOnP separates with
      | nil => exact absurd hsplit (List.splitOnP_ne_nil _ _)
      | cons head others =>
        rw [hsplit] at ih hpart
        rcases List.mem_cons.mp hpart with rfl | hrest
        · exact List.forall_mem_cons.mpr ⟨by simpa using hfirst, ih List.mem_cons_self⟩
        · exact ih (List.mem_cons_of_mem _ hrest)

/-- The segments of a path are the one way to write it as texts without dots, joined by dots. -/
theorem segments_eq_iff {path : String} {parts : List String} :
    segments path = parts ↔
      parts ≠ [] ∧ (∀ part ∈ parts, '.' ∉ part.toList) ∧ ".".intercalate parts = path := by
  have hdot : ".".toList = ['.'] := by decide
  constructor
  · rintro rfl
    refine ⟨by simp [segments], fun part hpart hmem => ?_, ?_⟩
    · obtain ⟨chars, hchars, rfl⟩ := List.mem_map.mp hpart
      rw [List.splitOn_eq_splitOnP] at hchars
      rw [String.toList_ofList] at hmem
      simpa using forall_mem_splitOnP hchars '.' hmem
    · have hmap : String.toList ∘ String.ofList = id := funext fun chars => String.toList_ofList
      rw [← String.toList_inj, String.toList_intercalate, hdot, segments, List.map_map, hmap,
        List.map_id, List.intercalate_splitOn]
  · rintro ⟨hne, hparts, rfl⟩
    have hmap : String.ofList ∘ String.toList = id := funext fun text => String.ofList_toList
    have hchars : ∀ chars ∈ parts.map String.toList, '.' ∉ chars := by simpa using hparts
    rw [segments, String.toList_intercalate, hdot,
      List.splitOn_intercalate _ hchars (by simpa using hne), List.map_map, hmap, List.map_id]

/-- The names along a path expression, from the innermost receiver outward. -/
def pathNames (nodes : Array Node) : Nat → NodeId → Option (List Name)
  | 0, _ => none
  | fuel + 1, id =>
    match nodes[id.index]?.map Node.kind with
    | some (.identifier name) => some [name]
    | some (.dot receiver field) => (pathNames nodes fuel receiver).map (· ++ [field])
    | _ => none

/-- A path expression as it is written. A receiver is older than the access to its field, so the
number of nodes is fuel enough. -/
def writtenPath (builder : Builder) (id : NodeId) : Option String :=
  (pathNames builder.nodes builder.nodes.size id).map fun names =>
    ".".intercalate (names.map builder.names.display)

/-- A path reads the same where no kind has changed and with more fuel. -/
theorem pathNames_mono {nodes later : Array Node}
    (hkinds : ∀ (index : Nat) (kind : NodeKind), nodes[index]?.map Node.kind = some kind →
      later[index]?.map Node.kind = some kind)
    {fuel more : Nat} (hle : fuel ≤ more) {id : NodeId} {names : List Name}
    (hnames : pathNames nodes fuel id = some names) : pathNames later more id = some names := by
  induction fuel generalizing id names more with
  | zero => cases hnames
  | succ fuel ih =>
    obtain ⟨more, rfl⟩ := Nat.exists_eq_succ_of_ne_zero (Nat.ne_zero_of_lt hle)
    rw [pathNames] at hnames ⊢
    split at hnames
    · next hkind =>
      rw [hkinds _ _ hkind]
      exact hnames
    · next receiver field hkind =>
      obtain ⟨inner, hinner, rfl⟩ := Option.map_eq_some_iff.mp hnames
      rw [hkinds _ _ hkind]
      dsimp only
      rw [ih (Nat.le_of_succ_le_succ hle) hinner, Option.map_some]
    · cases hnames

/-- The forms of the nodes that a path is made of. -/
def pathForms : List String → List (Tag × String)
  | [] => []
  | first :: fields => (.identifier, first) :: fields.map (.dot, ·)

/-- A builder to which a path was added whose outermost access can still be the receiver of
another one. -/
structure Tip (start : Builder) (texts : List String) (builder : Builder) (receiver : NodeId) :
    Prop where
  grown : start.Grown builder (pathForms texts)
  last : receiver.index + 1 = builder.nodes.size
  fresh : start.nodes.size ≤ receiver.index
  free : parentAt builder.nodes receiver = none
  reads : ∃ names, pathNames builder.nodes texts.length receiver = some names ∧
    names.map builder.names.lookup? = texts.map some

theorem length_pathForms (texts : List String) : (pathForms texts).length = texts.length := by
  cases texts <;> simp [pathForms]

theorem pathForms_append {texts : List String} (hne : texts ≠ []) (fields : List String) :
    pathForms (texts ++ fields) = pathForms texts ++ fields.map (.dot, ·) := by
  cases texts with
  | nil => exact absurd rfl hne
  | cons first rest => simp [pathForms]

theorem pathNames_adopt {builder : Builder} (kind : NodeKind) (children : List NodeId) {fuel : Nat}
    {id : NodeId} {names : List Name} (hnames : pathNames builder.nodes fuel id = some names) :
    pathNames (builder.adopt kind children).nodes fuel id = some names := by
  refine pathNames_mono (fun index known hknown => ?_) le_rfl hnames
  obtain ⟨node, hnode, -⟩ := Option.map_eq_some_iff.mp hknown
  rw [map_adopt Node.kind (fun _ _ => rfl) builder kind children
    (Array.getElem?_eq_some_iff.mp hnode).1, hknown]

namespace Tip

variable {start builder : Builder} {texts : List String} {receiver : NodeId}

theorem intern (htip : start.Tip texts builder receiver) (text : String) :
    start.Tip texts { builder with names := (builder.names.intern text).2 } receiver where
  grown := htip.grown.intern text
  last := htip.last
  fresh := htip.fresh
  free := htip.free
  reads := htip.reads.imp fun _ ⟨hnames, hread⟩ =>
    ⟨hnames, Interner.map_lookup?_extends (builder.names.extends_intern text) hread⟩

/-- The first segment is an identifier. -/
theorem identifier (hsound : builder.names.Sound) (text : String) :
    builder.Tip [text] (adopt { builder with names := (builder.names.intern text).2 }
      (.identifier (builder.names.intern text).1) []) ⟨builder.nodes.size⟩ where
  grown := ((Grown.refl hsound).intern text).adopt (by simp)
    ⟨rfl, _, rfl, hsound.lookup?_intern text⟩
  last := (size_adopt ..).symm
  fresh := le_rfl
  free := by simp [parentAt, getElem?_adopt]
  reads := by
    refine ⟨[(builder.names.intern text).1], by simp [pathNames, getElem?_adopt], ?_⟩
    exact congrArg (· :: []) (hsound.lookup?_intern text)

/-- The path so far becomes the receiver of an access to a field. -/
theorem dot (htip : start.Tip texts builder receiver) (hne : texts ≠ []) {name : Name}
    {field : String} (hname : builder.names.lookup? name = some field) :
    start.Tip (texts ++ [field]) (builder.adopt (.dot receiver name) [receiver])
      ⟨builder.nodes.size⟩ where
  grown := by
    rw [pathForms_append hne]
    exact htip.grown.adopt (by simpa using htip.fresh) ⟨rfl, name, rfl, hname⟩
  last := (size_adopt ..).symm
  fresh := htip.grown.le_size
  free := by simp [parentAt, getElem?_adopt]
  reads := by
    obtain ⟨names, hnames, hread⟩ := htip.reads
    refine ⟨names ++ [name], ?_, ?_⟩
    · rw [List.length_append, List.length_singleton, pathNames, getElem?_adopt, if_pos rfl]
      simp [pathNames_adopt _ _ hnames]
    · rw [List.map_append, List.map_append]
      exact congrArg₂ (· ++ ·) hread (congrArg (· :: []) hname)

/-- Reading the expression gives the texts of the path, joined by dots. -/
theorem writtenPath (htip : start.Tip texts builder receiver) :
    builder.writtenPath receiver = some (".".intercalate texts) := by
  obtain ⟨names, hnames, hread⟩ := htip.reads
  have hle : texts.length ≤ builder.nodes.size := by
    rw [htip.grown.size, length_pathForms]
    exact Nat.le_add_left ..
  have hdisplay : names.map builder.names.display = texts := by
    have hdefault := congrArg (List.map fun text? : Option String => text?.getD "<?>") hread
    rw [List.map_map, List.map_map] at hdefault
    exact hdefault.trans (List.map_id texts)
  rw [Builder.writtenPath, pathNames_mono (fun _ _ hkind => hkind) hle hnames, Option.map_some,
    hdisplay]

/-- Nothing keeps the path so far from being adopted. -/
theorem adoptionFault? (htip : start.Tip texts builder receiver)
    (hlinked : ∀ body ∈ start.linked, body.index < start.nodes.size) :
    builder.adoptionFault? [] [receiver] = none := by
  have hlt : receiver.index < builder.nodes.size := by
    have hlast := htip.last
    omega
  have hfree : receiver ∉ builder.linked := by
    rw [htip.grown.linked]
    exact fun hmem => absurd (hlinked receiver hmem) (Nat.not_lt.mpr htip.fresh)
  exact adoptionFault?_eq_none (List.nodup_singleton _) (by simp) (by simp [hlt, htip.free, hfree])

end Tip

end Builder

namespace Build.Meets

open Builder

variable {start builder : Builder} (hlinked : ∀ body ∈ start.linked, body.index < start.nodes.size)
include hlinked

/-- Fields are accessed one after another up to the first one that is no identifier. -/
theorem dots {texts : List String} (hne : texts ≠ []) {receiver : NodeId}
    (htip : start.Tip texts builder receiver) (fields : List String) :
    Meets builder (Builder.dots receiver fields)
      (fun id later => (∀ field ∈ fields, Text.isIdentifier field = true) ∧
        start.Tip (texts ++ fields) later id)
      fun later => (¬ ∀ field ∈ fields, Text.isIdentifier field = true) ∧
        start.Grown later (pathForms (texts ++ fields.takeWhile Text.isIdentifier)) := by
  induction fields generalizing texts builder receiver with
  | nil => exact .pure ⟨nofun, by simpa using htip⟩
  | cons field rest ih =>
    refine .bind ((Meets.pushNamed _ field _ (htip.adoptionFault? hlinked)).mono ?_ ?_)
    · rintro _ _ ⟨hfield, rfl, rfl⟩
      have hlater := (htip.intern field).dot hne (htip.grown.sound.lookup?_intern field)
      refine (ih (by simp) hlater).mono ?_ ?_
      · rintro id later ⟨hrest, htip⟩
        exact ⟨List.forall_mem_cons.mpr ⟨hfield, hrest⟩, by simpa using htip⟩
      · rintro later ⟨hrest, hgrown⟩
        refine ⟨fun hall => hrest (List.forall_mem_cons.mp hall).2, ?_⟩
        simpa [List.takeWhile_cons, hfield] using hgrown
    · rintro _ ⟨hfield, rfl⟩
      refine ⟨fun hall => by simp [hfield] at hall, ?_⟩
      simpa [List.takeWhile_cons, hfield] using htip.grown

end Build.Meets

namespace Builder

/-- A path is made segment by segment, up to the first one that is no identifier. -/
theorem meets_dotted {builder : Builder} (hsound : builder.names.Sound)
    (hlinked : ∀ body ∈ builder.linked, body.index < builder.nodes.size) (path : String) :
    Build.Meets builder (dotted path)
      (fun id later => (∀ segment ∈ segments path, Text.isIdentifier segment = true) ∧
        builder.Tip (segments path) later id)
      fun later => (¬ ∀ segment ∈ segments path, Text.isIdentifier segment = true) ∧
        builder.Grown later (pathForms ((segments path).takeWhile Text.isIdentifier)) := by
  unfold dotted
  cases hsegments : segments path with
  | nil => exact absurd hsegments (segments_eq_iff.mp rfl).1
  | cons first fields =>
    refine .bind ((Build.Meets.pushNamed _ first [] rfl).mono ?_ ?_)
    · rintro _ _ ⟨hfirst, rfl, rfl⟩
      refine (Build.Meets.dots hlinked (List.cons_ne_nil _ _) (.identifier hsound first)
        fields).mono ?_ ?_
      · rintro id later ⟨hfields, htip⟩
        exact ⟨List.forall_mem_cons.mpr ⟨hfirst, hfields⟩, htip⟩
      · rintro later ⟨hfields, hgrown⟩
        refine ⟨fun hall => hfields (List.forall_mem_cons.mp hall).2, ?_⟩
        simpa [List.takeWhile_cons, hfirst] using hgrown
    · rintro _ ⟨hfirst, rfl⟩
      refine ⟨fun hall => by simp [hfirst] at hall, ?_⟩
      simpa [List.takeWhile_cons, hfirst, pathForms] using Grown.refl hsound

/-- A path written with dots can be built exactly when each of its segments is an identifier. It
then adds one node a segment, and the path that the new expression is read as is the one that
was written. -/
theorem dotted_roundTrip {builder : Builder} (hbuilder : builder.Reachable) (path : String) :
    let outcome := ((BuildStep.dotted path).run builder).1
    let later := ((BuildStep.dotted path).run builder).2
    ((∃ answer, outcome = .ok answer) ↔
      ∀ segment ∈ segments path, ∃ first rest, segment.toList = first :: rest ∧
        (first = '_' ∨ Text.isXidStart first = true) ∧
        ∀ c ∈ rest, Text.isXidContinue c = true) ∧
      ∀ answer, outcome = .ok answer → ∃ id, answer = .node id ∧
        later.writtenPath id = some path ∧
        ∃ fresh, later.nodes.toList = builder.nodes.toList ++ fresh ∧
          fresh.length = (segments path).length := by
  intro outcome later
  simp only [← Text.isIdentifier_iff]
  have hmeets : Build.Meets builder (BuildStep.dotted path).perform
      (fun answer later => (∀ segment ∈ segments path, Text.isIdentifier segment = true) ∧
        ∃ id, answer = .node id ∧ builder.Tip (segments path) later id)
      fun _ => ¬ ∀ segment ∈ segments path, Text.isIdentifier segment = true :=
    .map ((meets_dotted hbuilder.sound (fun _ => hbuilder.linked_lt) path).mono
      (fun id later hmade => ⟨hmade.1, id, rfl, hmade.2⟩) fun _ hrefused => hrefused.1)
  rcases hmeets.run_cases with
    ⟨answer, final, hrun, hall, id, rfl, htip⟩ | ⟨error, final, hrun, hnone⟩
  · have houtcome : outcome = .ok (.node id) := congrArg Prod.fst hrun
    have hlater : later = final := congrArg Prod.snd hrun
    rw [houtcome, hlater]
    refine ⟨⟨fun _ => hall, fun _ => ⟨_, rfl⟩⟩, fun answer hanswer => ?_⟩
    obtain rfl := Except.ok.inj hanswer
    obtain ⟨fresh, hfresh⟩ := htip.grown.kept
    refine ⟨id, rfl, ?_, fresh, hfresh.symm, ?_⟩
    · rw [htip.writtenPath, (segments_eq_iff.mp rfl).2.2]
    · have hsize := htip.grown.size
      rw [← Array.length_toList, ← hfresh, List.length_append, Array.length_toList,
        length_pathForms] at hsize
      exact Nat.add_left_cancel hsize
  · have houtcome : outcome = .error error := congrArg Prod.fst hrun
    rw [houtcome]
    exact ⟨⟨nofun, fun hall => absurd hall hnone⟩, nofun⟩

/-- A path over a builder that holds a variable already: three nodes, read back as written. -/
theorem dotted_roundTrip_fields :
    let builder := ((BuildStep.variableDecl "x" none).run (ofNames .initial)).2
    builder.Reachable ∧
      ((BuildStep.dotted "A._b.this").run builder).1 = .ok (.node ⟨3⟩) ∧
      ((BuildStep.dotted "A._b.this").run builder).2.writtenPath ⟨3⟩ = some "A._b.this" ∧
      ((BuildStep.dotted "A..b").run builder).1 = .error (.invalidIdentifier "") := by
  have hbuilder : ((BuildStep.variableDecl "x" none).run (ofNames .initial)).2.Reachable :=
    .step (.start []) _
  have houtcome : ((BuildStep.dotted "A._b.this").run
      ((BuildStep.variableDecl "x" none).run (ofNames .initial)).2).1 = .ok (.node ⟨3⟩) := by
    decide +kernel
  obtain ⟨id, hid, hread, -⟩ := (dotted_roundTrip hbuilder "A._b.this").2 _ houtcome
  obtain rfl := BuildAnswer.node.inj hid
  exact ⟨hbuilder, houtcome, hread, by decide +kernel⟩

end Builder

end Scoping
