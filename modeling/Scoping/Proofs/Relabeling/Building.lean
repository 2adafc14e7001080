import Scoping.Proofs.Relabeling.Interner
import Scoping.Proofs.Syntax.Building

/-!
Building over two interners. The same steps build the same nodes over an interner and over
one that knows more texts, but for the names, which stand for the same texts; a step is
refused over the one when it is refused over the other, for the same reason.
-/

namespace Scoping

variable {α α' β β' : Type}

namespace Interner

/-- Whether two names stand for the same text, each in its interner. -/
def Twins (names names' : Interner) (name name' : Name) : Prop :=
  ∃ text, names.lookup? name = some text ∧ names'.lookup? name' = some text

theorem Twins.extends {names names' later later' : Interner} {name name' : Name}
    (htwins : names.Twins names' name name') (hlater : later.Extends names)
    (hlater' : later'.Extends names') : later.Twins later' name name' := by
  obtain ⟨text, hname, hname'⟩ := htwins
  exact ⟨text, hlater name text hname, hlater' name' text hname'⟩

theorem Twins.display {names names' : Interner} {name name' : Name}
    (htwins : names.Twins names' name name') : names'.display name' = names.display name := by
  obtain ⟨text, hname, hname'⟩ := htwins
  rw [Interner.display, Interner.display, hname, hname']

/-- A relabeling that fits makes a name its twin. -/
theorem Twins.eq {names names' : Interner} {name name' : Name} {ρ : Relabeling}
    (htwins : names.Twins names' name name') (hsound' : names'.Sound)
    (hfits : Pairing.sharing.fits names names' ρ) : name' = ρ.name name := by
  obtain ⟨text, hname, hname'⟩ := htwins
  exact hsound'.unique hname' (hfits.2 hname)

end Interner

open Interner

namespace Builder

/-- Whether two builders hold the same nodes over interners that go together. -/
structure Alike (builder builder' : Builder) : Prop where
  paired : Pairing.sharing.pairs builder.names builder'.names
  bodies : builder'.bodies = builder.bodies
  linked : builder'.linked = builder.linked
  /-- The names in the nodes have been given out. -/
  known : ∀ (index : Nat) (node : Node), builder.nodes[index]? = some node →
    ∀ name ∈ node.kind.names, ∃ text, builder.names.lookup? name = some text
  nodes : ∀ ρ, Pairing.sharing.fits builder.names builder'.names ρ →
    builder'.nodes = builder.nodes.map ρ.node

theorem map_setParent_node (ρ : Relabeling) (nodes : Array Node) (parent child : NodeId) :
    setParent (nodes.map ρ.node) parent child = (setParent nodes parent child).map ρ.node := by
  refine Array.ext_getElem? fun index => ?_
  rw [Array.getElem?_map, getElem?_setParent, getElem?_setParent, Array.getElem?_map]
  split <;> cases nodes[index]? <;> rfl

namespace Alike

variable {builder builder' : Builder} (halike : builder.Alike builder')
include halike

theorem exists_fits : ∃ ρ, Pairing.sharing.fits builder.names builder'.names ρ :=
  (Pairing.sharing.spells halike.paired).imp fun _ hρ => hρ.1

theorem size : builder'.nodes.size = builder.nodes.size := by
  obtain ⟨ρ, hρ⟩ := halike.exists_fits
  rw [halike.nodes ρ hρ, Array.size_map]

theorem node? {ρ : Relabeling} (hρ : Pairing.sharing.fits builder.names builder'.names ρ)
    (id : NodeId) : builder'.node? id = (builder.node? id).map ρ.node := by
  rw [Builder.node?, Builder.node?, halike.nodes ρ hρ, Array.getElem?_map]

theorem isTaken (ρ : Relabeling) (id : NodeId) (node : Node) :
    builder'.isTaken id (ρ.node node) = builder.isTaken id node := by
  unfold Builder.isTaken
  rw [halike.linked]
  rfl

theorem adoptionFault? (earlier children : List NodeId) :
    builder'.adoptionFault? earlier children = builder.adoptionFault? earlier children := by
  obtain ⟨ρ, hρ⟩ := halike.exists_fits
  induction children generalizing earlier with
  | nil => rfl
  | cons child rest ih =>
    rw [Builder.adoptionFault?, Builder.adoptionFault?, halike.node? hρ]
    cases builder.node? child with
    | none => rfl
    | some node =>
      dsimp only [Option.map_some]
      rw [ih, halike.isTaken]

/-- Adopting the same children keeps builders alike. -/
theorem adopt {kind kind' : NodeKind} (children : List NodeId)
    (hknown : ∀ name ∈ kind.names, ∃ text, builder.names.lookup? name = some text)
    (hkind : ∀ ρ, Pairing.sharing.fits builder.names builder'.names ρ → kind' = ρ.kind kind) :
    (builder.adopt kind children).Alike (builder'.adopt kind' children) where
  paired := halike.paired
  bodies := halike.bodies
  linked := halike.linked
  known index node hnode := by
    rcases cases_of_getElem?_adopt hnode with ⟨-, rfl⟩ | ⟨-, old, hold, rfl⟩ | hold
    · exact hknown
    · exact halike.known index old hold
    · exact halike.known index node hold
  nodes ρ hρ := by
    have hparents : children.foldl (fun nodes child => setParent nodes ⟨builder.nodes.size⟩ child)
        (builder.nodes.map ρ.node) =
          (children.foldl (fun nodes child => setParent nodes ⟨builder.nodes.size⟩ child)
            builder.nodes).map ρ.node :=
      List.foldl_hom (Array.map ρ.node) fun nodes child =>
        map_setParent_node ρ nodes ⟨builder.nodes.size⟩ child
    simp only [Builder.adopt, halike.nodes ρ hρ, Array.size_map, hparents, hkind ρ hρ,
      Array.map_push]
    rfl

theorem link (site body : NodeId) :
    ({ builder with
        bodies := builder.bodies.insert site body
        linked := body :: builder.linked } : Builder).Alike
      { builder' with
        bodies := builder'.bodies.insert site body
        linked := body :: builder'.linked } where
  paired := halike.paired
  bodies := by rw [halike.bodies]
  linked := by rw [halike.linked]
  known := halike.known
  nodes := halike.nodes

theorem intern (text : String) :
    ({ builder with names := (builder.names.intern text).2 } : Builder).Alike
      { builder' with names := (builder'.names.intern text).2 } where
  paired := Pairing.sharing.intern text halike.paired
  bodies := halike.bodies
  linked := halike.linked
  known index node hnode name hname := by
    obtain ⟨read, hread⟩ := halike.known index node hnode name hname
    exact ⟨read, builder.names.extends_intern text name read hread⟩
  nodes ρ hρ := halike.nodes ρ (Pairing.sharing.narrows text halike.paired hρ).1

end Alike

end Builder

/-- Whether two answers to a build step are the same but for what a name itself is and for
the number of interned texts. -/
inductive BuildAnswer.Alike (names names' : Interner) : BuildAnswer → BuildAnswer → Prop
  | node (id : NodeId) : Alike names names' (.node id) (.node id)
  | name {name name' : Name} (htwins : names.Twins names' name name') :
    Alike names names' (.name name) (.name name')
  | count (size size' : Nat) : Alike names names' (.count size) (.count size')
  | done : Alike names names' .done .done

theorem BuildAnswer.Alike.extends {names names' later later' : Interner}
    {answer answer' : BuildAnswer} (halike : Alike names names' answer answer')
    (hlater : later.Extends names) (hlater' : later'.Extends names') :
    Alike later later' answer answer' := by
  cases halike with
  | node id => exact .node id
  | name htwins => exact .name (htwins.extends hlater hlater')
  | count size size' => exact .count size size'
  | done => exact .done

namespace Build

open Builder

/-- What two build steps leave behind: builders that are alike again, over interners that
have only grown, and outcomes that match. -/
structure After (builder builder' : Builder) (post : Interner → Interner → α → α' → Prop)
    (result : Except BuildError α × Builder) (result' : Except BuildError α' × Builder) : Prop where
  alike : result.2.Alike result'.2
  grows : result.2.names.Extends builder.names
  grows' : result'.2.names.Extends builder'.names
  outcomes : Matches (post result.2.names result'.2.names) result.1 result'.1

/-- Whether two build steps come to the same over two interners. -/
def Agree (builder builder' : Builder) (post : Interner → Interner → α → α' → Prop)
    (step : Build α) (step' : Build α') : Prop :=
  After builder builder' post ((ExceptT.run step).run builder) ((ExceptT.run step').run builder')

/-- The results are equal. -/
abbrev Same : Interner → Interner → α → α → Prop := fun _ _ value value' => value' = value

namespace Agree

variable {builder builder' : Builder} {post : Interner → Interner → α → α' → Prop}
variable {post' : Interner → Interner → β → β' → Prop}

theorem pure (halike : builder.Alike builder') {value : α} {value' : α'}
    (hpost : post builder.names builder'.names value value') :
    Agree builder builder' post (Pure.pure value) (Pure.pure value') :=
  ⟨halike, .refl _, .refl _, .ok hpost⟩

theorem refuse (halike : builder.Alike builder') (error : BuildError) :
    Agree builder builder' post (throw error) (throw error) :=
  ⟨halike, .refl _, .refl _, .refused error⟩

theorem bind {first : Build α} {first' : Build α'} {next : α → Build β} {next' : α' → Build β'}
    (hfirst : Agree builder builder' post first first')
    (hnext : ∀ value value' later later', later.Alike later' →
      later.names.Extends builder.names → later'.names.Extends builder'.names →
      post later.names later'.names value value' →
      Agree later later' post' (next value) (next' value')) :
    Agree builder builder' post' (first >>= next) (first' >>= next') := by
  unfold Agree at hfirst ⊢
  rw [run_bind, run_bind]
  generalize (ExceptT.run first).run builder = left at hfirst ⊢
  generalize (ExceptT.run first').run builder' = right at hfirst ⊢
  obtain ⟨outcome, later⟩ := left
  obtain ⟨outcome', later'⟩ := right
  obtain ⟨halike, hgrows, hgrows', houtcomes⟩ := hfirst
  dsimp only at houtcomes
  cases houtcomes with
  | refused error => exact ⟨halike, hgrows, hgrows', .refused error⟩
  | @ok value value' hpost =>
    have hsecond := hnext value value' later later' halike hgrows hgrows' hpost
    exact ⟨hsecond.alike, hsecond.grows.trans hgrows, hsecond.grows'.trans hgrows',
      hsecond.outcomes⟩

theorem get_bind {next : Builder → Build β} {next' : Builder → Build β'}
    (hnext : Agree builder builder' post' (next builder) (next' builder')) :
    Agree builder builder' post' (get >>= next) (get >>= next') := hnext

theorem map {step : Build α} {step' : Build α'} {f : α → β} {f' : α' → β'}
    (hstep : Agree builder builder' post step step')
    (hf : ∀ names names' value value', post names names' value value' →
      post' names names' (f value) (f' value')) :
    Agree builder builder' post' (f <$> step) (f' <$> step') := by
  rw [map_eq_pure_bind, map_eq_pure_bind]
  exact hstep.bind fun value value' later later' halike _ _ hpost =>
    .pure halike (hf _ _ value value' hpost)

theorem name (halike : builder.Alike builder') (text : String) :
    Agree builder builder' Twins (Builder.name text) (Builder.name text) := by
  unfold Builder.name
  cases Text.isIdentifier text with
  | true =>
    exact ⟨halike.intern text, builder.names.extends_intern text,
      builder'.names.extends_intern text,
      .ok ⟨text, halike.paired.1.lookup?_intern text, halike.paired.2.1.lookup?_intern text⟩⟩
  | false => exact ⟨halike, .refl _, .refl _, .refused _⟩

theorem push (halike : builder.Alike builder') {kind kind' : NodeKind} (children : List NodeId)
    (hknown : ∀ name ∈ kind.names, ∃ text, builder.names.lookup? name = some text)
    (hkind : ∀ ρ, Pairing.sharing.fits builder.names builder'.names ρ → kind' = ρ.kind kind) :
    Agree builder builder' Same (Builder.push kind children) (Builder.push kind' children) := by
  unfold Agree Builder.push
  rw [run_get_bind, run_get_bind, halike.adoptionFault?]
  cases builder.adoptionFault? [] children with
  | some fault => exact ⟨halike, .refl _, .refl _, .refused fault⟩
  | none =>
    refine ⟨halike.adopt children hknown hkind, .refl _, .refl _, .ok ?_⟩
    rw [halike.size]

/-- A node without names and access keyword. -/
theorem push_plain (halike : builder.Alike builder') {kind : NodeKind} (children : List NodeId)
    (hnames : kind.names = []) (hkind : ∀ ρ : Relabeling, ρ.conceals = false → ρ.kind kind = kind) :
    Agree builder builder' Same (Builder.push kind children) (Builder.push kind children) :=
  .push halike children (by simp [hnames]) fun ρ hρ => (hkind ρ hρ.1).symm

theorem push_twins (halike : builder.Alike builder') {kind : Name → NodeKind} {name name' : Name}
    (htwins : builder.names.Twins builder'.names name name') (children : List NodeId)
    (hnames : (kind name).names = [name])
    (hkind : ∀ ρ : Relabeling, ρ.kind (kind name) = kind (ρ.name name)) :
    Agree builder builder' Same (Builder.push (kind name) children)
      (Builder.push (kind name') children) := by
  refine .push halike children (fun other hother => ?_) fun ρ hρ => ?_
  · obtain ⟨text, hname, -⟩ := htwins
    obtain rfl : other = name := by simpa [hnames] using hother
    exact ⟨text, hname⟩
  · rw [hkind, htwins.eq halike.paired.2.1 hρ]

theorem pushNamed (halike : builder.Alike builder') {kind : Name → NodeKind} (text : String)
    (children : List NodeId) (hnames : ∀ name, (kind name).names = [name])
    (hkind : ∀ (ρ : Relabeling) name, ρ.kind (kind name) = kind (ρ.name name)) :
    Agree builder builder' Same (Builder.pushNamed kind text children)
      (Builder.pushNamed kind text children) :=
  (Agree.name halike text).bind fun name _ _ _ halike _ _ htwins =>
    .push_twins halike htwins children (hnames name) (hkind · name)

theorem identifier (halike : builder.Alike builder') (text : String) :
    Agree builder builder' Same (Builder.identifier text) (Builder.identifier text) :=
  .pushNamed halike text [] (fun _ => rfl) fun _ _ => rfl

theorem dot (halike : builder.Alike builder') (receiver : NodeId) (field : String) :
    Agree builder builder' Same (Builder.dot receiver field) (Builder.dot receiver field) :=
  .pushNamed halike field [receiver] (fun _ => rfl) fun _ _ => rfl

theorem bind_same {first first' : Build α} {next : α → Build β} {next' : α → Build β'}
    (hfirst : Agree builder builder' Same first first')
    (hnext : ∀ value later later', later.Alike later' →
      later.names.Extends builder.names → later'.names.Extends builder'.names →
      Agree later later' post' (next value) (next' value)) :
    Agree builder builder' post' (first >>= next) (first' >>= next') :=
  hfirst.bind fun value value' later later' halike hgrows hgrows' hsame => by
    rw [hsame]
    exact hnext value later later' halike hgrows hgrows'

theorem dots (halike : builder.Alike builder') (receiver : NodeId) (fields : List String) :
    Agree builder builder' Same (Builder.dots receiver fields) (Builder.dots receiver fields) := by
  induction fields generalizing builder builder' receiver with
  | nil => exact .pure halike rfl
  | cons field rest ih =>
    exact (Agree.dot halike receiver field).bind_same fun id _ _ halike _ _ => ih halike id

theorem dotted (halike : builder.Alike builder') (path : String) :
    Agree builder builder' Same (Builder.dotted path) (Builder.dotted path) := by
  unfold Builder.dotted
  cases Builder.segments path with
  | nil => exact .identifier halike ""
  | cons first fields =>
    exact (Agree.identifier halike first).bind_same fun id _ _ halike _ _ => .dots halike id fields

theorem rename (halike : builder.Alike builder') (symbol renamed : NodeId) :
    Agree builder builder' Same (Builder.rename symbol renamed) (Builder.rename symbol renamed) :=
  .push_plain halike _ rfl fun _ _ => rfl

theorem elements (halike : builder.Alike builder') (texts : List String) :
    Agree builder builder' Same (Builder.elements texts) (Builder.elements texts) := by
  induction texts generalizing builder builder' with
  | nil => exact .pure halike rfl
  | cons text rest ih =>
    have hfirst : Agree builder builder' Same (Builder.pushNamed .enumElement text [])
        (Builder.pushNamed .enumElement text []) :=
      .pushNamed halike text [] (fun _ => rfl) fun _ _ => rfl
    exact hfirst.bind_same fun element _ _ halike _ _ =>
      (ih halike).bind_same fun others _ _ halike _ _ => .pure halike rfl

theorem enumeration (halike : builder.Alike builder') (text : String) (elementNames : List String) :
    Agree builder builder' Same (Builder.enumeration text elementNames)
      (Builder.enumeration text elementNames) :=
  (Agree.name halike text).bind fun _ _ _ _ halike _ _ htwins =>
    (Agree.elements halike elementNames).bind_same fun elements _ _ halike hgrows hgrows' =>
      .push_twins halike (htwins.extends hgrows hgrows') elements rfl fun _ => rfl

theorem node {step step' : Build NodeId} (hstep : Agree builder builder' Same step step') :
    Agree builder builder' BuildAnswer.Alike (.node <$> step) (.node <$> step') :=
  hstep.map fun _ _ id _ hsame => by
    rw [hsame]
    exact .node id

theorem tagOf (halike : builder.Alike builder') (id : NodeId) :
    Agree builder builder' Same (Builder.tagOf id) (Builder.tagOf id) := by
  unfold Agree
  rw [run_tagOf, run_tagOf]
  obtain ⟨ρ, hρ⟩ := halike.exists_fits
  rw [halike.node? hρ]
  cases builder.node? id with
  | none => exact ⟨halike, .refl _, .refl _, .refused _⟩
  | some node => exact ⟨halike, .refl _, .refl _, .ok (ρ.tag_node node)⟩

theorem link (halike : builder.Alike builder') (site body : NodeId) :
    Agree builder builder' Same (Builder.link site body) (Builder.link site body) := by
  unfold Builder.link
  refine (Agree.tagOf halike site).bind_same fun tag _ _ halike _ _ => ?_
  cases tag.isInclude with
  | false => exact .refuse halike (.invalidInclude site body)
  | true =>
    refine (Agree.tagOf halike body).bind_same fun tag later later' halike _ _ => ?_
    cases tag.isModule with
    | false => exact .refuse halike (.invalidInclude site body)
    | true =>
      obtain ⟨ρ, hρ⟩ := halike.exists_fits
      refine .get_bind ?_
      rw [halike.node? hρ]
      cases later.node? body with
      | none => exact .refuse halike (.unknownNode body)
      | some node =>
        dsimp only [Option.map_some]
        rw [halike.isTaken]
        cases later.isTaken body node with
        | true => exact .refuse halike (.alreadyAdopted body)
        | false => exact ⟨halike.link site body, .refl _, .refl _, .ok rfl⟩

theorem perform (halike : builder.Alike builder') (step : BuildStep) :
    Agree builder builder' BuildAnswer.Alike step.perform step.perform := by
  cases step with
  | identifier text => exact .node (.identifier halike text)
  | dot receiver field => exact .node (.dot halike receiver field)
  | dotted path => exact .node (.dotted halike path)
  | rename symbol renamed => exact .node (.rename halike symbol renamed)
  | renameTo symbol newName =>
    exact .node ((Agree.identifier halike newName).bind_same fun renamed _ _ halike _ _ =>
      .rename halike symbol renamed)
  | useStmt access clauses | importStmt access clauses =>
    exact .node (.push_plain halike clauses rfl fun ρ hplain => by
      simp [Relabeling.kind, Relabeling.access, hplain])
  | enumDecl text elementNames => exact .node (.enumeration halike text elementNames)
  | link site body =>
    exact (Agree.link halike site body).bind fun _ _ _ _ halike _ _ _ => .pure halike .done
  | intern text => exact (Agree.name halike text).map fun _ _ _ _ htwins => .name htwins
  | internedCount => exact ⟨halike, .refl _, .refl _, .ok (.count _ _)⟩
  | clause | call | tupleDecl | multiDecl | compound =>
    exact .node (.push_plain halike _ rfl fun _ _ => rfl)
  | variableDecl text | formal text | typeQuery text | functionDecl text | recordDecl text
  | classDecl text | moduleDecl _ text | includeDecl text =>
    exact .node (.pushNamed halike text _ (fun _ => rfl) fun _ _ => rfl)

end Agree

end Build

namespace BuildStep

variable {builder builder' : Builder}

/-- Steps come to the same over both interners, one after another. -/
theorem runAll_alike (halike : builder.Alike builder') (steps : List BuildStep) :
    (runAll steps builder).2.Alike (runAll steps builder').2 ∧
      (runAll steps builder).2.names.Extends builder.names ∧
      (runAll steps builder').2.names.Extends builder'.names ∧
      List.Forall₂ (Matches (BuildAnswer.Alike (runAll steps builder).2.names
        (runAll steps builder').2.names)) (runAll steps builder).1 (runAll steps builder').1 := by
  induction steps generalizing builder builder' with
  | nil => exact ⟨halike, .refl _, .refl _, .nil⟩
  | cons step rest ih =>
    obtain ⟨hstep, hgrows, hgrows', houtcome⟩ := Build.Agree.perform halike step
    obtain ⟨hlast, hmore, hmore', houtcomes⟩ := ih hstep
    refine ⟨hlast, hmore.trans hgrows, hmore'.trans hgrows', .cons ?_ houtcomes⟩
    exact houtcome.mono fun _ _ hanswers => hanswers.extends hmore hmore'

end BuildStep

namespace Builder

variable {builder builder' : Builder}

theorem placeBodies_map (ρ : Relabeling) (nodes : Array Node) (bodies : List (NodeId × NodeId)) :
    placeBodies (nodes.map ρ.node) bodies = (placeBodies nodes bodies).map (Array.map ρ.node) := by
  induction bodies generalizing nodes with
  | nil => rfl
  | cons link rest ih =>
    obtain ⟨site, body⟩ := link
    have hparent : (nodes.map ρ.node)[site.index]?.bind Node.parent =
        nodes[site.index]?.bind Node.parent := by
      rw [Array.getElem?_map]
      cases nodes[site.index]? <;> rfl
    rw [placeBodies, placeBodies, hparent]
    cases nodes[site.index]?.bind Node.parent with
    | none => rfl
    | some parent =>
      dsimp only
      rw [map_setParent_node, ih]

end Builder

end Scoping
