import Scoping.Proofs.Asking

/-!
Starting over. Questions leave two things behind: what was worked out, which starting over
drops to the last entry, and the names of texts, which a new session has as well if its
interner gave them out before. So from then on a session answers as a new one does, with
the same handles and the same problems.
-/

namespace Scoping

namespace Interner

/-- Whether the texts that have a name in one interner have the same name in a later one. -/
def Recalls (later names : Interner) : Prop :=
  ∀ text name, names.find? text = some name → later.find? text = some name

variable {names later : Interner}

theorem Recalls.refl (names : Interner) : names.Recalls names := fun _ _ hfound => hfound

theorem Recalls.trans {last : Interner} (hlast : last.Recalls later)
    (hlater : later.Recalls names) : last.Recalls names :=
  fun text name hfound => hlast text name (hlater text name hfound)

theorem find?_intern (names : Interner) (text : String) :
    (names.intern text).2.find? text = some (names.intern text).1 := by
  cases hfound : names.find? text with
  | some name => rw [intern_of_find? hfound, hfound]
  | none =>
    rw [intern_of_find?_eq_none hfound, find?, Assoc.get?_insert_self, Option.map_some]

theorem recalls_intern (names : Interner) (text : String) :
    (names.intern text).2.Recalls names := by
  intro other name hother
  cases hfound : names.find? text with
  | some known => rwa [intern_of_find? hfound]
  | none =>
    have hne : other ≠ text := by
      rintro rfl
      rw [hfound] at hother
      cases hother
    rw [find?] at hother
    rwa [intern_of_find?_eq_none hfound, find?, Assoc.get?_insert_of_ne _ hne]

theorem recalls_internAll (names : Interner) (texts : List String) :
    (names.internAll texts).2.Recalls names := by
  induction texts generalizing names with
  | nil => exact .refl names
  | cons text rest ih => exact (ih _).trans (names.recalls_intern text)

/-- A text that has its name already is given it again, and nothing is added. -/
theorem Recalls.intern {text : String} (hlater : later.Recalls (names.intern text).2) :
    later.intern text = ((names.intern text).1, later) :=
  intern_of_find? (hlater _ _ (names.find?_intern text))

theorem Recalls.internAll {texts : List String}
    (hlater : later.Recalls (names.internAll texts).2) :
    later.internAll texts = ((names.internAll texts).1, later) := by
  induction texts generalizing names with
  | nil => rfl
  | cons text rest ih =>
    have hfirst := (hlater.trans (recalls_internAll _ rest)).intern
    simp only [Interner.internAll] at hlater ⊢
    rw [hfirst, ih hlater]

theorem internAll_append (names : Interner) (texts more : List String) :
    (names.internAll (texts ++ more)).2 = ((names.internAll texts).2.internAll more).2 := by
  induction texts generalizing names with
  | nil => rfl
  | cons text rest ih => exact ih (names.intern text).2

theorem internAll_of_known {texts : List String}
    (hknown : ∀ text ∈ texts, (names.find? text).isSome = true) :
    (names.internAll texts).2 = names := by
  induction texts with
  | nil => rfl
  | cons text rest ih =>
    obtain ⟨hfirst, hrest⟩ := List.forall_mem_cons.mp hknown
    obtain ⟨name, hname⟩ := Option.isSome_iff_exists.mp hfirst
    rw [Interner.internAll, intern_of_find? hname]
    exact ih hrest

/-- Whether an interner comes from another one by interning some of the texts. -/
def Gains (texts : List String) (names later : Interner) : Prop :=
  ∃ interned ⊆ texts, later = (names.internAll interned).2

namespace Gains

variable {texts : List String}

theorem refl (texts : List String) (names : Interner) : Gains texts names names :=
  ⟨[], List.nil_subset texts, rfl⟩

theorem intern {text : String} (htext : text ∈ texts) (names : Interner) :
    Gains texts names (names.intern text).2 :=
  ⟨[text], List.cons_subset.mpr ⟨htext, List.nil_subset texts⟩, rfl⟩

theorem trans {last : Interner} (hfirst : Gains texts names later)
    (hsecond : Gains texts later last) : Gains texts names last := by
  obtain ⟨interned, hinterned, rfl⟩ := hfirst
  obtain ⟨more, hmore, rfl⟩ := hsecond
  exact ⟨interned ++ more, List.append_subset.mpr ⟨hinterned, hmore⟩,
    (names.internAll_append interned more).symm⟩

theorem mono {more : List String} (hgains : Gains texts names later) (hmore : texts ⊆ more) :
    Gains more names later := by
  obtain ⟨interned, hinterned, hlater⟩ := hgains
  exact ⟨interned, List.Subset.trans hinterned hmore, hlater⟩

theorem recalls (hgains : Gains texts names later) : later.Recalls names := by
  obtain ⟨interned, -, rfl⟩ := hgains
  exact names.recalls_internAll interned

theorem eq_of_known (hgains : Gains texts names later)
    (hknown : ∀ text ∈ texts, (names.find? text).isSome = true) : later = names := by
  obtain ⟨interned, hinterned, rfl⟩ := hgains
  exact internAll_of_known fun text htext => hknown text (hinterned htext)

end Gains

end Interner

open Interner

/-- Over an interner that knows the configured names, a configuration has the same names as
before and adds none. -/
theorem Program.ofConfig_again {tree : Tree} {config : Config} {names later : Interner}
    (hlater : later.Recalls (Program.ofConfig tree config names).2) :
    Program.ofConfig tree config later = ((Program.ofConfig tree config names).1, later) := by
  have hauto := hlater.trans (recalls_intern _ _)
  have hbuiltins := hauto.trans (recalls_intern _ _)
  simp only [Program.ofConfig] at hlater ⊢
  rw [hbuiltins.internAll, hauto.intern, hlater.intern]

theorem Program.ofConfig_names (tree : Tree) (config : Config) (names : Interner) :
    (Program.ofConfig tree config names).2 = (names.internAll config.texts).2 := by
  rw [Config.texts, internAll_append]
  rfl

/-- Any step at all. -/
def Context.Moves (_ _ : Context) : Prop := True

instance Context.moves_isPreorder : IsPreorder Context Context.Moves where
  refl _ := trivial
  trans _ _ _ _ _ := trivial

theorem Program.admits_moves (program : Program) : program.Admits Context.Moves where
  rootScope _ _ _ _ := trivial
  scopeOf _ _ _ _ _ := trivial
  autoScope _ _ _ _ := trivial
  visibility _ _ _ _ _ := trivial
  others _ _ _ _ _ _ _ := trivial

namespace Session

/-- Whether the program of a session is what its configuration makes of the tree, also if the
names of the configuration are asked for once more. -/
def About (tree : Tree) (session : Session) : Prop :=
  Program.ofConfig tree session.config session.names = (session.program, session.names)

theorem start_about (tree : Tree) (config : Config) (names : Interner) :
    (start tree config names).About tree :=
  Program.ofConfig_again (.refl _)

theorem About.tree {tree : Tree} {session : Session} (habout : session.About tree) :
    session.program.tree = tree := (congrArg (Program.tree ∘ Prod.fst) habout).symm

/-- A new session over the names of another one differs from it in the context alone. -/
theorem About.start_eq {tree : Tree} {session : Session} (habout : session.About tree) :
    start tree session.config session.names = { session with context := .empty } := by
  rw [start, habout]

/-- What an action leaves behind in a session besides its context: the names of some texts. -/
structure Adds (texts : List String) (session later : Session) : Prop where
  program : later.program = session.program
  config : later.config = session.config
  names : Gains texts session.names later.names

variable {texts : List String} {session later : Session}

instance adds_isPreorder (texts : List String) : IsPreorder Session (Adds texts) where
  refl session := ⟨rfl, rfl, .refl texts session.names⟩
  trans _ _ _ hfirst hsecond := ⟨hsecond.program.trans hfirst.program,
    hsecond.config.trans hfirst.config, hfirst.names.trans hsecond.names⟩

theorem Adds.about {tree : Tree} (hadds : Adds texts session later)
    (habout : session.About tree) : later.About tree := by
  have hknown : later.names.Recalls (Program.ofConfig tree session.config session.names).2 := by
    rw [habout]
    exact hadds.names.recalls
  rw [About, hadds.config, hadds.program, Program.ofConfig_again hknown, habout]

/-- No query touches more than the context and the interner, unless it starts over. -/
theorem admits_adds (texts : List String) : Asking.Admits texts Context.Moves (Adds texts) where
  program := Program.admits_moves
  context session _ _ := ⟨rfl, rfl, .refl texts session.names⟩
  names session _ htext := ⟨rfl, rfl, .intern htext session.names⟩

variable {history : List Query}

/-- What a history leaves behind in a session besides its context. -/
structure Leaves (history : List Query) (session later : Session) : Prop where
  about : ∀ tree, session.About tree → later.About tree
  names : Gains (history.flatMap Query.texts) session.names later.names
  settings : (∀ config, .reconfigure config ∉ history) →
    later.program = session.program ∧ later.config = session.config

theorem Leaves.refl (session : Session) : Leaves [] session session :=
  ⟨fun _ habout => habout, .refl _ session.names, fun _ => ⟨rfl, rfl⟩⟩

theorem Leaves.cons {query : Query} {last : Session} (hfirst : Leaves [query] session later)
    (hrest : Leaves history later last) : Leaves (query :: history) session last where
  about tree habout := hrest.about tree (hfirst.about tree habout)
  names := by
    refine (hfirst.names.mono ?_).trans (hrest.names.mono ?_)
    · simp
    · simp
  settings hkept := by
    obtain ⟨hprogram, hconfig⟩ := hfirst.settings fun config hmem =>
      hkept config (List.mem_singleton.mp hmem ▸ List.mem_cons_self)
    obtain ⟨hprogram', hconfig'⟩ := hrest.settings fun config hmem =>
      hkept config (List.mem_cons_of_mem query hmem)
    exact ⟨hprogram'.trans hprogram, hconfig'.trans hconfig⟩

theorem leaves_of_adds {query : Query} (hadds : Adds query.texts session later) :
    Leaves [query] session later :=
  ⟨fun _ => hadds.about, by simpa using hadds.names, fun _ => ⟨hadds.program, hadds.config⟩⟩

theorem leaves_ask {query : Query} {reply : Reply}
    (hask : session.ask query = some (reply, later)) : Leaves [query] session later := by
  cases hquery : query.startsOver with
  | false => exact leaves_of_adds ((admits_adds query.texts).ask hquery hask)
  | true =>
    cases query with
    | invalidate =>
      rw [ask_invalidate] at hask
      cases hask
      exact leaves_of_adds ⟨rfl, rfl, .refl _ session.names⟩
    | reconfigure config =>
      rw [ask_reconfigure] at hask
      cases hask
      refine ⟨fun tree habout => ?_, ?_, fun hkept => absurd List.mem_cons_self (hkept config)⟩
      · rw [← habout.tree]
        exact start_about _ config session.names
      · refine ⟨config.texts, ?_, Program.ofConfig_names session.program.tree config session.names⟩
        simp [Query.texts]
    | _ => cases hquery

/-- Every history leaves behind but names of the texts that it mentions; all else that is left
of it is in the context. -/
theorem leaves_askAll {replies : List Reply}
    (hasked : session.askAll history = some (replies, later)) : Leaves history session later := by
  induction history generalizing session replies with
  | nil =>
    cases hasked
    exact .refl later
  | cons query rest ih =>
    obtain ⟨reply, middle, others, hask, hrest⟩ := exists_of_askAll_cons hasked
    exact (leaves_ask hask).cons (ih hrest)

theorem askAll_append (session : Session) (first second : List Query) :
    session.askAll (first ++ second) = (session.askAll first).bind fun (past, reached) =>
      (reached.askAll second).map fun (replies, last) => (past ++ replies, last) := by
  induction first generalizing session with
  | nil =>
    show _ = (session.askAll second).map fun result => result
    exact Option.map_id'.symm
  | cons query rest ih =>
    simp only [List.cons_append, askAll, Option.bind_eq_bind, ih]
    cases session.ask query with
    | none => rfl
    | some result =>
      obtain ⟨reply, later⟩ := result
      dsimp only [Option.bind_some]
      cases later.askAll rest with
      | none => rfl
      | some result =>
        obtain ⟨past, reached⟩ := result
        show ((reached.askAll second).map _).bind _ = (reached.askAll second).map _
        cases reached.askAll second <;> rfl

/-- After starting over, further queries find the session as it was left, its context apart. -/
theorem askAll_append_invalidate (session : Session) (history queries : List Query) :
    session.askAll (history ++ .invalidate :: queries) =
      (session.askAll history).bind fun (past, reached) =>
        (askAll { reached with context := .empty } queries).map fun (replies, last) =>
          (past ++ ⟨.done, 0, 0⟩ :: replies, last) := by
  rw [askAll_append]
  refine Option.bind_congr ?_
  rintro ⟨past, reached⟩ -
  dsimp only
  rw [askAll, ask_invalidate]
  show ((askAll { reached with context := .empty } queries).bind _).map _ = _
  cases askAll { reached with context := .empty } queries <;> rfl

/-- Starting over comes to a new session. Once everything is forgotten, the session has the
same replies to further queries, with the same handles, counts and problems, as a new one
about the same tree and configuration, whatever the history worked out and however far it got.
The new session starts from an interner that has given out names for texts of the history
before; where the history only has texts with names and keeps the configuration, it is the
session that there was in the beginning. -/
theorem askAll_invalidate (tree : Tree) (config : Config) (names : Interner)
    (history queries : List Query) :
    let session := start tree config names
    session.askAll (history ++ .invalidate :: queries) =
        ((session.askAll history).bind fun (past, reached) =>
          ((start tree reached.config reached.names).askAll queries).map fun (replies, last) =>
            (past ++ ⟨.done, 0, 0⟩ :: replies, last)) ∧
      (∀ past reached, session.askAll history = some (past, reached) →
        Gains (history.flatMap Query.texts) session.names reached.names) ∧
      ((∀ other, .reconfigure other ∉ history) →
        (∀ text ∈ history.flatMap Query.texts, (session.names.find? text).isSome = true) →
        session.askAll (history ++ .invalidate :: queries) =
          (session.askAll history).bind fun (past, _) =>
            (session.askAll queries).map fun (replies, last) =>
              (past ++ ⟨.done, 0, 0⟩ :: replies, last)) := by
  intro session
  have hsession : session.About tree := start_about tree config names
  refine ⟨?_, fun past reached hasked => (leaves_askAll hasked).names, fun hkept hknown => ?_⟩
  · rw [askAll_append_invalidate]
    refine Option.bind_congr ?_
    rintro ⟨past, reached⟩ hasked
    dsimp only
    rw [((leaves_askAll hasked).about tree hsession).start_eq]
  · rw [askAll_append_invalidate]
    refine Option.bind_congr ?_
    rintro ⟨past, reached⟩ hasked
    dsimp only
    have hleaves := leaves_askAll hasked
    obtain ⟨hprogram, hconfig⟩ := hleaves.settings hkept
    have hnew : { reached with context := .empty } = session := by
      rw [hprogram, hconfig, hleaves.names.eq_of_known hknown]
      rfl
    rw [hnew]

/-- A module that uses a missing one, and a module with a variable. -/
def misuse : Session :=
  fresh (.ofSteps
    [.identifier "Missing", .clause ⟨0⟩ .unlimited [], .useStmt .unstated [⟨1⟩],
      .moduleDecl false "A" [⟨2⟩], .variableDecl "x" none, .moduleDecl false "B" [⟨4⟩]]) {}

/-- Queries that build the scope of the second module first, and meet the missing one. -/
def misuseHistory : List Query :=
  [.lookup ⟨.node ⟨5⟩, none, "x", .allVisible⟩, .visibility (.node ⟨3⟩)]

/-- Queries whose answers tell which scope was built first and what was reported so far. -/
def misuseQueries : List Query := [.scopeOf ⟨3⟩, .errors, .visibility (.node ⟨3⟩), .scopeOf ⟨5⟩]

/-- The queries are answered otherwise after the history, but not once everything is forgotten
in between. -/
theorem misuse_askAll_invalidate :
    (misuse.askAll misuseHistory).isSome = true ∧
      (misuse.askAll (misuseHistory ++ misuseQueries)).map (fun result => result.1.drop 2) ≠
        (misuse.askAll misuseQueries).map Prod.fst ∧
      (∀ other, .reconfigure other ∉ misuseHistory) ∧
      (∀ text ∈ misuseHistory.flatMap Query.texts, (misuse.names.find? text).isSome = true) ∧
      misuse.askAll (misuseHistory ++ .invalidate :: misuseQueries) =
        (misuse.askAll misuseHistory).bind fun (past, _) =>
          (misuse.askAll misuseQueries).map fun (replies, last) =>
            (past ++ ⟨.done, 0, 0⟩ :: replies, last) := by
  have hkept : ∀ other, .reconfigure other ∉ misuseHistory := by simp [misuseHistory]
  have hknown : ∀ text ∈ misuseHistory.flatMap Query.texts,
      (misuse.names.find? text).isSome = true := by decide +kernel
  exact ⟨by decide +kernel, by decide +kernel, hkept, hknown,
    (askAll_invalidate _ _ _ misuseHistory misuseQueries).2.2 hkept hknown⟩

end Session

end Scoping
