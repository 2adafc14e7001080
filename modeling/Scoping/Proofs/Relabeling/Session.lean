import Mathlib.Data.Option.Basic
import Scoping.Session
import Scoping.Proofs.Relabeling.Answering
import Scoping.Proofs.Relabeling.Reports

/-!
Two sessions side by side. The second one is about the relabeled program, over an interner
of its own. Texts that are interned on the way leave fewer relabelings that fit; whatever
is asked, the sessions stay alike under every relabeling that still fits.
-/

namespace Scoping

variable {α α' β β' : Type}

/-- Interners that go together, and the relabelings that fit them. Each text interned
on both sides binds one more name. -/
structure Pairing where
  conceals : Bool
  pairs : Interner → Interner → Prop
  fits : Interner → Interner → Relabeling → Prop
  intern : ∀ {names names'} (text : String), pairs names names' →
    pairs (names.intern text).2 (names'.intern text).2
  narrows : ∀ {names names'} (text : String), pairs names names' → ∀ {ρ},
    fits (names.intern text).2 (names'.intern text).2 ρ →
      fits names names' ρ ∧ (names'.intern text).1 = ρ.name (names.intern text).1
  concealed : ∀ {names names' ρ}, fits names names' ρ → ρ.conceals = conceals
  spells : ∀ {names names'}, pairs names names' → ∃ ρ, fits names names' ρ ∧ ρ.Spells names names'

variable {pairing : Pairing}

/-- Whether two sessions differ by a relabeling only, whichever of those that fit. -/
structure Session.Alike (pairing : Pairing) (session session' : Session) : Prop where
  paired : pairing.pairs session.names session'.names
  config : session'.config = session.config
  relabeled : ∀ ρ, pairing.fits session.names session'.names ρ →
    session.program.Relabeled ρ session'.program ∧ session'.context = ρ.context session.context

theorem Pairing.internAll {names names' : Interner} (hpairs : pairing.pairs names names')
    (texts : List String) :
    pairing.pairs (names.internAll texts).2 (names'.internAll texts).2 ∧
      ∀ ρ, pairing.fits (names.internAll texts).2 (names'.internAll texts).2 ρ →
        pairing.fits names names' ρ ∧
          (names'.internAll texts).1 = (names.internAll texts).1.map ρ.name := by
  induction texts generalizing names names' with
  | nil => exact ⟨hpairs, fun _ hρ => ⟨hρ, rfl⟩⟩
  | cons text rest ih =>
    obtain ⟨hpaired, hnarrows⟩ := ih (pairing.intern text hpairs)
    refine ⟨hpaired, fun ρ hρ => ?_⟩
    obtain ⟨hlater, hnames⟩ := hnarrows ρ hρ
    obtain ⟨hfits, hname⟩ := pairing.narrows text hpairs hlater
    exact ⟨hfits, congrArg₂ List.cons hname hnames⟩

/-- Sessions start alike when their trees do, and then fewer relabelings fit. -/
theorem Session.Alike.start {names names' : Interner} {tree tree' : Tree}
    (hpairs : pairing.pairs names names')
    (htree : ∀ ρ, pairing.fits names names' ρ → tree.Relabeled ρ tree') (config : Config) :
    (Session.start tree config names).Alike pairing (Session.start tree' config names') ∧
      ∀ ρ, pairing.fits (Session.start tree config names).names
        (Session.start tree' config names').names ρ → pairing.fits names names' ρ := by
  obtain ⟨hbuiltins, hnarrows⟩ := pairing.internAll hpairs config.builtins
  have hauto := pairing.intern config.autoModule hbuiltins
  have htuple := pairing.intern config.tupleRecord hauto
  have hfits : ∀ ρ, pairing.fits (Session.start tree config names).names
      (Session.start tree' config names').names ρ →
        pairing.fits names names' ρ ∧ (Session.start tree config names).program.Relabeled ρ
          (Session.start tree' config names').program := by
    intro ρ hρ
    obtain ⟨hbefore, hrecord⟩ := pairing.narrows config.tupleRecord hauto hρ
    obtain ⟨hbefore, hmodule⟩ := pairing.narrows config.autoModule hbuiltins hbefore
    obtain ⟨hbefore, hnames⟩ := hnarrows ρ hbefore
    exact ⟨hbefore, htree ρ hbefore, hmodule, hrecord, hnames, rfl⟩
  exact ⟨⟨htuple, rfl, fun ρ hρ => ⟨(hfits ρ hρ).2, ρ.context_empty.symm⟩⟩,
    fun ρ hρ => (hfits ρ hρ).1⟩

/-- What is left behind in two sessions: sessions that are alike again, under relabelings
that fitted before, and outcomes that match under each of them. -/
structure Session.After (pairing : Pairing) (session session' : Session)
    (post : Relabeling → α → α' → Prop) (result : α × Session) (result' : α' × Session) : Prop where
  alike : Session.Alike pairing result.2 result'.2
  outcomes : ∀ ρ, pairing.fits result.2.names result'.2.names ρ →
    pairing.fits session.names session'.names ρ ∧ post ρ result.1 result'.1

/-- Whatever fits in the end fitted at the start. -/
theorem Session.After.widen {session session' middle middle' : Session}
    {post : Relabeling → α → α' → Prop} {left : Option (α × Session)}
    {right : Option (α' × Session)}
    (hlater : Option.Rel (Session.After pairing middle middle' post) left right)
    (hfits : ∀ ρ, pairing.fits middle.names middle'.names ρ →
      pairing.fits session.names session'.names ρ) :
    Option.Rel (Session.After pairing session session' post) left right := by
  cases hlater with
  | none => exact .none
  | some hafter =>
    exact .some ⟨hafter.alike, fun ρ hρ =>
      ⟨hfits ρ (hafter.outcomes ρ hρ).1, (hafter.outcomes ρ hρ).2⟩⟩

/-- Whether two outcomes are the same refusal, or results that match. -/
inductive Matches {ε : Type} (post : α → α' → Prop) : Except ε α → Except ε α' → Prop
  | ok {value : α} {value' : α'} (hpost : post value value') : Matches post (.ok value) (.ok value')
  | refused (refusal : ε) : Matches post (.error refusal) (.error refusal)

theorem Matches.mono {ε : Type} {post post' : α → α' → Prop} {outcome : Except ε α}
    {outcome' : Except ε α'} (hmatches : Matches post outcome outcome')
    (hpost : ∀ value value', post value value' → post' value value') :
    Matches post' outcome outcome' := by
  cases hmatches with
  | ok hvalues => exact .ok (hpost _ _ hvalues)
  | refused refusal => exact .refused refusal

namespace Asking

/-- A refusal ends a question, and what was done until then stays done. -/
theorem run_bind (first : Asking α) (next : α → Asking β) (session : Session) :
    (ExceptT.run (first >>= next)).run session =
      ((ExceptT.run first).run session).bind fun result =>
        match result.1 with
        | .ok value => (ExceptT.run (next value)).run result.2
        | .error refusal => some (.error refusal, result.2) := by
  show ((ExceptT.run first).run session).bind _ = _
  refine congrArg (Option.bind _) (funext fun result => ?_)
  obtain ⟨outcome, later⟩ := result
  cases outcome <;> rfl

/-- Whether two questions come to the same, asked in one session each, or both to nothing. -/
def Agree (pairing : Pairing) (session session' : Session) (post : Relabeling → α → α' → Prop)
    (action : Asking α) (action' : Asking α') : Prop :=
  Option.Rel (Session.After pairing session session' fun ρ => Matches (post ρ))
    ((ExceptT.run action).run session) ((ExceptT.run action').run session')

/-- The results are equal. -/
abbrev Same : Relabeling → α → α → Prop := fun _ value value' => value' = value

/-- The second result is what the relabeling makes of the first one. -/
abbrev Image (image : Relabeling → α → α') : Relabeling → α → α' → Prop :=
  fun ρ value value' => value' = image ρ value

namespace Agree

variable {session session' : Session} {post : Relabeling → α → α' → Prop}
variable {post' : Relabeling → β → β' → Prop}

theorem pure (halike : session.Alike pairing session') {value : α} {value' : α'}
    (hpost : ∀ ρ, pairing.fits session.names session'.names ρ → post ρ value value') :
    Agree pairing session session' post (Pure.pure value) (Pure.pure value') :=
  .some ⟨halike, fun ρ hρ => ⟨hρ, .ok (hpost ρ hρ)⟩⟩

/-- A refusal ends both. -/
theorem refuse (halike : session.Alike pairing session') (refusal : Refusal)
    (next : α → Asking β) (next' : α' → Asking β') :
    Agree pairing session session' post' (throw refusal >>= next) (throw refusal >>= next') :=
  .some ⟨halike, fun _ hρ => ⟨hρ, .refused refusal⟩⟩

/-- One question after another: the second pair is asked in sessions that are alike, and
any relabeling that fits then fitted before and makes the first results match. -/
theorem bind {first : Asking α} {first' : Asking α'} {next : α → Asking β} {next' : α' → Asking β'}
    (hfirst : Agree pairing session session' post first first')
    (hnext : ∀ value value' later later', Session.Alike pairing later later' →
      (∀ ρ, pairing.fits later.names later'.names ρ →
        pairing.fits session.names session'.names ρ ∧ post ρ value value') →
      Agree pairing later later' post' (next value) (next' value')) :
    Agree pairing session session' post' (first >>= next) (first' >>= next') := by
  unfold Agree at hfirst ⊢
  rw [run_bind, run_bind]
  generalize (ExceptT.run first).run session = left at hfirst
  generalize (ExceptT.run first').run session' = right at hfirst
  cases hfirst with
  | none => exact .none
  | @some result result' hafter =>
    obtain ⟨outcome, later⟩ := result
    obtain ⟨outcome', later'⟩ := result'
    obtain ⟨ρ, hρ, -⟩ := pairing.spells hafter.alike.paired
    have hmatches := (hafter.outcomes ρ hρ).2
    cases outcome with
    | error refusal =>
      cases hmatches
      exact .some ⟨hafter.alike, fun ρ hρ => ⟨(hafter.outcomes ρ hρ).1, .refused refusal⟩⟩
    | ok value =>
      cases hmatches with
      | @ok _ value' hpost =>
      have hsecond := hnext value value' later later' hafter.alike fun ρ hρ => by
        obtain ⟨hfits, hmatches⟩ := hafter.outcomes ρ hρ
        cases hmatches with
        | ok hpost => exact ⟨hfits, hpost⟩
      exact Session.After.widen hsecond fun ρ hρ => (hafter.outcomes ρ hρ).1

/-- The special case of results that are equal. -/
theorem bind_same {first first' : Asking α} {next : α → Asking β} {next' : α → Asking β'}
    (hfirst : Agree pairing session session' Same first first')
    (hnext : ∀ value later later', Session.Alike pairing later later' →
      (∀ ρ, pairing.fits later.names later'.names ρ →
        pairing.fits session.names session'.names ρ) →
      Agree pairing later later' post' (next value) (next' value)) :
    Agree pairing session session' post' (first >>= next) (first' >>= next') := by
  refine hfirst.bind fun value value' later later' hlater hnarrows => ?_
  obtain ⟨ρ, hρ, -⟩ := pairing.spells hlater.paired
  obtain rfl := (hnarrows ρ hρ).2
  exact hnext value' later later' hlater fun ρ hρ => (hnarrows ρ hρ).1

theorem map {action : Asking α} {action' : Asking α'} {f : α → β} {f' : α' → β'}
    (haction : Agree pairing session session' post action action')
    (hf : ∀ ρ value value', post ρ value value' → post' ρ (f value) (f' value')) :
    Agree pairing session session' post' (f <$> action) (f' <$> action') := by
  rw [map_eq_pure_bind, map_eq_pure_bind]
  exact haction.bind fun value value' later later' hlater hnarrows =>
    .pure hlater fun ρ hρ => hf ρ value value' (hnarrows ρ hρ).2

theorem work (halike : session.Alike pairing session') {image : Relabeling → α → α'}
    {action : Program → Resolve α} {action' : Program → Resolve α'}
    (haction : ∀ ρ, pairing.fits session.names session'.names ρ →
      session.program.Relabeled ρ session'.program →
      Resolve.Relabels ρ (image ρ) (action session.program) (action' session'.program)) :
    Agree pairing session session' (Image image) (Asking.work action) (Asking.work action') := by
  have hrun : ∀ ρ, pairing.fits session.names session'.names ρ →
      action' session'.program session'.context =
        (action session.program session.context).map (Prod.map (image ρ) ρ.context) := by
    intro ρ hρ
    obtain ⟨hrelabeled, hcontext⟩ := halike.relabeled ρ hρ
    rw [hcontext]
    exact haction ρ hρ hrelabeled session.context
  obtain ⟨ρ, hρ, -⟩ := pairing.spells halike.paired
  show Option.Rel _ ((action session.program session.context).map _)
    ((action' session'.program session'.context).map _)
  cases hleft : action session.program session.context with
  | none =>
    rw [hrun ρ hρ, hleft]
    exact .none
  | some result =>
    rw [hrun ρ hρ, hleft]
    -- every relabeling that fits leads to the one result that there is
    have hother : ∀ ρ', pairing.fits session.names session'.names ρ' →
        Prod.map (image ρ) ρ.context result = Prod.map (image ρ') ρ'.context result := by
      intro ρ' hρ'
      have heq := (hrun ρ hρ).symm.trans (hrun ρ' hρ')
      rw [hleft] at heq
      exact Option.some.inj heq
    exact .some ⟨⟨halike.paired, halike.config, fun ρ' hρ' =>
        ⟨(halike.relabeled ρ' hρ').1, congrArg Prod.snd (hother ρ' hρ')⟩⟩,
      fun ρ' hρ' => ⟨hρ', .ok (congrArg Prod.fst (hother ρ' hρ'))⟩⟩

theorem work_same (halike : session.Alike pairing session') {action action' : Program → Resolve α}
    (haction : ∀ ρ, session.program.Relabeled ρ session'.program →
      Resolve.Relabels ρ id (action session.program) (action' session'.program)) :
    Agree pairing session session' Same (Asking.work action) (Asking.work action') :=
  .work halike fun ρ _ => haction ρ

theorem intern (halike : session.Alike pairing session') (text : String) :
    Agree pairing session session' (Image fun ρ => ρ.name) (Asking.intern text)
      (Asking.intern text) :=
  .some ⟨⟨pairing.intern text halike.paired, halike.config, fun ρ hρ =>
      halike.relabeled ρ (pairing.narrows text halike.paired hρ).1⟩,
    fun _ hρ => ⟨(pairing.narrows text halike.paired hρ).1,
      .ok (pairing.narrows text halike.paired hρ).2⟩⟩

/-- What is read off sessions that are alike, given names that read the same. -/
theorem read (halike : session.Alike pairing session') {view : Session → α} {view' : Session → α'}
    (hview : ∀ ρ, pairing.fits session.names session'.names ρ →
      post ρ (view session) (view' session')) :
    Agree pairing session session' post (Asking.read view) (Asking.read view') :=
  .some ⟨halike, fun ρ hρ => ⟨hρ, .ok (hview ρ hρ)⟩⟩

/-- A question that looks at the session. -/
theorem get_bind {next : Session → Asking β} {next' : Session → Asking β'}
    (hnext : Agree pairing session session' post' (next session) (next' session')) :
    Agree pairing session session' post' (get >>= next) (get >>= next') := hnext

theorem scopeOf (halike : session.Alike pairing session') (id : NodeId) :
    Agree pairing session session' Same (Asking.scopeOf id) (Asking.scopeOf id) := by
  obtain ⟨ρ, hρ, -⟩ := pairing.spells halike.paired
  have hcontains := (halike.relabeled ρ hρ).1.tree.contains id
  refine .get_bind ?_
  rw [hcontains]
  cases session.program.tree.contains id with
  | true =>
    have hwork : Agree pairing session session' Same
        (Asking.work fun program => program.scopeOf id)
        (Asking.work fun program => program.scopeOf id) :=
      .work_same halike fun _ hrelabeled => Program.scopeOf_relabels hrelabeled id
    exact hwork
  | false => exact .refuse halike (.unknownNode id) _ _

theorem scope (halike : session.Alike pairing session') (ref : ScopeRef) :
    Agree pairing session session' Same (Asking.scope ref) (Asking.scope ref) := by
  cases ref with
  | root => exact .work_same halike fun _ hrelabeled => Program.rootScope_relabels hrelabeled
  | node id => exact .scopeOf halike id
  | handle id =>
    obtain ⟨ρ, hρ, -⟩ := pairing.spells halike.paired
    refine .get_bind ?_
    rw [(halike.relabeled ρ hρ).2, ρ.scope?_context, Option.isNone_map]
    cases (session.context.scope? id).isNone with
    | true => exact .refuse halike .staleScope _ _
    | false => exact .pure halike fun _ _ => rfl

theorem scope? (halike : session.Alike pairing session') (ref? : Option ScopeRef) :
    Agree pairing session session' Same (Asking.scope? ref?) (Asking.scope? ref?) := by
  cases ref? with
  | none => exact .pure halike fun _ _ => rfl
  | some ref => exact (Agree.scope halike ref).map fun _ _ _ hid => congrArg some hid

theorem scopes (halike : session.Alike pairing session') (refs : List ScopeRef) :
    Agree pairing session session' Same (Asking.scopes refs) (Asking.scopes refs) := by
  induction refs generalizing session session' with
  | nil => exact .pure halike fun _ _ => rfl
  | cons ref rest ih =>
    exact (Agree.scope halike ref).bind_same fun id _ _ hlater _ =>
      (ih hlater).bind_same fun ids _ _ hlast _ => .pure hlast fun _ _ => rfl

/-- What becomes of the sets that a lookup finds, with the scopes that it has entered. -/
abbrev found (ρ : Relabeling) : List Overloads × List ScopeId → List Overloads × List ScopeId :=
  Prod.map ρ.sets id

theorem lookup (halike : session.Alike pairing session') (call : LookupCall)
    (entered : List ScopeId) :
    Agree pairing session session' (Image found) (Asking.lookup call entered)
      (Asking.lookup call entered) := by
  refine (Agree.scope halike call.scope).bind_same fun id _ _ halike _ => ?_
  refine (Agree.scope? halike call.receiver).bind_same fun receiver _ _ halike _ => ?_
  refine (Agree.intern halike call.name).bind fun name name' _ _ halike hname => ?_
  refine .work halike fun ρ hρ hrelabeled => ?_
  rw [(hname ρ hρ).2]
  exact Program.lookupSharing_relabels hrelabeled call.config receiver id name entered

theorem lookups (halike : session.Alike pairing session') (calls : List LookupCall)
    (entered : List ScopeId) :
    Agree pairing session session'
      (Image fun ρ => Prod.map (List.map ρ.sets) id) (Asking.lookups calls entered)
      (Asking.lookups calls entered) := by
  induction calls generalizing session session' entered with
  | nil => exact .pure halike fun _ _ => rfl
  | cons call rest ih =>
    refine (Agree.lookup halike call entered).bind fun first first' _ _ halike hfirst => ?_
    obtain ⟨ρ, hρ, -⟩ := pairing.spells halike.paired
    have hentered : first'.2 = first.2 := by rw [(hfirst ρ hρ).2]; rfl
    dsimp only
    rw [hentered]
    refine (ih halike first.2).bind fun others others' _ _ halike hothers => ?_
    refine .pure halike fun ρ hρ => ?_
    obtain ⟨hfits, hothers⟩ := hothers ρ hρ
    rw [(hfirst ρ hfits).2, hothers]
    rfl

end Agree

end Asking

end Scoping
