import Scoping.Proofs.Keeping
import Scoping.Proofs.Relabeling.Session

/-!
What queries do to a session, in terms of what questions do to a context and of the texts that
are interned. Whatever both keep to, every query keeps to, answered or refused, unless it
starts over.
-/

namespace Scoping

/-- The texts of a configuration, in the order in which they are interned. -/
def Config.texts (config : Config) : List String :=
  config.builtins ++ [config.autoModule, config.tupleRecord]

namespace Query

/-- The texts that answering a query may intern. -/
def texts : Query → List String
  | .toplevel text | .intern text => [text]
  | .gather _ excluded => excluded.toList
  | .reconfigure other => other.texts
  | .declares _ text | .membership _ text _ | .innermost _ text => [text]
  | .lookup call => [call.name]
  | .lookups _ calls => calls.map LookupCall.name
  | _ => []

/-- Whether a query drops all that was worked out. -/
def startsOver : Query → Bool
  | .invalidate | .reconfigure _ => true
  | _ => false

end Query

namespace Asking

variable {α β : Type} {changes : Session → Session → Prop}

/-- Whatever the action does to any session, refused or not, the session stays in the
relation. -/
def Keeps (changes : Session → Session → Prop) (action : Asking α) : Prop :=
  ∀ session outcome later,
    (ExceptT.run action).run session = some (outcome, later) → changes session later

namespace Keeps

theorem get_bind {next : Session → Asking β} (hnext : ∀ session, Keeps changes (next session)) :
    Keeps changes (get >>= next) :=
  fun session => hnext session session

variable [IsPreorder Session changes]

theorem pure (value : α) : Keeps changes (Pure.pure value : Asking α) := by
  rintro session _ _ ⟨⟩
  exact refl_of changes session

theorem refuse (refusal : Refusal) : Keeps changes (throw refusal : Asking α) := by
  rintro session _ _ ⟨⟩
  exact refl_of changes session

theorem bind {first : Asking α} {next : α → Asking β} (hfirst : Keeps changes first)
    (hnext : ∀ value, Keeps changes (next value)) : Keeps changes (first >>= next) := by
  intro session outcome later hrun
  rw [run_bind] at hrun
  obtain ⟨⟨result, middle⟩, hresult, hrest⟩ := Option.bind_eq_some_iff.mp hrun
  have hmiddle := hfirst session result middle hresult
  cases result with
  | error refusal =>
    cases hrest
    exact hmiddle
  | ok value => exact trans_of changes hmiddle (hnext value middle outcome later hrest)

theorem map {action : Asking α} {f : α → β} (haction : Keeps changes action) :
    Keeps changes (f <$> action) := by
  rw [map_eq_pure_bind]
  exact haction.bind fun _ => .pure _

theorem read (view : Session → α) : Keeps changes (Asking.read view) := .get_bind fun _ => .pure _

end Keeps

/-- What has to be shown of a relation between sessions that queries about some texts keep to,
in terms of a relation between contexts. -/
structure Admits (texts : List String) (within : Context → Context → Prop)
    (changes : Session → Session → Prop) : Prop where
  program : ∀ program : Program, program.Admits within
  context : ∀ (session : Session) (context : Context), within session.context context →
    changes session { session with context }
  names : ∀ (session : Session), ∀ text ∈ texts,
    changes session { session with names := (session.names.intern text).2 }

namespace Admits

variable {texts : List String} {within : Context → Context → Prop}
variable (hadmits : Admits texts within changes)
include hadmits

theorem work {action : Program → Resolve α}
    (haction : ∀ program, Resolve.Keeps within (action program)) :
    Keeps changes (Asking.work action) := by
  intro session outcome later hrun
  obtain ⟨⟨value, context⟩, hvalue, heq⟩ := Option.map_eq_some_iff.mp hrun
  cases heq
  have hwithin := haction session.program session.context value context hvalue
  exact hadmits.context session context hwithin

theorem intern {text : String} (htext : text ∈ texts) : Keeps changes (Asking.intern text) := by
  rintro session _ _ ⟨⟩
  exact hadmits.names session text htext

variable [IsPreorder Session changes]

theorem scopeOf (id : NodeId) : Keeps changes (Asking.scopeOf id) := by
  have hwork := hadmits.work fun program => (hadmits.program program).scopeOf id
  refine .get_bind fun session => ?_
  split
  · exact hwork
  · exact .bind (.refuse _) fun _ => hwork

theorem scope (ref : ScopeRef) : Keeps changes (Asking.scope ref) := by
  cases ref with
  | root => exact hadmits.work fun program => (hadmits.program program).rootScope
  | node id => exact hadmits.scopeOf id
  | handle id =>
    refine .get_bind fun session => ?_
    split
    · exact .bind (.refuse _) fun _ => .pure _
    · exact .pure id

theorem scope? (ref? : Option ScopeRef) : Keeps changes (Asking.scope? ref?) := by
  cases ref? with
  | none => exact .pure _
  | some ref => exact .map (hadmits.scope ref)

theorem scopes (refs : List ScopeRef) : Keeps changes (Asking.scopes refs) := by
  induction refs with
  | nil => exact .pure _
  | cons ref rest ih => exact .bind (hadmits.scope ref) fun _ => .bind ih fun _ => .pure _

variable [IsPreorder Context within]

theorem lookup {call : LookupCall} (hcall : call.name ∈ texts) (entered : List ScopeId) :
    Keeps changes (Asking.lookup call entered) := by
  refine .bind (hadmits.scope call.scope) fun id => ?_
  refine .bind (hadmits.scope? call.receiver) fun receiver => ?_
  refine .bind (hadmits.intern hcall) fun name => hadmits.work fun program => ?_
  exact (hadmits.program program).lookupSharing call.config receiver id name entered

theorem lookups {calls : List LookupCall} (hcalls : ∀ call ∈ calls, call.name ∈ texts)
    (entered : List ScopeId) : Keeps changes (Asking.lookups calls entered) := by
  induction calls generalizing entered with
  | nil => exact .pure _
  | cons call rest ih =>
    obtain ⟨hcall, hrest⟩ := List.forall_mem_cons.mp hcalls
    refine .bind (hadmits.lookup hcall entered) fun first => ?_
    exact .bind (ih hrest first.2) fun others => .pure _

end Admits

variable {within : Context → Context → Prop}
variable [IsPreorder Session changes] [IsPreorder Context within]

/-- A query that does not start over does no more than intern its texts and work something
out. -/
theorem Admits.answer {query : Query} (hadmits : Admits query.texts within changes)
    (hquery : query.startsOver = false) : Keeps changes (Asking.answer query) := by
  cases query with
  | nodes | node | isInternal | treeSize | internedCount | config | scopeCount | poi
  | diagnostics | diagnosticsAt | errors => exact .read _
  | toplevel text => exact .bind (hadmits.intern (List.mem_singleton_self text)) fun _ => .read _
  | intern text => exact .map (hadmits.intern (List.mem_singleton_self text))
  | gather id excluded =>
    cases excluded with
    | none => exact .bind (.pure _) fun _ => .read _
    | some text =>
      exact .bind (.map (hadmits.intern (List.mem_singleton_self text))) fun _ => .read _
  | reconfigure | invalidate => cases hquery
  | rootScope => exact .map (hadmits.scope .root)
  | scopeOf id => exact .map (hadmits.scopeOf id)
  | moduleOf ref => exact .bind (hadmits.scope ref) fun _ => .read _
  | scope ref =>
    cases ref with
    | handle id => exact .read _
    | root => exact .bind (hadmits.scope _) fun _ => .read _
    | node id => exact .bind (hadmits.scope _) fun _ => .read _
  | declares ref text =>
    refine .bind (hadmits.scope ref) fun _ => ?_
    exact .bind (hadmits.intern (List.mem_singleton_self text)) fun _ => .read _
  | lookup call =>
    refine .bind (hadmits.lookup (List.mem_singleton_self call.name) []) fun _ => ?_
    exact .bind (.read _) fun _ => .pure _
  | membership ref text id =>
    exact .bind (hadmits.lookup (List.mem_singleton_self text) []) fun _ => .read _
  | lookups entered calls =>
    refine .bind (hadmits.scopes entered) fun _ => ?_
    exact .bind (hadmits.lookups (fun _ => List.mem_map_of_mem) _) fun _ => .read _
  | innermost ref text =>
    refine .bind (hadmits.scope ref) fun id => ?_
    refine .bind (hadmits.intern (List.mem_singleton_self text)) fun name => ?_
    exact .bind (hadmits.work fun program => (hadmits.program program).innermost id name)
      fun _ => .read _
  | seesWhole goal start =>
    refine .bind (hadmits.scope goal) fun goal => .bind (hadmits.scope start) fun start => ?_
    exact .map (hadmits.work fun program => (hadmits.program program).seesWhole goal start)
  | visibility ref =>
    refine .bind (hadmits.scope ref) fun id => ?_
    exact .bind (hadmits.work fun program => (hadmits.program program).visibility id)
      fun _ => .read _
  | instantiation ref outer =>
    refine .bind (hadmits.scope ref) fun id => ?_
    have hwork := hadmits.work fun program => (hadmits.program program).instantiationPoint id outer
    cases outer with
    | none => exact .map hwork
    | some link =>
      refine .get_bind fun session => ?_
      split
      · exact .bind (.refuse _) fun _ => .map hwork
      · exact .map hwork

/-- What answering a query keeps to, asking it does. -/
theorem Admits.ask {query : Query} (hadmits : Admits query.texts within changes)
    (hquery : query.startsOver = false) {session later : Session} {reply : Reply}
    (hask : session.ask query = some (reply, later)) : changes session later := by
  obtain ⟨⟨outcome, middle⟩, hrun, heq⟩ := Option.bind_eq_some_iff.mp hask
  cases heq
  exact hadmits.answer hquery session outcome _ hrun

end Asking

theorem Context.invalidate_eq_empty (context : Context) : context.invalidate = .empty := rfl

namespace Session

theorem ask_invalidate (session : Session) :
    session.ask .invalidate = some (⟨.done, 0, 0⟩, { session with context := .empty }) := by
  rw [← session.context.invalidate_eq_empty]
  rfl

theorem ask_reconfigure (session : Session) (config : Config) :
    session.ask (.reconfigure config) =
      some (⟨.done, 0, 0⟩, start session.program.tree config session.names) := rfl

/-- Queries are asked one after another. -/
theorem exists_of_askAll_cons {session last : Session} {query : Query} {rest : List Query}
    {replies : List Reply} (hasked : session.askAll (query :: rest) = some (replies, last)) :
    ∃ reply middle others, session.ask query = some (reply, middle) ∧
      middle.askAll rest = some (others, last) := by
  obtain ⟨⟨reply, middle⟩, hask, hasked⟩ := Option.bind_eq_some_iff.mp hasked
  obtain ⟨⟨others, last⟩, hrest, heq⟩ := Option.bind_eq_some_iff.mp hasked
  cases heq
  exact ⟨reply, middle, others, hask, hrest⟩

/-- A query that starts over leaves nothing of what was worked out. -/
theorem context_of_startsOver {session later : Session} {query : Query} {reply : Reply}
    (hquery : query.startsOver = true) (hask : session.ask query = some (reply, later)) :
    later.context = .empty := by
  cases query with
  | invalidate =>
    rw [ask_invalidate] at hask
    cases hask
    rfl
  | reconfigure config =>
    rw [ask_reconfigure] at hask
    cases hask
    rfl
  | _ => cases hquery

end Session

end Scoping
