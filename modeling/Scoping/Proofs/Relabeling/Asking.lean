import Scoping.Proofs.Relabeling.Session

/-!
Queries under a relabeling. Two sessions that are alike answer each query alike, whatever
was asked before: handles, flags, counts and problems are equal, and so are the reports,
in which names are spelled out.
-/

namespace Scoping

variable {α : Type} {pairing : Pairing}

/-- Whether an answer is a name, as the interner numbers it. -/
def Answer.isName : Answer → Bool
  | .name _ => true
  | _ => false

/-- Whether two answers to one query are the same up to a relabeling: what a name itself is,
how many texts are interned and the label of a built-in type may differ, and everything
else is shown alike. -/
inductive Answer.Alike (pairing : Pairing) (ρ : Relabeling) : Query → Answer → Answer → Prop
  | name (text : String) (name : Name) : Alike pairing ρ (.intern text) (.name name)
    (.name (ρ.name name))
  | size {names names' : Interner} (hpairs : pairing.pairs names names') :
    Alike pairing ρ .internedCount (.count names.size) (.count names'.size)
  | innermost (ref : ScopeRef) (text : String) (names : Interner) (result : InnermostMatch) :
    Alike pairing ρ (.innermost ref text) (.innermost (names.reportInnermost result))
      (.innermost { names.reportInnermost result with
        label := (ρ.innermost result).decl?.map Decl.label })
  | shown (query : Query) {answer : Answer} (hspelled : answer.isName = false) :
    Alike pairing ρ query answer (ρ.shown Answer.withoutAccess answer)

/-- Answers in which no access keyword shows are equal. -/
theorem Answer.Alike.plain {ρ : Relabeling} (query : Query) {answer : Answer}
    (hplain : answer.withoutAccess = answer) (hspelled : answer.isName = false) :
    Answer.Alike pairing ρ query answer answer := by
  have hshown : ρ.shown withoutAccess answer = answer := by
    rw [Relabeling.shown, hplain, ite_self]
  have hsame : Answer.Alike pairing ρ query answer (ρ.shown withoutAccess answer) :=
    .shown query hspelled
  rwa [hshown] at hsame

theorem Tree.Relabeled.reportId {ρ : Relabeling} {tree tree' : Tree}
    (hrelabeled : tree.Relabeled ρ tree') {names names' : Interner}
    (hspells : ρ.Spells names names') (id : NodeId) :
    names'.reportId tree' id = ρ.shown IdReport.withoutAccess (names.reportId tree id) := by
  have hnode : (tree'.node? id).map names'.reportNode =
      ((tree.node? id).map names.reportNode).map (ρ.shown NodeReport.withoutAccess) := by
    rw [hrelabeled.node?, Option.map_map, Option.map_map]
    exact congrArg (Option.map · (tree.node? id)) (funext hspells.reportNode)
  have hname : ∀ name : Option Name,
      (name.map ρ.name).map names'.display = name.map names.display := by
    intro name
    rw [Option.map_map]
    exact congrArg (Option.map · name) (funext hspells)
  unfold Interner.reportId
  rw [hnode, hrelabeled.contains, hrelabeled.parent?, hrelabeled.tag?, hrelabeled.children,
    hrelabeled.identifier?, hrelabeled.body?, hrelabeled.declName?, hname, hname]
  unfold Relabeling.shown IdReport.withoutAccess
  cases hconceals : ρ.conceals with
  | true => rfl
  | false => simp [Function.comp_def]

namespace Asking.Agree

variable {session session' : Session} (halike : session.Alike pairing session')

theorem plain (query : Query) {action action' : Asking α} {build : α → Answer}
    (hplain : ∀ value, (build value).withoutAccess = build value)
    (hspelled : ∀ value, (build value).isName = false)
    (haction : Agree pairing session session' Same action action') :
    Agree pairing session session' (Answer.Alike pairing · query) (build <$> action)
      (build <$> action') :=
  haction.map fun _ value _ hvalue => by
    rw [hvalue]
    exact .plain query (hplain value) (hspelled value)

include halike

/-- What is read off alike sessions with a relabeling under which names read the same. -/
theorem read_shown (query : Query) {view view' : Session → Answer}
    (hspelled : (view session).isName = false)
    (hview : ∀ ρ, pairing.fits session.names session'.names ρ →
      ρ.Spells session.names session'.names → session.program.Relabeled ρ session'.program →
      session'.context = ρ.context session.context →
      view' session' = ρ.shown Answer.withoutAccess (view session)) :
    Agree pairing session session' (Answer.Alike pairing · query) (Asking.read view)
      (Asking.read view') := by
  obtain ⟨ρ, hρ, hspells⟩ := pairing.spells halike.paired
  obtain ⟨hrelabeled, hcontext⟩ := halike.relabeled ρ hρ
  refine .read halike fun ρ' hρ' => ?_
  have hconceals : ρ.conceals = ρ'.conceals :=
    (pairing.concealed hρ).trans (pairing.concealed hρ').symm
  have hshown := hview ρ hρ hspells hrelabeled hcontext
  rw [Relabeling.shown, hconceals] at hshown
  rw [hshown]
  exact .shown query hspelled

/-- The special case of answers in which no access keyword shows. -/
theorem read_plain (query : Query) {view view' : Session → Answer}
    (hplain : (view session).withoutAccess = view session)
    (hspelled : (view session).isName = false)
    (hview : ∀ ρ, pairing.fits session.names session'.names ρ →
      ρ.Spells session.names session'.names → session.program.Relabeled ρ session'.program →
      session'.context = ρ.context session.context → view' session' = view session) :
    Agree pairing session session' (Answer.Alike pairing · query) (Asking.read view)
      (Asking.read view') := by
  refine .read_shown halike query hspelled fun ρ hρ hspells hrelabeled hcontext => ?_
  rw [hview ρ hρ hspells hrelabeled hcontext, Relabeling.shown, hplain, ite_self]

/-- What is read off the context and shows no name is equal. -/
theorem read_context (query : Query) (view : Context → Answer)
    (hplain : (view session.context).withoutAccess = view session.context)
    (hspelled : (view session.context).isName = false)
    (hview : ∀ (ρ : Relabeling) context, view (ρ.context context) = view context) :
    Agree pairing session session' (Answer.Alike pairing · query)
      (Asking.read fun session => view session.context)
      (Asking.read fun session => view session.context) :=
  .read_plain halike query hplain hspelled fun ρ _ _ _ hcontext => by rw [hcontext, hview]

end Asking.Agree

namespace Asking

/-- Whether a query has answers in two sessions that are alike. -/
abbrev Answers (pairing : Pairing) (session session' : Session) (query : Query) : Prop :=
  Agree pairing session session' (Answer.Alike pairing · query) (Asking.answer query)
    (Asking.answer query)

namespace Answers

variable {session session' : Session} (halike : session.Alike pairing session')
include halike

theorem nodes : Answers pairing session session' .nodes := by
  refine .read_shown halike _ rfl fun ρ _ hspells hrelabeled _ => ?_
  rw [hrelabeled.tree.nodes, Array.toList_map, ρ.list_map_shown hspells.reportNode]
  exact ρ.map_shown Answer.nodes (fun _ => rfl) _

theorem node (id : NodeId) : Answers pairing session session' (.node id) := by
  refine .read_shown halike _ rfl fun ρ _ hspells hrelabeled _ => ?_
  rw [hrelabeled.tree.reportId hspells]
  exact ρ.map_shown Answer.node (fun _ => rfl) _

theorem toplevel (text : String) : Answers pairing session session' (.toplevel text) := by
  refine (Agree.intern halike text).bind fun name name' _ _ halike hname => ?_
  refine .read_plain halike _ rfl rfl fun ρ hρ _ hrelabeled _ => ?_
  rw [(hname ρ hρ).2, hrelabeled.tree.toplevel?]

theorem treeSize : Answers pairing session session' .treeSize := by
  refine .read_plain halike _ rfl rfl fun ρ hρ _ hrelabeled _ => ?_
  have hcount : session'.program.tree.toplevelCount = session.program.tree.toplevelCount := by
    simp [Tree.toplevelCount, hrelabeled.tree.roots, Assoc.bimap, Assoc.size]
  simp only [Tree.isEmpty, hrelabeled.tree.size, hcount]

theorem gather (id : NodeId) (excluded : Option String) :
    Answers pairing session session' (.gather id excluded) := by
  have hread : ∀ {later later' : Session} {name? name?' : Option Name},
      later.Alike pairing later' →
      (∀ ρ, pairing.fits later.names later'.names ρ → name?' = name?.map ρ.name) →
      Agree pairing later later' (Answer.Alike pairing · (.gather id excluded))
        (Asking.read fun session =>
          .gathered (session.names.reportGathered (session.program.tree.gather id name?)))
        (Asking.read fun session =>
          .gathered (session.names.reportGathered (session.program.tree.gather id name?'))) := by
    intro later later' name? name?' halike hname
    refine .read_plain halike _ rfl rfl fun ρ hρ hspells hrelabeled _ => ?_
    rw [hname ρ hρ, hrelabeled.tree.gather, hspells.reportGathered]
  cases excluded with
  | none => exact hread halike fun _ _ => rfl
  | some text =>
    exact (Agree.intern halike text).bind fun name name' _ _ halike hname =>
      hread halike fun ρ hρ => congrArg some (hname ρ hρ).2

theorem reconfigure (config : Config) :
    Answers pairing session session' (.reconfigure config) := by
  obtain ⟨hstart, hnarrows⟩ := Session.Alike.start halike.paired
    (fun ρ hρ => (halike.relabeled ρ hρ).1.tree) config
  exact .some ⟨hstart, fun ρ hρ => ⟨hnarrows ρ hρ, .ok (.plain _ rfl rfl)⟩⟩

theorem invalidate : Answers pairing session session' .invalidate := by
  refine .some ⟨⟨halike.paired, halike.config, fun ρ hρ => ?_⟩,
    fun ρ hρ => ⟨hρ, .ok (.plain _ rfl rfl)⟩⟩
  exact ⟨(halike.relabeled ρ hρ).1, ρ.context_empty.symm⟩

theorem scope (ref : ScopeRef) : Answers pairing session session' (.scope ref) := by
  have hread : ∀ id {later later' : Session}, later.Alike pairing later' →
      Agree pairing later later' (Answer.Alike pairing · (.scope ref))
        (Asking.read fun session =>
          .scopeReport? ((session.context.scope? id).map (session.names.reportScope id)))
        (Asking.read fun session =>
          .scopeReport? ((session.context.scope? id).map (session.names.reportScope id))) := by
    intro id later later' halike
    refine .read_plain halike _ rfl rfl fun ρ _ hspells _ hcontext => ?_
    rw [hcontext, ρ.scope?_context, Option.map_map]
    exact congrArg (fun report => Answer.scopeReport? (Option.map report _))
      (funext (hspells.reportScope id))
  cases ref with
  | handle id => exact hread id halike
  | root => exact (Agree.scope halike .root).bind_same fun id _ _ halike _ => hread id halike
  | node id =>
    exact (Agree.scope halike (.node id)).bind_same fun id _ _ halike _ => hread id halike

theorem declares (ref : ScopeRef) (text : String) :
    Answers pairing session session' (.declares ref text) := by
  refine (Agree.scope halike ref).bind_same fun id _ _ halike _ => ?_
  refine (Agree.intern halike text).bind fun name name' _ _ halike hname => ?_
  refine .read_plain halike _ rfl rfl fun ρ hρ hspells _ hcontext => ?_
  rw [(hname ρ hρ).2, hcontext, ρ.scope_context, ρ.lookup_scope, ρ.declares_scope]
  dsimp only
  rw [hspells.reportSets, List.isEmpty_map]

theorem lookup (call : LookupCall) : Answers pairing session session' (.lookup call) := by
  refine (Agree.lookup halike call []).bind fun found found' _ _ halike hfound => ?_
  refine .read_plain halike _ rfl rfl fun ρ hρ hspells _ _ => ?_
  rw [(hfound ρ hρ).2]
  exact congrArg Answer.sets (hspells.reportSets found.1)

theorem membership (ref : ScopeRef) (text : String) (id : NodeId) :
    Answers pairing session session' (.membership ref text id) := by
  refine (Agree.lookup halike _ []).bind fun found found' _ _ halike hfound => ?_
  refine .read_plain halike _ rfl rfl fun ρ hρ hspells _ hcontext => ?_
  rw [(hfound ρ hρ).2]
  refine congrArg Answer.membership ?_
  show (ρ.sets found.1).map _ = _
  rw [List.map_map]
  exact List.map_congr_left fun set _ => hspells.reportMembership id set

theorem lookups (entered : List ScopeRef) (calls : List LookupCall) :
    Answers pairing session session' (.lookups entered calls) := by
  refine (Agree.scopes halike entered).bind_same fun entered _ _ halike _ => ?_
  refine (Agree.lookups halike calls entered).bind fun found found' _ _ halike hfound => ?_
  refine .read_plain halike _ rfl rfl fun ρ hρ hspells _ hcontext => ?_
  rw [(hfound ρ hρ).2, hcontext, ρ.scopeCount_context]
  refine congrArg (Answer.lookups · _) ?_
  show (found.1.map ρ.sets).map _ = _
  rw [List.map_map]
  exact List.map_congr_left fun sets _ => hspells.reportSets sets

theorem innermost (ref : ScopeRef) (text : String) :
    Answers pairing session session' (.innermost ref text) := by
  refine (Agree.scope halike ref).bind_same fun id _ _ halike _ => ?_
  refine (Agree.intern halike text).bind fun name name' middle middle' halike hname => ?_
  have hwork : Agree pairing middle middle' (Image Relabeling.innermost)
      (Asking.work fun program => program.innermost id name)
      (Asking.work fun program => program.innermost id name') := by
    refine .work halike fun ρ hρ hrelabeled => ?_
    rw [(hname ρ hρ).2]
    exact Program.innermost_relabels hrelabeled id name
  refine hwork.bind fun result result' later later' halike hresult => ?_
  obtain ⟨ρ, hρ, hspells⟩ := pairing.spells halike.paired
  refine .read halike fun ρ' hρ' => ?_
  have hsame : ρ.innermost result = ρ'.innermost result :=
    (hresult ρ hρ).2.symm.trans (hresult ρ' hρ').2
  rw [(hresult ρ hρ).2, hspells.reportInnermost, hsame]
  exact .innermost ref text later.names result

theorem seesWhole (goal start : ScopeRef) :
    Answers pairing session session' (.seesWhole goal start) := by
  refine (Agree.scope halike goal).bind_same fun goal _ _ halike _ => ?_
  refine (Agree.scope halike start).bind_same fun start _ _ halike _ => ?_
  exact .plain _ (fun _ => rfl) (fun _ => rfl) (.work_same halike fun ρ hrelabeled =>
    Program.seesWhole_relabels hrelabeled goal start)

theorem visibility (ref : ScopeRef) : Answers pairing session session' (.visibility ref) := by
  refine (Agree.scope halike ref).bind_same fun id middle middle' halike _ => ?_
  have hwork : Agree pairing middle middle' (Image Program.clausesImage)
      (Asking.work fun program => program.visibility id)
      (Asking.work fun program => program.visibility id) :=
    .work halike fun ρ _ hrelabeled => Program.visibility_relabels hrelabeled id
  refine hwork.bind fun clauses? clauses?' _ _ halike hclauses => ?_
  refine .read_shown halike _ rfl fun ρ hρ hspells _ _ => ?_
  rw [(hclauses ρ hρ).2]
  cases clauses? with
  | none => exact (ite_self _).symm
  | some clauses =>
    show Answer.visibility id (some ((clauses.map ρ.clause).map _)) = _
    rw [ρ.list_map_shown hspells.reportClause]
    exact ρ.map_shown (fun reports => Answer.visibility id (some reports)) (fun _ => rfl) _

theorem instantiation (ref : ScopeRef) (outer : Option PoiId) :
    Answers pairing session session' (.instantiation ref outer) := by
  refine (Agree.scope halike ref).bind_same fun id middle middle' halike _ => ?_
  have hwork : Agree pairing middle middle' (Answer.Alike pairing · (.instantiation ref outer))
      (Answer.poi <$> Asking.work fun program => program.instantiationPoint id outer)
      (Answer.poi <$> Asking.work fun program => program.instantiationPoint id outer) :=
    .plain _ (fun _ => rfl) (fun _ => rfl) (.work_same halike fun ρ hrelabeled =>
      Program.instantiationPoint_relabels hrelabeled id outer)
  cases outer with
  | none => exact hwork
  | some link =>
    obtain ⟨ρ, hρ, -⟩ := pairing.spells halike.paired
    have hpoi : middle'.context.poi? link = middle.context.poi? link := by
      rw [(halike.relabeled ρ hρ).2]
      rfl
    refine .get_bind ?_
    rw [hpoi]
    cases (middle.context.poi? link).isNone with
    | true => exact .refuse halike .stalePoi _ _
    | false => exact hwork

end Answers

/-- Every query has answers that are alike. -/
theorem answers {session session' : Session} (halike : session.Alike pairing session')
    (query : Query) : Answers pairing session session' query := by
  cases query with
  | nodes => exact .nodes halike
  | node id => exact .node halike id
  | isInternal id =>
    exact .read_plain halike _ rfl rfl fun _ _ _ hrelabeled _ =>
      congrArg Answer.flag (hrelabeled.tree.isInInternalModule id)
  | toplevel text => exact .toplevel halike text
  | treeSize => exact .treeSize halike
  | intern text =>
    exact (Agree.intern halike text).map fun ρ name name' hname => hname ▸ .name text name
  | internedCount => exact .read halike fun _ _ => .size halike.paired
  | gather id excluded => exact .gather halike id excluded
  | reconfigure config => exact .reconfigure halike config
  | config =>
    exact .read_plain halike _ rfl rfl fun _ _ _ _ _ => congrArg Answer.config halike.config
  | invalidate => exact .invalidate halike
  | scopeCount =>
    exact .read_context halike _ (fun context => .count context.scopeCount) rfl rfl
      fun ρ context => congrArg Answer.count (ρ.scopeCount_context context)
  | rootScope => exact .plain _ (fun _ => rfl) (fun _ => rfl) (.scope halike .root)
  | scopeOf id => exact .plain _ (fun _ => rfl) (fun _ => rfl) (.scopeOf halike id)
  | moduleOf ref =>
    exact (Agree.scope halike ref).bind_same fun id _ _ halike _ =>
      .read_context halike _ (fun context => .scope? (context.moduleOf? id)) rfl rfl
        fun ρ context => congrArg Answer.scope? (ρ.moduleOf?_context context id)
  | scope ref => exact .scope halike ref
  | declares ref text => exact .declares halike ref text
  | lookup call => exact .lookup halike call
  | membership ref text id => exact .membership halike ref text id
  | lookups entered calls => exact .lookups halike entered calls
  | innermost ref text => exact .innermost halike ref text
  | seesWhole goal start => exact .seesWhole halike goal start
  | visibility ref => exact .visibility halike ref
  | instantiation ref outer => exact .instantiation halike ref outer
  | poi id =>
    exact .read_context halike _ (fun context => .poiScope? (context.poi? id)) rfl rfl
      fun _ _ => rfl
  | diagnostics =>
    exact .read_context halike _ (fun context => .diagnostics context.diagnostics.reported) rfl rfl
      fun _ _ => rfl
  | diagnosticsAt id =>
    exact .read_context halike _ (fun context => .diagnostics (context.diagnostics.atNode id)) rfl
      rfl fun _ _ => rfl
  | errors =>
    exact .read_context halike _ (fun context =>
      .errors context.diagnostics.errorCount context.diagnostics.hasErrors) rfl rfl fun _ _ => rfl

end Asking

/-- Whether two replies to one query are the same up to a relabeling. -/
structure Reply.Alike (pairing : Pairing) (ρ : Relabeling) (query : Query) (reply reply' : Reply) :
    Prop where
  answer : Answer.Alike pairing ρ query reply.answer reply'.answer
  scopeCount : reply'.scopeCount = reply.scopeCount
  diagnosticCount : reply'.diagnosticCount = reply.diagnosticCount

/-- Whether the replies in two sessions are, one by one. -/
inductive Reply.AllAlike (pairing : Pairing) (ρ : Relabeling) :
    List Query → List Reply → List Reply → Prop
  | nil : AllAlike pairing ρ [] [] []
  | cons {query : Query} {reply reply' : Reply} {queries : List Query}
    {replies replies' : List Reply} (hreply : reply.Alike pairing ρ query reply')
    (hrest : AllAlike pairing ρ queries replies replies') :
    AllAlike pairing ρ (query :: queries) (reply :: replies) (reply' :: replies')

namespace Session

variable {session session' : Session}

/-- Sessions that are alike give replies that are, and stay alike. -/
theorem ask_alike (halike : session.Alike pairing session') (query : Query) :
    Option.Rel (After pairing session session' (Reply.Alike pairing · query)) (session.ask query)
      (session'.ask query) := by
  have hanswer := Asking.answers halike query
  unfold Asking.Answers Asking.Agree at hanswer
  show Option.Rel _ (((ExceptT.run (Asking.answer query)).run session).bind _)
    (((ExceptT.run (Asking.answer query)).run session').bind _)
  generalize (ExceptT.run (Asking.answer query)).run session = left at hanswer ⊢
  generalize (ExceptT.run (Asking.answer query)).run session' = right at hanswer ⊢
  cases hanswer with
  | none => exact .none
  | @some result result' hafter =>
    obtain ⟨outcome, later⟩ := result
    obtain ⟨outcome', later'⟩ := result'
    refine .some ⟨hafter.alike, fun ρ hρ => ?_⟩
    obtain ⟨hfits, hmatches⟩ := hafter.outcomes ρ hρ
    have hcontext := (hafter.alike.relabeled ρ hρ).2
    refine ⟨hfits, ?_, ?_, congrArg (fun context => context.diagnostics.size) hcontext⟩
    · dsimp only at hmatches
      cases hmatches with
      | ok hpost => exact hpost
      | refused refusal => exact .plain query rfl rfl
    · exact (congrArg Context.scopeCount hcontext).trans (ρ.scopeCount_context later.context)

/-- So do sequences of queries. -/
theorem askAll_alike (halike : session.Alike pairing session') (queries : List Query) :
    Option.Rel (After pairing session session' (Reply.AllAlike pairing · queries))
      (session.askAll queries) (session'.askAll queries) := by
  induction queries generalizing session session' with
  | nil => exact .some ⟨halike, fun ρ hρ => ⟨hρ, .nil⟩⟩
  | cons query rest ih =>
    have hask := ask_alike halike query
    show Option.Rel _ ((session.ask query).bind _) ((session'.ask query).bind _)
    generalize session.ask query = left at hask ⊢
    generalize session'.ask query = right at hask ⊢
    cases hask with
    | none => exact .none
    | @some result result' hafter =>
      have hrest := ih hafter.alike
      show Option.Rel _ ((result.2.askAll rest).bind _) ((result'.2.askAll rest).bind _)
      generalize result.2.askAll rest = left at hrest ⊢
      generalize result'.2.askAll rest = right at hrest ⊢
      cases hrest with
      | none => exact .none
      | some hlast =>
        refine .some ⟨hlast.alike, fun ρ hρ => ?_⟩
        obtain ⟨hfits, hreplies⟩ := hlast.outcomes ρ hρ
        exact ⟨(hafter.outcomes ρ hfits).1, .cons (hafter.outcomes ρ hfits).2 hreplies⟩

end Session

end Scoping
