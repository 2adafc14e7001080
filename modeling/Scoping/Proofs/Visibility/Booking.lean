import Scoping.Proofs.Visibility.Entries
import Scoping.Proofs.Visibility.Ledger

/-!
What the resolver reports. A clause that is refused is reported once, at one of a few
nodes, and every other report about a clause leaves its clauses in place, at a node that
has no other report. While a clause is resolved, nothing is reported about any other one
that was asked for before.
-/

namespace Scoping

open Context Resolve

namespace Context

variable {program : Program} {context : Context} {error : Diagnostic} {site : NodeId}

theorem errors_reporting (herror : error.isError = true) :
    (context.reporting error).errors = context.errors ++ [error] := by
  simp [errors, reporting, Diagnostics.add, herror]

theorem errorsWithin_reporting {tree : Tree} (herror : error.isError = true)
    (hwithin : tree.Within site error.node) :
    (context.reporting error).errorsWithin tree site =
      context.errorsWithin tree site ++ [error] := by
  simp [errorsWithin, errors_reporting herror, hwithin]

/-- An error about one clause is not about another. -/
theorem errorsWithin_reporting_of_ne {tree : Tree} (hformed : tree.WellFormed)
    (herror : error.isError = true) (hsite : tree.IsSite site) (hwithin : tree.Within site error.node)
    {other : NodeId} (hother : tree.IsSite other) (hne : other ≠ site) :
    (context.reporting error).errorsWithin tree other = context.errorsWithin tree other := by
  have hoff : ¬ tree.Within other error.node := fun hin =>
    hne (hin.unique hformed hother hsite hwithin)
  simp [errorsWithin, errors_reporting herror, hoff]

/-- The clauses of one scope cannot be worked out and be being worked out. -/
theorem Pending.ne_site (hpending : context.Pending program.tree site)
    (hformed : program.tree.WellFormed) (hgrounded : context.Grounded program) {id : ScopeId}
    {clauses : List Clause} {owner : NodeId} (hclauses : context.visibility.get? id = some clauses)
    (howned : context.OwnedBy id (some owner)) {written : WrittenClause}
    (hmem : written ∈ program.tree.writtenClauses owner) : written.site ≠ site := by
  rintro rfl
  obtain ⟨running, owner', hrunning, howned', hsite⟩ := hpending
  obtain ⟨written', hmem', hsame⟩ := List.mem_map.mp hsite
  obtain rfl := hformed.eq_of_site hmem' hmem hsame
  obtain rfl := hgrounded.eq_of_ownedBy howned' howned
  rw [Memo.get?_eq_some_iff, show context.visibility.progress? running = some .running from hrunning]
    at hclauses
  cases hclauses

end Context

namespace Program

variable {program : Program} {context : Context} {α β : Type}

/-- An error about a clause that is being worked out. -/
theorem sparing_reporting (hformed : program.tree.WellFormed) (hledger : context.Ledger program)
    {site : NodeId} (hpending : context.Pending program.tree site) {error : Diagnostic}
    (herror : error.isError = true) (hwithin : program.tree.Within site error.node) :
    program.Sparing [site] context (context.reporting error) := by
  have hothers : ∀ other, program.tree.IsSite other → other ≠ site →
      (context.reporting error).errorsWithin program.tree other =
        context.errorsWithin program.tree other := fun other =>
    errorsWithin_reporting_of_ne hformed herror hpending.asked.isSite hwithin
  refine ⟨⟨hledger.grounded.congr rfl rfl rfl, hledger.asked, fun other hother => ?_,
    fun id clauses hclauses => ?_⟩, List.prefix_rfl, fun _ _ hprogress => hprogress,
    fun other hasked hne => hothers other hasked.isSite (List.ne_of_not_mem_cons hne)⟩
  · rcases List.mem_append.mp (errors_reporting herror ▸ hother) with hbefore | hnew
    · exact hledger.traced other hbefore
    · obtain rfl := List.mem_singleton.mp hnew
      exact ⟨site, hpending.asked, hwithin⟩
  · obtain ⟨owner, parts, howned, hparts, hflatten⟩ := hledger.settled id clauses hclauses
    refine ⟨owner, parts, howned,
      settles_congr hparts List.prefix_rfl List.prefix_rfl fun written hwritten => ?_, hflatten⟩
    exact hothers _ (Tree.isSite_of_mem hwritten)
      (hpending.ne_site hformed hledger.grounded hclauses howned hwritten)

/-- What a computation ends with and what it has reported about the clause at a site,
while it reports about no other that was asked for before. -/
def Books (program : Program) (site : NodeId) (action : Resolve α)
    (post : α → List Diagnostic → Prop) : Prop :=
  ∀ context, context.Ledger program → context.Pending program.tree site →
    action.Yields context fun value later => program.Sparing [site] context later ∧
      ∃ errors, later.errorsWithin program.tree site =
        context.errorsWithin program.tree site ++ errors ∧ post value errors

namespace Books

variable {site : NodeId} {post : α → List Diagnostic → Prop}

theorem pure {value : α} (hpost : post value []) : program.Books site (Pure.pure value) post :=
  fun _ hledger _ => .pure ⟨.refl hledger, [], (List.append_nil _).symm, hpost⟩

theorem mono {post' : α → List Diagnostic → Prop} {action : Resolve α}
    (hbooks : program.Books site action post)
    (himp : ∀ value errors, post value errors → post' value errors) :
    program.Books site action post' := by
  intro context hledger hpending
  refine (hbooks context hledger hpending).mono ?_
  rintro value later ⟨hsparing, errors, herrors, hpost⟩
  exact ⟨hsparing, errors, herrors, himp value errors hpost⟩

theorem bind {first : Resolve α} {next : α → Resolve β} {post' : β → List Diagnostic → Prop}
    (hfirst : program.Books site first post)
    (hnext : ∀ value errors, post value errors →
      program.Books site (next value) fun result more => post' result (errors ++ more)) :
    program.Books site (first >>= next) post' := by
  intro context hledger hpending
  refine (hfirst context hledger hpending).bind ?_
  rintro value later ⟨hsparing, errors, herrors, hpost⟩
  refine (hnext value errors hpost later hsparing.ledger (hsparing.pending hpending)).mono ?_
  rintro result last ⟨hmore, more, hlast, hpost'⟩
  exact ⟨hsparing.trans hmore, errors ++ more, by rw [hlast, herrors, List.append_assoc], hpost'⟩

/-- A step that reports about other clauses only. -/
theorem of_spares {action : Resolve α} (haction : Keeps program.Spares action) :
    program.Books site action fun _ errors => errors = [] := by
  intro context hledger hpending
  refine (haction context).mono fun value later hspares => ?_
  have hsparing := hspares hledger
  exact ⟨hsparing.widen (List.nil_subset _), [],
    by rw [hsparing.errors site hpending.asked List.not_mem_nil, List.append_nil], rfl⟩

theorem get_bind {next : Context → Resolve β} {post' : β → List Diagnostic → Prop}
    (hnext : ∀ context, program.Books site (next context) post') :
    program.Books site (get >>= next) post' :=
  fun context hledger hpending => .get_bind (hnext context context hledger hpending)

/-- What a computation ends with may be known from elsewhere. -/
theorem and_returns {post' : α → Prop} {action : Resolve α}
    (hbooks : program.Books site action post) (hreturns : action.Returns post') :
    program.Books site action fun value errors => post value errors ∧ post' value := by
  intro context hledger hpending value later hrun
  obtain ⟨hsparing, errors, herrors, hpost⟩ := hbooks context hledger hpending value later hrun
  exact ⟨hsparing, errors, herrors, hpost, hreturns context value later hrun⟩

theorem report (hformed : program.tree.WellFormed) {error : Diagnostic}
    (herror : error.isError = true) (hwithin : program.tree.Within site error.node) :
    program.Books site (Resolve.report error) fun _ errors => errors = [error] := by
  intro context hledger hpending
  exact .modify ⟨sparing_reporting hformed hledger hpending herror hwithin, [error],
    errorsWithin_reporting herror hwithin, rfl⟩

end Books

/-- What a computation ends with, and the nodes that all its reports about the clause at a
site are at, one at each and in this order. -/
abbrev BooksAt (program : Program) (site : NodeId) (action : Resolve α) (places : List NodeId)
    (post : α → Prop) : Prop :=
  program.Books site action fun value errors =>
    post value ∧ (errors.map Diagnostic.node).Sublist places

namespace BooksAt

variable {site : NodeId} {places more : List NodeId}

theorem pure {value : α} {post : α → Prop} (hpost : post value) :
    program.BooksAt site (Pure.pure value) places post :=
  Books.pure ⟨hpost, List.nil_sublist places⟩

theorem bind {first : Resolve α} {next : α → Resolve β} {post : β → Prop}
    (hfirst : program.BooksAt site first places fun _ => True)
    (hnext : ∀ value, program.BooksAt site (next value) more post) :
    program.BooksAt site (first >>= next) (places ++ more) post := by
  refine Books.bind hfirst fun value errors hvalue => ?_
  refine (hnext value).mono fun result others hresult => ⟨hresult.1, ?_⟩
  rw [List.map_append]
  exact hvalue.2.append hresult.2

/-- A step that reports nothing itself. -/
theorem thenReturn {first : Resolve α} {f : α → β} {post : β → Prop}
    (hfirst : program.BooksAt site first places fun _ => True) (hpost : ∀ value, post (f value)) :
    program.BooksAt site (do let value ← first; return f value) places post := by
  rw [← List.append_nil places]
  exact hfirst.bind fun value => .pure (hpost value)

end BooksAt

/-- Whether there is one error, at a node of a kind, where there is no result, and none
where there is one. -/
def Told (place : NodeId → Prop) : Option α → List Diagnostic → Prop
  | some _, errors => errors = []
  | none, errors => ∃ error, errors = [error] ∧ place error.node

theorem Told.mono {place place' : NodeId → Prop} {result? : Option α} {errors : List Diagnostic}
    (htold : Told place result? errors) (himp : ∀ id, place id → place' id) :
    Told place' result? errors := by
  cases result? with
  | some result => exact htold
  | none =>
    obtain ⟨error, herrors, hplace⟩ := htold
    exact ⟨error, herrors, himp _ hplace⟩

variable {site : NodeId} {find : Finder} {stmt : Statement} {scope : ScopeId}

/-- The nodes that an entry of a list names belong to the clause of the list. -/
theorem within_rename {entry symbol renamed : NodeId} (hentry : program.tree.Within site entry)
    (hkind : program.tree.kind? entry = some (.rename symbol renamed)) :
    program.tree.Within site symbol ∧ program.tree.Within site renamed := by
  have hoperands := Tree.operandsOf_eq hkind
  exact ⟨hentry.operand (by simp [hoperands, NodeKind.operands]),
    hentry.operand (by simp [hoperands, NodeKind.operands])⟩

section

variable (hformed : program.tree.WellFormed)
include hformed

/-- A step that is refused. -/
theorem refuse_books {value : α} {post : α → List Diagnostic → Prop} {error : Diagnostic}
    (herror : error.isError = true) (hwithin : program.tree.Within site error.node)
    (hpost : post value [error]) :
    program.Books site (do Resolve.report error; return value) post :=
  (Books.report hformed herror hwithin).bind fun _ _ herrors =>
    .pure (by rw [herrors, List.append_nil]; exact hpost)

theorem report_books {error : Diagnostic} (herror : error.isError = true)
    (hwithin : program.tree.Within site error.node) :
    program.BooksAt site (Resolve.report error) [error.node] fun _ => True := by
  refine (Books.report hformed herror hwithin).mono ?_
  rintro _ _ rfl
  exact ⟨trivial, .refl _⟩

theorem splitRename_books {symbol : NodeId} (hsymbol : program.tree.Within site symbol) :
    program.Books site (program.splitRename symbol) (Told (· = symbol)) := by
  unfold splitRename
  split
  · split
    · exact .pure rfl
    · exact refuse_books hformed rfl hsymbol ⟨_, rfl, rfl⟩
  · exact .pure rfl

theorem listedPair_books {entry : NodeId} (hentry : program.tree.Within site entry) :
    program.Books site (program.listedPair entry) fun _ errors =>
      errors = (program.tree.pairFault? entry).toList := by
  unfold listedPair Tree.pairFault?
  cases hkind : program.tree.kind? entry with
  | none => exact refuse_books hformed rfl hentry rfl
  | some kind =>
    cases kind with
    | identifier => exact .pure rfl
    | rename symbol renamed =>
      obtain ⟨hsymbol, hrenamed⟩ := within_rename hentry hkind
      dsimp only
      cases program.tree.identifier? symbol with
      | none => exact refuse_books hformed rfl hsymbol rfl
      | some name =>
        cases program.tree.identifier? renamed with
        | none => exact refuse_books hformed rfl hrenamed rfl
        | some newName => exact .pure rfl
    | _ => exact refuse_books hformed rfl hentry rfl

/-- Each entry of a list that stands for no pair of names is reported, and nothing else. -/
theorem listedPairs_books {entries : List NodeId}
    (hentries : ∀ entry ∈ entries, program.tree.Within site entry) :
    program.Books site (program.listedPairs entries) fun _ errors =>
      errors = entries.filterMap program.tree.pairFault? := by
  induction entries with
  | nil => exact .pure rfl
  | cons entry rest ih =>
    obtain ⟨hentry, hrest⟩ := List.forall_mem_cons.mp hentries
    refine (listedPair_books hformed hentry).bind ?_
    rintro pair _ rfl
    refine (ih hrest).bind ?_
    rintro pairs _ rfl
    refine .pure ?_
    rw [List.append_nil, List.filterMap_cons]
    cases program.tree.pairFault? entry <;> rfl

/-- So is each rename in the list of an `except`. -/
theorem refuseRenames_books {entries : List NodeId}
    (hentries : ∀ entry ∈ entries, program.tree.Within site entry) :
    program.Books site (program.refuseRenames entries) fun _ errors =>
      errors = entries.filterMap program.tree.renameFault? := by
  induction entries with
  | nil => exact .pure rfl
  | cons entry rest ih =>
    obtain ⟨hentry, hrest⟩ := List.forall_mem_cons.mp hentries
    rw [refuseRenames, List.filterMap_cons, Tree.renameFault?]
    split
    · refine (Books.report hformed rfl hentry).bind ?_
      rintro _ _ rfl
      refine (ih hrest).mono ?_
      rintro _ _ rfl
      rfl
    · exact ih hrest

/-- The pairs of a list, reported at the nodes of its entries. -/
theorem listedPairs_booksAt {entries : List NodeId}
    (hentries : ∀ entry ∈ entries, program.tree.Within site entry) :
    program.BooksAt site (program.listedPairs entries) (entries.filterMap program.tree.pairSite?)
      fun _ => True := by
  refine (listedPairs_books hformed hentries).mono ?_
  rintro _ _ rfl
  rw [Tree.map_node_filterMap program.tree.map_node_pairFault?]
  exact ⟨trivial, .refl _⟩

variable (hfind : ∀ config scope name, Keeps program.Spares (find config scope name))
include hfind

theorem checkName_books {target : ScopeId} {name : Name} {entry : NodeId}
    (hentry : program.tree.Within site entry) :
    program.BooksAt site (program.checkName find stmt target name entry) [entry]
      fun _ => True := by
  unfold checkName
  refine (Books.of_spares (hfind _ _ _)).bind ?_
  rintro found _ rfl
  simp only [List.nil_append]
  split
  · exact report_books hformed rfl hentry
  · exact BooksAt.pure trivial

theorem checkListed_books {target : ScopeId} {entries : List NodeId}
    (hentries : ∀ entry ∈ entries, program.tree.Within site entry) :
    program.BooksAt site (program.checkListed find stmt target entries)
      (entries.filterMap program.listedSite?) fun _ => True := by
  induction entries with
  | nil => exact .pure trivial
  | cons entry rest ih =>
    obtain ⟨hentry, hrest⟩ := List.forall_mem_cons.mp hentries
    rw [checkListed, List.filterMap_cons]
    cases hlisted : program.listedName? entry with
    | none =>
      rw [listedSite?, hlisted]
      exact ih hrest
    | some listed =>
      have hsite : program.listedSite? entry = some listed.1 := by
        rw [listedSite?, hlisted, Option.map_some]
      have hnode : program.tree.Within site listed.1 := by
        rcases List.mem_cons.mp (mem_entryNodes_of_listedSite? hsite) with heq | hmem
        · exact heq ▸ hentry
        · exact hentry.operand hmem
      rw [hsite]
      exact (checkName_books hformed hfind hnode).bind fun _ => ih hrest

variable (hfinished : program.tree.Finished)
include hfinished

theorem resolveSegment_books {config : LookupConfig} {name : Name} {id : NodeId}
    (hid : program.tree.Within site id) :
    program.Books site (program.resolveSegment find stmt config scope name id) (Told (· = id)) := by
  unfold resolveSegment
  refine (Books.of_spares (hfind _ _ _)).bind ?_
  rintro found _ rfl
  simp only [List.nil_append]
  split
  · exact refuse_books hformed rfl hid ⟨_, rfl, rfl⟩
  · split
    · rw [map_eq_pure_bind]
      refine (Books.of_spares (scopeOf_spares hfinished _)).bind ?_
      rintro target _ rfl
      exact .pure rfl
    · exact refuse_books hformed rfl hid ⟨_, rfl, rfl⟩
  · exact refuse_books hformed rfl hid ⟨_, rfl, rfl⟩

/-- The head of a path is refused at itself. -/
theorem resolveHead_books {head : NodeId} (hhead : program.tree.Within site head) :
    program.Books site (program.resolveHead find stmt scope head) (Told (· = head)) := by
  unfold resolveHead
  split
  · exact refuse_books hformed rfl hhead ⟨_, rfl, rfl⟩
  next name =>
  split
  · refine .get_bind fun context => ?_
    split
    · exact .pure rfl
    · exact refuse_books hformed rfl hhead ⟨_, rfl, rfl⟩
  · refine (resolveSegment_books hformed hfind hfinished hhead).bind fun target? errors htold => ?_
    refine .pure ?_
    rw [List.append_nil]
    cases target? <;> exact htold

/-- Nothing is looked for behind a segment that is refused. -/
theorem resolveFields_books {place : NodeId → Prop} (start : ScopeId × Name)
    {fields : List (NodeId × Name)} (hwithin : ∀ field ∈ fields, program.tree.Within site field.1)
    (hplace : ∀ field ∈ fields, place field.1) :
    program.Books site (program.resolveFields find stmt start fields) (Told place) := by
  induction fields generalizing start with
  | nil => exact .pure rfl
  | cons field rest ih =>
    obtain ⟨hfield, hrest⟩ := List.forall_mem_cons.mp hwithin
    obtain ⟨hfirst, hothers⟩ := List.forall_mem_cons.mp hplace
    refine (resolveSegment_books hformed hfind hfinished hfield).bind fun inner? errors htold => ?_
    cases inner? with
    | none => exact .pure (by rw [List.append_nil]; exact htold.mono fun id hid => hid ▸ hfirst)
    | some inner =>
      obtain rfl : errors = [] := htold
      exact ih _ hrest hothers

/-- A path is refused at one of its segments. -/
theorem resolvePath_books {expr : NodeId} (hexpr : program.tree.Within site expr) :
    program.Books site (program.resolvePath find stmt scope expr)
      (Told (program.tree.OnChain expr)) := by
  obtain ⟨hhead, hfields⟩ := program.tree.path_onChain expr
  unfold resolvePath
  refine (resolveHead_books hformed hfind hfinished (hhead.within hexpr)).bind
    fun start? errors htold => ?_
  cases start? with
  | none => exact .pure (by rw [List.append_nil]; exact htold.mono fun id hid => hid ▸ hhead)
  | some start =>
    obtain rfl : errors = [] := htold
    exact resolveFields_books hformed hfind hfinished start
      (fun field hfield => (hfields field hfield).within hexpr) hfields

end

variable {written : WrittenClause}

/-- A first step that a clause may be refused at. -/
theorem Books.orRefused {first : Resolve (Option α)} {next : Option α → Resolve (List Clause)}
    {post : Option α → Prop}
    (hfirst : program.Books written.site first fun result? errors =>
      Told (program.tree.Anchors written) result? errors ∧ post result?)
    (hnone : next none = Pure.pure [])
    (hsome : ∀ result, post (some result) →
      program.Books written.site (next (some result)) (program.tree.Explained written)) :
    program.Books written.site (first >>= next) (program.tree.Explained written) := by
  refine hfirst.bind fun result? errors hresult => ?_
  obtain ⟨htold, hpost⟩ := hresult
  cases result? with
  | none =>
    obtain ⟨error, rfl, hplace⟩ := htold
    rw [hnone]
    exact .pure (.of_refused hplace)
  | some result =>
    obtain rfl : errors = [] := htold
    exact hsome result hpost

/-- A clause with a contribution has nothing to explain; what is reported about it is about
its list, or at the clause. -/
theorem BooksAt.explained {action : Resolve (List Clause)} {places : List NodeId}
    (haction : program.BooksAt written.site action places (· ≠ [])) (hplaces : places.Nodup)
    (hlisted : ∀ id ∈ places, id = written.site ∨
      ∃ entry ∈ written.limitations, id ∈ program.tree.entryNodes entry)
    (hother : written.stmt = .use → written.limitation ≠ .except) :
    program.Books written.site action (program.tree.Explained written) :=
  haction.mono fun _ _ ⟨hne, herrors⟩ =>
    { refused := fun hpart => absurd hpart hne
      apart := hplaces.sublist herrors
      listed := fun _ _ herror => hlisted _ (herrors.subset (List.mem_map_of_mem herror))
      excepted := fun hstmt hexcept _ => absurd hexcept (hother hstmt) }

section

variable {owner : NodeId} {finds : List Clause → Finder}
variable (hfinished : program.tree.Finished)
variable (hfinds : ∀ clauses config scope name,
  Keeps program.Spares (finds clauses config scope name))
variable (hmem : written ∈ program.tree.writtenClauses owner)
include hfinished hmem

/-- The two steps that a clause starts with. -/
theorem splitRename_anchored :
    program.Books written.site (program.splitRename written.symbol) fun parts? errors =>
      Told (program.tree.Anchors written) parts? errors ∧
        parts? = program.tree.renamed? written.symbol :=
  (splitRename_books hfinished.wellFormed (Tree.within_symbol hmem)).mono (fun _ _ htold =>
    htold.mono fun _ hid => hid ▸ .symbol) |>.and_returns (splitRename_returns _)

include hfinds

theorem resolvePath_anchored {expr : NodeId} {before : List Clause} {stmt : Statement}
    (hexpr : program.tree.OnChain (program.tree.unrenamed written.symbol) expr) :
    program.Books written.site (program.resolvePath (finds before) stmt scope expr)
      fun reached? errors => Told (program.tree.Anchors written) reached? errors ∧ True :=
  (resolvePath_books hfinished.wellFormed (hfinds before) hfinished
    ((Tree.Anchors.chain hexpr).within hmem)).mono fun _ _ htold =>
      ⟨htold.mono fun _ hid => .chain (hexpr.trans hid), trivial⟩

theorem throughTarget_books {before : List Clause} {stmt : Statement} {pathOf : NodeId → NodeId}
    (hpathOf : ∀ expr, program.tree.OnChain expr (pathOf expr))
    {rest : NodeId → Option Name → ScopeId → Name → Resolve (List Clause)}
    (hrest : ∀ newName target name, program.Books written.site
      (rest (program.tree.unrenamed written.symbol) newName target name)
      (program.tree.Explained written)) :
    program.Books written.site
      (program.throughTarget (finds before) stmt scope written.symbol pathOf rest)
      (program.tree.Explained written) := by
  refine (splitRename_anchored hfinished hmem).orRefused rfl ?_
  rintro ⟨expr, newName⟩ hparts
  obtain rfl := Tree.unrenamed_of_renamed? hparts.symm
  refine (resolvePath_anchored hfinished hfinds hmem (hpathOf _)).orRefused rfl ?_
  rintro ⟨target, name⟩ -
  exact hrest newName target name

/-- Past its path, a clause is not refused any more. -/
theorem useClauses_books (isPrivate : Bool) (before : List Clause) :
    program.Books written.site (program.useClauses finds scope isPrivate before written.site
      written.symbol written.limitation written.limitations)
      (program.tree.Explained written) := by
  have hformed := hfinished.wellFormed
  have hentries : ∀ entry ∈ written.limitations, program.tree.Within written.site entry :=
    fun _ => Tree.within_limitation hmem
  rw [useClauses_eq]
  split
  · exact refuse_books hformed rfl .self (.of_refused .site)
  refine throughTarget_books hfinished hfinds hmem (fun _ => .self) fun newName target name => ?_
  dsimp only
  split
  · refine (refuseRenames_books hformed hentries).bind ?_
    rintro _ _ rfl
    refine (listedPairs_books hformed hentries).bind ?_
    rintro names _ rfl
    refine .pure ?_
    rw [List.append_nil]
    exact
      { refused := fun hnil => absurd hnil (List.cons_ne_nil _ _)
        apart := hfinished.nodup_exceptFaults hmem
        listed := fun _ _ herror => .inr (Tree.exists_entry_of_mem_exceptFaults herror)
        excepted := fun _ _ _ => rfl }
  · next honly =>
    exact BooksAt.explained ((checkListed_books hformed (hfinds _) hentries).bind fun _ =>
      (listedPairs_booksAt hformed hentries).thenReturn fun _ => List.cons_ne_nil _ _)
      (nodup_listedSites hfinished hmem) (fun _ hid => .inr (exists_entry_of_mem_listedSites hid))
      fun _ => by simp [honly]
  · next hunlimited =>
    exact BooksAt.explained (.pure (List.cons_ne_nil _ _)) List.nodup_nil (List.forall_mem_nil _)
      fun _ => by simp [hunlimited]
  · next hbraces =>
    exact BooksAt.explained (.pure (List.cons_ne_nil _ _)) List.nodup_nil (List.forall_mem_nil _)
      fun _ => by simp [hbraces]

theorem importClauses_books (isPrivate : Bool) (before : List Clause) :
    program.Books written.site (program.importClauses finds scope isPrivate before written.site
      written.symbol written.limitation written.limitations)
      (program.tree.Explained written) := by
  have hformed := hfinished.wellFormed
  have hentries : ∀ entry ∈ written.limitations, program.tree.Within written.site entry :=
    fun _ => Tree.within_limitation hmem
  rw [importClauses_eq]
  split
  · exact refuse_books hformed rfl .self (.of_refused .site)
  next hadmitted =>
  have hother : written.stmt = .use → written.limitation ≠ .except :=
    fun _ hexcept => hadmitted (.inl hexcept)
  refine throughTarget_books hfinished hfinds hmem (splitField_onChain _)
    fun newName target name => ?_
  split
  · exact BooksAt.explained ((checkListed_books hformed (hfinds _) hentries).bind fun _ =>
      (listedPairs_booksAt hformed hentries).thenReturn fun _ => List.cons_ne_nil _ _)
      (nodup_listedSites hfinished hmem) (fun _ hid => .inr (exists_entry_of_mem_listedSites hid))
      hother
  · exact BooksAt.explained ((checkName_books hformed (hfinds _) .self).thenReturn fun _ =>
      List.cons_ne_nil _ _) (List.nodup_singleton _)
      (fun _ hid => .inl (List.mem_singleton.mp hid)) hother
  · exact BooksAt.explained (.pure (List.cons_ne_nil _ _)) List.nodup_nil (List.forall_mem_nil _)
      hother

end

end Program

end Scoping
