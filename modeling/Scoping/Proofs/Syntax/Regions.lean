import Scoping.Proofs.Syntax.WellFormed
import Scoping.Proofs.Visibility.Written

/-!
Which nodes a clause of a statement is about: the clause itself, what it names, what
that names in turn, and so on. A statement names nothing, so two clauses are never about
one node, even if a statement stands somewhere below the other clause.
-/

namespace Scoping.Tree

variable {tree : Tree}

/-- The nodes that a node names. -/
def operandsOf (tree : Tree) (id : NodeId) : List NodeId :=
  ((tree.kind? id).map NodeKind.operands).getD []

theorem operandsOf_eq {id : NodeId} {kind : NodeKind} (hkind : tree.kind? id = some kind) :
    tree.operandsOf id = kind.operands := by
  rw [operandsOf, hkind, Option.map_some, Option.getD_some]

/-- A node of a finished tree names no node twice. -/
theorem Finished.nodup_operandsOf (hfinished : tree.Finished) (id : NodeId) :
    (tree.operandsOf id).Nodup := by
  obtain ⟨builder, hbuilder, hfinish⟩ := hfinished.exists_formed
  unfold operandsOf kind?
  cases hnode : tree.node? id with
  | none => exact List.nodup_nil
  | some node =>
    obtain ⟨-, hshaped⟩ := hbuilder.shaped_of_finish hfinish hnode
    exact hshaped.distinct.sublist hshaped.operands

/-- The nodes that a node is about. -/
inductive Within (tree : Tree) (site : NodeId) : NodeId → Prop
  | self : Within tree site site
  | operand {id other : NodeId} (hid : Within tree site id) (hmem : other ∈ tree.operandsOf id) :
    Within tree site other

/-- What a node names is among its children. -/
theorem WellFormed.mem_children_of_operand (hformed : tree.WellFormed) {id other : NodeId}
    (hmem : other ∈ tree.operandsOf id) : other ∈ tree.children id := by
  unfold operandsOf at hmem
  cases hkind : tree.kind? id with
  | none =>
    rw [hkind] at hmem
    cases hmem
  | some kind =>
    rw [hkind, Option.map_some, Option.getD_some] at hmem
    exact hformed.operands id kind hkind hmem

theorem WellFormed.parent?_of_operand (hformed : tree.WellFormed) {id other : NodeId}
    (hmem : other ∈ tree.operandsOf id) : tree.parent? other = some id :=
  hformed.adopted id other (hformed.mem_children_of_operand hmem)

/-- Whether a node is a child of one that names nothing. -/
def IsSite (tree : Tree) (site : NodeId) : Prop :=
  ∃ stmt, site ∈ tree.children stmt ∧ tree.operandsOf stmt = []

theorem IsSite.not_operand (hformed : tree.WellFormed) {site : NodeId} (hsite : tree.IsSite site)
    (id : NodeId) : site ∉ tree.operandsOf id := by
  obtain ⟨stmt, hchild, hnone⟩ := hsite
  intro hmem
  have hparent := (hformed.parent?_of_operand hmem).symm.trans (hformed.adopted stmt site hchild)
  obtain rfl := Option.some.inj hparent
  simp [hnone] at hmem

/-- A node belongs to one clause at most. -/
theorem Within.unique (hformed : tree.WellFormed) {site other id : NodeId}
    (hsite : tree.IsSite site) (hother : tree.IsSite other) (hid : tree.Within site id)
    (hid' : tree.Within other id) : site = other := by
  induction hid with
  | self =>
    cases hid' with
    | self => rfl
    | operand _ hmem => exact absurd hmem (hsite.not_operand hformed _)
  | operand _ hmem ih =>
    cases hid' with
    | self => exact absurd hmem (hother.not_operand hformed _)
    | operand hfrom hmem' =>
      have hsame := (hformed.parent?_of_operand hmem).symm.trans (hformed.parent?_of_operand hmem')
      obtain rfl := Option.some.inj hsame
      exact ih hfrom

theorem operandsOf_of_clausesOfStatement {node : NodeId} {written : WrittenClause}
    (hmem : written ∈ tree.clausesOfStatement node) : tree.operandsOf node = [] := by
  unfold clausesOfStatement at hmem
  split at hmem
  · next hkind => exact operandsOf_eq hkind
  · next hkind => exact operandsOf_eq hkind
  · cases hmem

/-- The clauses of a statement are children of it, in order. -/
theorem sites_sublist (node : NodeId) :
    ((tree.clausesOfStatement node).map WrittenClause.site).Sublist (tree.children node) := by
  have hfilter : ∀ stmt access (children : List NodeId),
      ((children.filterMap (tree.writtenClause? stmt access)).map WrittenClause.site).Sublist
        children := by
    intro stmt access children
    induction children with
    | nil => exact .slnil
    | cons child rest ih =>
      rw [List.filterMap_cons]
      unfold writtenClause?
      split
      · exact ih.cons child
      · next hwritten =>
        split at hwritten
        · obtain rfl := Option.some.inj hwritten
          exact ih.cons_cons child
        · cases hwritten
  unfold clausesOfStatement
  split
  · exact hfilter _ _ _
  · exact hfilter _ _ _
  · exact List.nil_sublist _

theorem kind?_of_clausesOfStatement {node : NodeId} {written : WrittenClause}
    (hmem : written ∈ tree.clausesOfStatement node) :
    tree.kind? written.site =
      some (.clause written.symbol written.limitation written.limitations) := by
  have hfilter : ∀ stmt access (children : List NodeId),
      written ∈ children.filterMap (tree.writtenClause? stmt access) →
        tree.kind? written.site =
          some (.clause written.symbol written.limitation written.limitations) := by
    intro stmt access children hmem
    obtain ⟨child, -, hwritten⟩ := List.mem_filterMap.mp hmem
    unfold writtenClause? at hwritten
    split at hwritten
    · next hkind =>
      obtain rfl := Option.some.inj hwritten
      exact hkind
    · cases hwritten
  unfold clausesOfStatement at hmem
  split at hmem
  · exact hfilter _ _ _ hmem
  · exact hfilter _ _ _ hmem
  · cases hmem

/-- Where the clause of a statement in a node stands. -/
theorem exists_statement {owner : NodeId} {written : WrittenClause}
    (hmem : written ∈ tree.writtenClauses owner) : ∃ stmt ∈ tree.children owner,
      written.site ∈ tree.children stmt ∧ tree.operandsOf stmt = [] ∧
        tree.kind? written.site =
          some (.clause written.symbol written.limitation written.limitations) := by
  obtain ⟨stmt, hstmt, hwritten⟩ := List.mem_flatMap.mp hmem
  exact ⟨stmt, hstmt, (sites_sublist stmt).subset (List.mem_map_of_mem hwritten),
    operandsOf_of_clausesOfStatement hwritten, kind?_of_clausesOfStatement hwritten⟩

theorem isSite_of_mem {owner : NodeId} {written : WrittenClause}
    (hmem : written ∈ tree.writtenClauses owner) : tree.IsSite written.site := by
  obtain ⟨stmt, -, hchild, hnone, -⟩ := exists_statement hmem
  exact ⟨stmt, hchild, hnone⟩

/-- A clause stands in one node only. -/
theorem WellFormed.eq_of_site (hformed : tree.WellFormed) {owner other : NodeId}
    {written written' : WrittenClause} (hmem : written ∈ tree.writtenClauses owner)
    (hmem' : written' ∈ tree.writtenClauses other) (hsite : written.site = written'.site) :
    owner = other := by
  obtain ⟨stmt, hstmt, hchild, -⟩ := exists_statement hmem
  obtain ⟨stmt', hstmt', hchild', -⟩ := exists_statement hmem'
  have hparent := hformed.adopted stmt _ hchild
  rw [hsite] at hparent
  obtain rfl := Option.some.inj (hparent.symm.trans (hformed.adopted stmt' _ hchild'))
  exact Option.some.inj
    ((hformed.adopted owner stmt hstmt).symm.trans (hformed.adopted other stmt hstmt'))

/-- The clauses of the statements in a node are all different. -/
theorem WellFormed.nodup_sites (hformed : tree.WellFormed) (owner : NodeId) :
    ((tree.writtenClauses owner).map WrittenClause.site).Nodup := by
  rw [writtenClauses, List.map_flatMap]
  refine List.nodup_flatMap.mpr ⟨fun stmt _ => ?_, ?_⟩
  · exact (hformed.distinct stmt).sublist (sites_sublist stmt)
  · refine (hformed.distinct owner).imp fun {stmt stmt'} hne => ?_
    intro site hsite hsite'
    have hparent := hformed.adopted stmt site ((sites_sublist stmt).subset hsite)
    have hparent' := hformed.adopted stmt' site ((sites_sublist stmt').subset hsite')
    exact hne (Option.some.inj (hparent.symm.trans hparent'))

/-- The expression of a symbol, without a rename at the top. -/
def unrenamed (tree : Tree) (symbol : NodeId) : NodeId :=
  match tree.kind? symbol with
  | some (.rename inner _) => inner
  | _ => symbol

theorem unrenamed_of_renamed? {symbol expr : NodeId} {newName : Option Name}
    (hparts : tree.renamed? symbol = some (expr, newName)) : tree.unrenamed symbol = expr := by
  unfold renamed? at hparts
  unfold unrenamed
  cases hkind : tree.kind? symbol with
  | none =>
    rw [hkind] at hparts
    cases hparts
    rfl
  | some kind =>
    rw [hkind] at hparts
    cases kind with
    | rename inner renamed =>
      obtain ⟨_, -, hpair⟩ := Option.map_eq_some_iff.mp hparts
      cases hpair
      rfl
    | _ =>
      cases hparts
      rfl

/-- An expression, what its field is accessed on if it is such an access, and so on. -/
inductive OnChain (tree : Tree) (expr : NodeId) : NodeId → Prop
  | self : OnChain tree expr expr
  | receiver {id receiver : NodeId} {field : Name} (hid : OnChain tree expr id)
    (hkind : tree.kind? id = some (.dot receiver field)) : OnChain tree expr receiver

/-- The nodes that a clause is refused at: the clause, its symbol, and what stands on the
chain of field accesses from there. -/
inductive Anchors (tree : Tree) (written : WrittenClause) : NodeId → Prop
  | site : Anchors tree written written.site
  | symbol : Anchors tree written written.symbol
  | chain {id : NodeId} (hid : tree.OnChain (tree.unrenamed written.symbol) id) :
    Anchors tree written id

theorem OnChain.trans {expr middle id : NodeId} (hmiddle : tree.OnChain expr middle)
    (hid : tree.OnChain middle id) : tree.OnChain expr id := by
  induction hid with
  | self => exact hmiddle
  | receiver _ hkind ih => exact .receiver ih hkind

theorem OnChain.within {site expr id : NodeId} (hexpr : tree.Within site expr)
    (hid : tree.OnChain expr id) : tree.Within site id := by
  induction hid with
  | self => exact hexpr
  | receiver _ hkind ih => exact ih.operand (by simp [operandsOf_eq hkind, NodeKind.operands])

/-- The segments of a path stand on the chain of its expression. -/
theorem path_onChain (tree : Tree) (expr : NodeId) : tree.OnChain expr (tree.path expr).head ∧
    ∀ field ∈ (tree.path expr).fields, tree.OnChain expr field.1 := by
  have hpeel : ∀ fuel id fields, tree.OnChain expr id →
      (∀ field ∈ fields, tree.OnChain expr field.1) →
      tree.OnChain expr (tree.peel fuel id fields).head ∧
        ∀ field ∈ (tree.peel fuel id fields).fields, tree.OnChain expr field.1 := by
    intro fuel
    induction fuel with
    | zero => exact fun id fields hid hfields => ⟨hid, hfields⟩
    | succ fuel ih =>
      intro id fields hid hfields
      rw [peel]
      split
      · next hkind =>
        exact ih _ _ (hid.receiver hkind) (List.forall_mem_cons.mpr ⟨hid, hfields⟩)
      · exact ⟨hid, hfields⟩
  exact hpeel _ _ _ .self (List.forall_mem_nil _)

/-- What a symbol is a rename of belongs to it. -/
theorem within_unrenamed (symbol : NodeId) : tree.Within symbol (tree.unrenamed symbol) := by
  unfold unrenamed
  split
  · next hkind => exact .operand .self (by simp [operandsOf_eq hkind, NodeKind.operands])
  · exact .self

theorem Within.trans {site middle id : NodeId} (hmiddle : tree.Within site middle)
    (hid : tree.Within middle id) : tree.Within site id := by
  induction hid with
  | self => exact hmiddle
  | operand _ hmem ih => exact ih.operand hmem

section

variable {owner : NodeId} {written : WrittenClause} (hmem : written ∈ tree.writtenClauses owner)
include hmem

theorem within_symbol : tree.Within written.site written.symbol := by
  obtain ⟨-, -, -, -, hkind⟩ := exists_statement hmem
  exact .operand .self (by simp [operandsOf_eq hkind, NodeKind.operands])

theorem within_limitation {entry : NodeId} (hentry : entry ∈ written.limitations) :
    tree.Within written.site entry := by
  obtain ⟨-, -, -, -, hkind⟩ := exists_statement hmem
  exact .operand .self (by simp [operandsOf_eq hkind, NodeKind.operands, hentry])

/-- A clause is refused at a node that it is about. -/
theorem Anchors.within {id : NodeId} (hid : tree.Anchors written id) :
    tree.Within written.site id := by
  have hsymbol := within_symbol hmem
  cases hid with
  | site => exact .self
  | symbol => exact hsymbol
  | chain hchain => exact hchain.within (hsymbol.trans (within_unrenamed _))

end

end Scoping.Tree
