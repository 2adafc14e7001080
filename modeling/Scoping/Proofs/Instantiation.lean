import Scoping.Instantiation
import Scoping.Proofs.Lookup
import Scoping.Proofs.Visibility.Climbing

/-!
Instantiation points are found in finitely many steps, and their chains are well formed:
what is behind a link is the chain of the next one, which was built before it, and each
link is kept under its site and the next one. A link that is left out of a chain has a
site that a climb can come to from the call, and the first that is kept has none that it
can come to.
-/

namespace Scoping

open Context Resolve

namespace Context

/-- Whether a link is one of this context. -/
def HasLink (context : Context) (link : PoiId) : Prop := link.index < context.pois.size

/-- A link and those behind it, nearest first. -/
def chain (context : Context) (link : PoiId) : List PoiId := link :: (context.poi link).behind

/-- The links of the chain that starts at a link, if there is one. -/
def chainFrom (context : Context) (outer : Option PoiId) : List PoiId :=
  outer.elim [] context.chain

/-- The sites of the chain that starts at a link, if there is one. -/
def sitesFrom (context : Context) (outer : Option PoiId) : List ScopeId :=
  (context.chainFrom outer).filterMap fun link => (context.poi link).site

/-- What the link for a call from a scope, in code instantiated from another link, makes
of the chain of that link. -/
structure Collapses (context : Context) (scope : ScopeId) (outer : Option PoiId) (link : PoiId) :
    Prop where
  has : context.Has scope
  hasOuter : ∀ other ∈ outer, context.HasLink other
  hasLink : context.HasLink link
  site : (context.poi link).site = Program.candidateScope? context scope
  /-- The links left out are those in front, and their sites can be climbed to. -/
  dropped : ∃ dropped, context.chainFrom outer = dropped ++ (context.poi link).behind ∧
    ∀ other ∈ dropped, ∃ site, (context.poi other).site = some site ∧ context.Sees scope site

/-- Whether some links are the chain of an older link, or none. -/
def IsChain (context : Context) (bound : Nat) (links : List PoiId) : Prop :=
  links = [] ∨ ∃ next : PoiId, next.index < bound ∧ links = context.chain next

/-- Whether the link is one that no collapsing for a call from the scope goes past. -/
def Stops (keeps : Context → Prop) (context : Context) (scope : ScopeId) (link : PoiId) : Prop :=
  ∀ site ∈ (context.poi link).site, context.Bars keeps scope site

/-- What is true of the instantiation points of a context. -/
structure Linked (keeps : Context → Prop) (context : Context) : Prop where
  sites : ∀ link, context.HasLink link → ∀ site ∈ (context.poi link).site, context.Has site
  behind : ∀ link, context.HasLink link → context.IsChain link.index (context.poi link).behind
  built : ∀ site next link, context.builtPois.get? (site, next) = some link →
    context.HasLink link ∧ (context.poi link).site = site ∧ (context.poi link).outer? = next
  consed : ∀ link, context.HasLink link →
    context.builtPois.get? ((context.poi link).site, (context.poi link).outer?) = some link
  collapsed : ∀ scope outer link, context.poiOf.get? (scope, outer) = some link →
    context.Collapses scope outer link
  stopped : ∀ scope outer link, context.poiOf.get? (scope, outer) = some link →
    ∀ next ∈ (context.poi link).outer?, context.Stops keeps scope next

variable {program : Program} {keeps : Context → Prop} {context later : Context}

theorem linked_empty : empty.Linked keeps where
  sites _ hlink := absurd hlink (Nat.not_lt_zero _)
  behind _ hlink := absurd hlink (Nat.not_lt_zero _)
  built _ _ _ hbuilt := by cases hbuilt
  consed _ hlink := absurd hlink (Nat.not_lt_zero _)
  collapsed _ _ _ hknown := by cases hknown
  stopped _ _ _ hknown := by cases hknown

/-- Some links are the chain of the first of them. -/
theorem IsChain.eq_chainFrom {bound : Nat} {links : List PoiId} (hchain : context.IsChain bound links) :
    links = context.chainFrom links.head? := by
  rcases hchain with rfl | ⟨next, -, rfl⟩ <;> rfl

theorem IsChain.lt_of_mem_head? {bound : Nat} {links : List PoiId}
    (hchain : context.IsChain bound links) {next : PoiId} (hnext : next ∈ links.head?) :
    next.index < bound := by
  rcases hchain with rfl | ⟨other, hother, rfl⟩
  · cases hnext
  · exact Option.some.inj hnext ▸ hother

theorem hasLink_of_site {link : PoiId} {site : ScopeId}
    (hsite : (context.poi link).site = some site) : context.HasLink link := by
  by_contra hnot
  rw [poi, poi?, Array.getElem?_eq_none (Nat.le_of_not_lt hnot)] at hsite
  cases hsite

theorem Grows.hasLink (hgrows : context.Grows later) {link : PoiId}
    (hlink : context.HasLink link) : later.HasLink link := by
  have hle := hgrows.pois.length_le
  rw [Array.length_toList, Array.length_toList] at hle
  exact Nat.lt_of_lt_of_le hlink hle

theorem Linked.hasLink_of_outer? (hlinked : context.Linked keeps) {link next : PoiId}
    (hlink : context.HasLink link) (hnext : next ∈ (context.poi link).outer?) :
    context.HasLink next :=
  ((hlinked.behind link hlink).lt_of_mem_head? hnext).trans hlink

theorem Stops.of_grows {scope : ScopeId} {link : PoiId} (hstops : context.Stops keeps scope link)
    (hgrows : context.Grows later) (hlink : context.HasLink link) :
    later.Stops keeps scope link := by
  intro site hsite
  rw [hgrows.poi hlink] at hsite
  exact (hstops site hsite).of_grows hgrows

theorem Grows.chain (hgrows : context.Grows later) {link : PoiId}
    (hlink : context.HasLink link) : later.chain link = context.chain link := by
  rw [Context.chain, Context.chain, hgrows.poi hlink]

theorem Grows.chainFrom (hgrows : context.Grows later) {outer : Option PoiId}
    (houter : ∀ other ∈ outer, context.HasLink other) :
    later.chainFrom outer = context.chainFrom outer := by
  cases outer with
  | none => rfl
  | some other => exact hgrows.chain (houter other rfl)

theorem Grows.isChain (hgrows : context.Grows later) {bound : Nat} (hbound : bound ≤ context.pois.size)
    {links : List PoiId} (hchain : context.IsChain bound links) : later.IsChain bound links := by
  refine hchain.imp_right ?_
  rintro ⟨next, hnext, rfl⟩
  exact ⟨next, hnext, (hgrows.chain (Nat.lt_of_lt_of_le hnext hbound)).symm⟩

theorem Sound.candidateScope?_of_grows (hsound : context.Sound program) (hgrows : context.Grows later)
    {id : ScopeId} (hid : context.Has id) :
    Program.candidateScope? later id = Program.candidateScope? context id := by
  rw [Program.candidateScope?, Program.candidateScope?, hgrows.outward hid]
  refine List.find?_congr fun outer houter => ?_
  rw [hgrows.scope (hsound.has_of_outward hid houter)]

theorem Sound.collapses_of_grows (hsound : context.Sound program) (hgrows : context.Grows later)
    {scope : ScopeId} {outer : Option PoiId} {link : PoiId}
    (hcollapses : context.Collapses scope outer link) : later.Collapses scope outer link where
  has := hgrows.has hcollapses.has
  hasOuter other hother := hgrows.hasLink (hcollapses.hasOuter other hother)
  hasLink := hgrows.hasLink hcollapses.hasLink
  site := by
    rw [hgrows.poi hcollapses.hasLink, hcollapses.site,
      hsound.candidateScope?_of_grows hgrows hcollapses.has]
  dropped := by
    obtain ⟨dropped, hchain, hdropped⟩ := hcollapses.dropped
    refine ⟨dropped, ?_, fun other hother => ?_⟩
    · rw [hgrows.chainFrom hcollapses.hasOuter, hchain, hgrows.poi hcollapses.hasLink]
    · obtain ⟨site, hsite, hsees⟩ := hdropped other hother
      exact ⟨site, by rw [hgrows.poi (hasLink_of_site hsite), hsite], hgrows.sees hsees⟩

/-- What a step has to show of the links that it adds. -/
theorem Linked.of_grows (hlinked : context.Linked keeps) (hsound : context.Sound program)
    (hgrows : context.Grows later)
    (hnew : ∀ link, later.HasLink link → ¬ context.HasLink link →
      (∀ site ∈ (later.poi link).site, later.Has site) ∧
        later.IsChain link.index (later.poi link).behind ∧
        later.builtPois.get? ((later.poi link).site, (later.poi link).outer?) = some link)
    (hbuilt : ∀ site next link, later.builtPois.get? (site, next) = some link →
      context.builtPois.get? (site, next) = some link ∨
        later.HasLink link ∧ (later.poi link).site = site ∧ (later.poi link).outer? = next)
    (hcollapsed : ∀ scope outer link, later.poiOf.get? (scope, outer) = some link →
      context.poiOf.get? (scope, outer) = some link ∨ later.Collapses scope outer link ∧
        ∀ next ∈ (later.poi link).outer?, later.Stops keeps scope next) :
    later.Linked keeps where
  sites link hlink site hsite := by
    by_cases hold : context.HasLink link
    · rw [hgrows.poi hold] at hsite
      exact hgrows.has (hlinked.sites link hold site hsite)
    · exact (hnew link hlink hold).1 site hsite
  behind link hlink := by
    by_cases hold : context.HasLink link
    · rw [hgrows.poi hold]
      exact hgrows.isChain (Nat.le_of_lt hold) (hlinked.behind link hold)
    · exact (hnew link hlink hold).2.1
  built site next link hknown := by
    rcases hbuilt site next link hknown with hold | hshown
    · obtain ⟨hlink, hsite, hnext⟩ := hlinked.built site next link hold
      rw [hgrows.poi hlink]
      exact ⟨hgrows.hasLink hlink, hsite, hnext⟩
    · exact hshown
  consed link hlink := by
    by_cases hold : context.HasLink link
    · rw [hgrows.poi hold]
      exact hgrows.builtPois _ _ (hlinked.consed link hold)
    · exact (hnew link hlink hold).2.2
  collapsed scope outer link hknown := by
    rcases hcollapsed scope outer link hknown with hold | ⟨hshown, -⟩
    · exact hsound.collapses_of_grows hgrows (hlinked.collapsed scope outer link hold)
    · exact hshown
  stopped scope outer link hknown := by
    rcases hcollapsed scope outer link hknown with hold | ⟨-, hshown⟩
    · have hlink := (hlinked.collapsed scope outer link hold).hasLink
      rw [hgrows.poi hlink]
      exact fun next hnext => (hlinked.stopped scope outer link hold next hnext).of_grows hgrows
        (hlinked.hasLink_of_outer? hlink hnext)
    · exact hshown

/-- A step that leaves the links alone keeps them well formed. -/
theorem Linked.of_sameLinks (hlinked : context.Linked keeps) (hsound : context.Sound program)
    (hgrows : context.Grows later) (hsame : context.SameLinks later) : later.Linked keeps := by
  refine hlinked.of_grows hsound hgrows (fun link hlink hnew => ?_) (fun site next link hknown => ?_)
    fun scope outer link hknown => ?_
  · rw [HasLink, hsame.pois] at hlink
    exact absurd hlink hnew
  · rw [hsame.builtPois] at hknown
    exact .inl hknown
  · rw [hsame.poiOf] at hknown
    exact .inl hknown

/-- What is left of a chain after some links in front is a chain. -/
theorem Linked.isChain_of_append (hlinked : context.Linked keeps) {dropped kept : List PoiId}
    {bound : Nat} (hbound : bound ≤ context.pois.size)
    (hchain : context.IsChain bound (dropped ++ kept)) :
    context.IsChain bound kept := by
  induction dropped generalizing bound with
  | nil => exact hchain
  | cons link rest ih =>
    rcases hchain with hnil | ⟨next, hnext, heq⟩
    · cases hnil
    · obtain ⟨rfl, hrest⟩ := List.cons.inj heq
      have hlink := Nat.lt_of_lt_of_le hnext hbound
      have hbehind := hlinked.behind link hlink
      rw [← hrest] at hbehind
      refine (ih (Nat.le_of_lt hlink) hbehind).imp_right ?_
      rintro ⟨other, hother, rfl⟩
      exact ⟨other, hother.trans hnext, rfl⟩

theorem Linked.hasLink_of_isChain (hlinked : context.Linked keeps) {links : List PoiId} {bound : Nat}
    (hbound : bound ≤ context.pois.size) (hchain : context.IsChain bound links) {link : PoiId}
    (hlink : link ∈ links) : context.HasLink link := by
  obtain ⟨before, after, rfl⟩ := List.append_of_mem hlink
  rcases hlinked.isChain_of_append hbound hchain with hnil | ⟨next, hnext, heq⟩
  · cases hnil
  · rw [(List.cons.inj heq).1]
    exact Nat.lt_of_lt_of_le hnext hbound

theorem isChain_chainFrom {outer : Option PoiId} (houter : ∀ other ∈ outer, context.HasLink other) :
    context.IsChain context.pois.size (context.chainFrom outer) := by
  cases outer with
  | none => exact .inl rfl
  | some other => exact .inr ⟨other, houter other rfl, rfl⟩

theorem mem_sitesFrom_iff {outer : Option PoiId} {site : ScopeId} :
    site ∈ context.sitesFrom outer ↔
      ∃ link ∈ context.chainFrom outer, (context.poi link).site = some site :=
  List.mem_filterMap

theorem Linked.has_of_mem_sitesFrom (hlinked : context.Linked keeps) {outer : Option PoiId}
    {site : ScopeId} (hsite : site ∈ context.sitesFrom outer) : context.Has site := by
  obtain ⟨link, -, hlink⟩ := mem_sitesFrom_iff.mp hsite
  exact hlinked.sites link (hasLink_of_site hlink) site hlink

theorem Linked.sitesFrom_of_grows (hlinked : context.Linked keeps) (hgrows : context.Grows later)
    {outer : Option PoiId} (houter : ∀ other ∈ outer, context.HasLink other) :
    later.sitesFrom outer = context.sitesFrom outer := by
  rw [sitesFrom, sitesFrom, hgrows.chainFrom houter]
  refine List.filterMap_congr fun link hlink => ?_
  rw [hgrows.poi (hlinked.hasLink_of_isChain (Nat.le_refl _) (isChain_chainFrom houter) hlink)]

/-- Chains with the same first link are the same. -/
theorem IsChain.eq_of_head? {bound bound' : Nat} {links others : List PoiId}
    (hlinks : context.IsChain bound links) (hothers : context.IsChain bound' others)
    (hhead : links.head? = others.head?) : links = others := by
  rw [hlinks.eq_chainFrom, hhead, ← hothers.eq_chainFrom]

/-- The context once a link is built. -/
def linking (context : Context) (site : Option ScopeId) (behind : List PoiId) : Context :=
  { context with
    pois := context.pois.push ⟨site, behind⟩
    builtPois := context.builtPois.finish (site, behind.head?) ⟨context.pois.size⟩ }

/-- The context once the link for a call is found. -/
def pointing (context : Context) (scope : ScopeId) (outer : Option PoiId) (link : PoiId) : Context :=
  { context with poiOf := context.poiOf.finish (scope, outer) link }

section

variable {site : Option ScopeId} {behind : List PoiId}

theorem grows_linking (hnone : context.builtPois.get? (site, behind.head?) = none) :
    context.Grows (context.linking site behind) :=
  { Grows.refl context with
    pois := by simp [linking]
    builtPois := Memo.extends_finish (by simp [hnone]) }

theorem Sound.linking (hsound : context.Sound program) : (context.linking site behind).Sound program :=
  hsound.congr rfl rfl rfl rfl rfl

theorem hasLink_linking : (context.linking site behind).HasLink ⟨context.pois.size⟩ := by
  simp [HasLink, linking]

theorem poi_linking : (context.linking site behind).poi ⟨context.pois.size⟩ = ⟨site, behind⟩ := by
  simp [poi, poi?, linking]

/-- The link that is built is the only new one. -/
theorem Linked.linking (hlinked : context.Linked keeps) (hsound : context.Sound program)
    (hnone : context.builtPois.get? (site, behind.head?) = none)
    (hsite : ∀ id ∈ site, context.Has id) (hchain : context.IsChain context.pois.size behind) :
    (context.linking site behind).Linked keeps := by
  have hgrows := grows_linking hnone
  have hsize : (context.linking site behind).pois.size = context.pois.size + 1 := Array.size_push _
  refine hlinked.of_grows hsound hgrows (fun other hother hnew => ?_)
    (fun site' next other hknown => ?_) fun _ _ _ hold => .inl hold
  · obtain rfl : other = ⟨context.pois.size⟩ := by
      rw [HasLink, hsize] at hother
      exact congrArg PoiId.mk (Nat.le_antisymm (Nat.le_of_lt_succ hother) (Nat.le_of_not_lt hnew))
    rw [poi_linking]
    exact ⟨fun id hid => hgrows.has (hsite id hid), hgrows.isChain (Nat.le_refl _) hchain,
      Memo.get?_finish_self _ _ _⟩
  · by_cases heq : (site', next) = (site, behind.head?)
    · obtain ⟨rfl, rfl⟩ := Prod.mk.inj heq
      obtain rfl := Option.some.inj ((Memo.get?_finish_self _ _ _).symm.trans hknown)
      rw [poi_linking]
      exact .inr ⟨hasLink_linking, rfl, rfl⟩
    · exact .inl ((Memo.get?_finish_of_ne _ heq _).symm.trans hknown)

end

section

variable {scope : ScopeId} {outer : Option PoiId} {link : PoiId}

theorem grows_pointing (hnone : context.poiOf.get? (scope, outer) = none) (link : PoiId) :
    context.Grows (context.pointing scope outer link) :=
  { Grows.refl context with poiOf := Memo.extends_finish (by simp [hnone]) }

theorem Sound.pointing (hsound : context.Sound program) :
    (context.pointing scope outer link).Sound program :=
  hsound.congr rfl rfl rfl rfl rfl

theorem Linked.pointing (hlinked : context.Linked keeps) (hsound : context.Sound program)
    (hnone : context.poiOf.get? (scope, outer) = none)
    (hcollapses : context.Collapses scope outer link)
    (hstops : ∀ next ∈ (context.poi link).outer?, context.Stops keeps scope next) :
    (context.pointing scope outer link).Linked keeps := by
  have hgrows := grows_pointing hnone link
  refine hlinked.of_grows hsound hgrows (fun _ hold hnew => absurd hold hnew)
    (fun _ _ _ hold => .inl hold) fun scope' outer' link' hknown => ?_
  by_cases heq : (scope', outer') = (scope, outer)
  · obtain ⟨rfl, rfl⟩ := Prod.mk.inj heq
    obtain rfl := Option.some.inj ((Memo.get?_finish_self _ _ _).symm.trans hknown)
    exact .inr ⟨hsound.collapses_of_grows hgrows hcollapses, fun next hnext site hsite =>
      (hstops next hnext site hsite).of_grows hgrows⟩
  · exact .inl ((Memo.get?_finish_of_ne _ heq _).symm.trans hknown)

end

end Context

namespace Program

variable {program : Program} {keeps : Context → Prop} {context : Context}

/-- The links in front that are left out are those that a climb can come to, up to one that
it cannot come to. -/
theorem dropVisible_ends (hserves : program.Serves keeps) (hkeeps : keeps context)
    {scope : ScopeId} (hscope : context.Has scope) (links : List PoiId) :
    Ends (Resolving keeps) (program.dropVisible scope links) context fun kept later =>
      (∃ dropped, links = dropped ++ kept ∧ ∀ other ∈ dropped,
        ∃ site, (later.poi other).site = some site ∧ later.Sees scope site) ∧
      ∀ next ∈ kept.head?, later.Stops keeps scope next := by
  induction links generalizing context with
  | nil => exact .same hkeeps ⟨⟨[], rfl, nofun⟩, nofun⟩
  | cons link rest ih =>
    rw [dropVisible]
    apply Ends.get_bind
    cases hsite : (context.poi link).site with
    | none =>
      refine .same hkeeps ⟨⟨[], rfl, nofun⟩, ?_⟩
      rintro _ ⟨⟩ site hmem
      rw [hsite] at hmem
      cases hmem
    | some site =>
      refine (seesWhole_decides hserves hkeeps hscope site).bind
        fun visible later hchanges hdecides => ?_
      have hsame : later.poi link = context.poi link := by
        rw [poi, poi, poi?, poi?, hchanges.1.samePois]
      cases visible with
      | false =>
        refine .same hchanges.2 ⟨⟨[], rfl, nofun⟩, ?_⟩
        rintro _ ⟨⟩ _ hmem
        rw [hsame, hsite] at hmem
        exact Option.some.inj hmem ▸ hdecides.2 rfl
      | true =>
        refine (ih hchanges.2 (hchanges.1.toGrows.has hscope)).mono ?_
        rintro kept last hlast ⟨⟨dropped, rfl, hdropped⟩, hstops⟩
        have hsame' : last.poi link = later.poi link := by
          rw [poi, poi, poi?, poi?, hlast.1.samePois]
        exact ⟨⟨link :: dropped, rfl, List.forall_mem_cons.mpr
          ⟨⟨site, by rw [hsame', hsame, hsite], hlast.1.toGrows.sees (hdecides.1 rfl)⟩, hdropped⟩⟩,
          hstops⟩

/-- A link is built once, and is what was asked for whenever it is found again. -/
theorem buildPoi_ends (hupholds : program.Upholds keeps) (hkeeps : keeps context)
    {site : Option ScopeId} (hsite : ∀ id ∈ site, context.Has id) (behind : List PoiId) :
    Ends (Answering keeps) (buildPoi site behind) context fun link later =>
      later.poiOf = context.poiOf ∧
        (context.Linked keeps → context.IsChain context.pois.size behind →
          later.Linked keeps ∧ later.HasLink link ∧ later.poi link = ⟨site, behind⟩) := by
  have hsound := hupholds.sound _ hkeeps
  unfold buildPoi
  apply Ends.get_bind
  cases hknown : context.builtPois.get? (site, behind.head?) with
  | some link =>
    refine .pure ⟨.refl context, hkeeps⟩ ⟨rfl, fun hlinked hchain => ?_⟩
    obtain ⟨hlink, hsite, hnext⟩ := hlinked.built _ _ _ hknown
    have hbehind := (hlinked.behind link hlink).eq_of_head? hchain hnext
    exact ⟨hlinked, hlink, by rw [← hsite, ← hbehind]⟩
  | none =>
    have hgrows := grows_linking hknown
    refine ⟨⟨context.pois.size⟩, context.linking site behind, rfl,
      ⟨hgrows, hupholds.growing _ _ hkeeps hgrows hsound.linking rfl⟩, rfl,
      fun hlinked hchain =>
        ⟨hlinked.linking hsound hknown hsite hchain, hasLink_linking, poi_linking⟩⟩

/-- The point at which a call is instantiated is found, and found once. -/
theorem instantiationPoint_ends (hserves : program.Serves keeps) (hkeeps : keeps context)
    {scope : ScopeId} (hscope : context.Has scope) {outer : Option PoiId}
    (houter : ∀ other ∈ outer, context.HasLink other) :
    Ends (Answering keeps) (program.instantiationPoint scope outer) context fun link later =>
      later.poiOf.get? (scope, outer) = some link ∧
        (context.Linked keeps → later.Linked keeps) := by
  unfold instantiationPoint
  apply Ends.get_bind
  cases hknown : context.poiOf.get? (scope, outer) with
  | some link => exact .pure ⟨.refl context, hkeeps⟩ ⟨hknown, fun hlinked => hlinked⟩
  | none =>
    have hsound := hserves.sound _ hkeeps
    obtain ⟨behind, middle, hdrop, hdropped, ⟨dropped, hchain, hsees⟩, hstops⟩ :=
      dropVisible_ends hserves hkeeps hscope (context.chainFrom outer)
    have hmiddle := hdropped.1.toGrows
    have hsite : ∀ id ∈ candidateScope? context scope, middle.Has id := fun id hid =>
      hmiddle.has (hsound.has_of_outward hscope (List.mem_of_find?_eq_some hid))
    obtain ⟨link, later, hbuild, hbuilt, hsame, hlinks⟩ :=
      buildPoi_ends hserves.toUpholds hdropped.2 hsite behind
    have hall := hmiddle.trans hbuilt.1
    have hsound' := hserves.sound _ hbuilt.2
    have hnone : later.poiOf.get? (scope, outer) = none := by
      rw [hsame, hdropped.1.samePoiOf, hknown]
    have hlast := grows_pointing hnone link
    refine ⟨link, later.pointing scope outer link, ?_, ⟨hall.trans hlast,
      hserves.growing _ _ hbuilt.2 hlast hsound'.pointing rfl⟩, Memo.get?_finish_self _ _ _, ?_⟩
    · refine bind_eq_some_iff.mpr ⟨behind, middle, hdrop, ?_⟩
      exact bind_eq_some_iff.mpr ⟨link, later, hbuild, rfl⟩
    intro hlinked
    have hlinked' := hlinked.of_sameLinks hsound hmiddle hdropped.1.sameLinks
    have hwhole : middle.IsChain middle.pois.size (dropped ++ behind) := by
      rw [← hchain, ← hmiddle.chainFrom houter]
      exact isChain_chainFrom fun other hother => hmiddle.hasLink (houter other hother)
    obtain ⟨hlinked'', hlink, hpoi⟩ :=
      hlinks hlinked' (hlinked'.isChain_of_append (Nat.le_refl _) hwhole)
    refine hlinked''.pointing hsound' hnone
      { has := hall.has hscope
        hasOuter := fun other hother => hall.hasLink (houter other hother)
        hasLink := hlink
        site := by rw [hpoi, hsound.candidateScope?_of_grows hall hscope]
        dropped := ⟨dropped, ?_, fun other hother => ?_⟩ } fun next hnext => ?_
    · rw [hall.chainFrom houter, hchain, hpoi]
    · obtain ⟨site, hsite, hseen⟩ := hsees other hother
      exact ⟨site, by rw [hbuilt.1.poi (hasLink_of_site hsite), hsite], hbuilt.1.sees hseen⟩
    · rw [hpoi] at hnext
      exact (hstops next hnext).of_grows hbuilt.1 (hlinked'.hasLink_of_isChain (Nat.le_refl _)
        (hlinked'.isChain_of_append (Nat.le_refl _) hwhole) (List.mem_of_mem_head? hnext))

/-- Finding an instantiation point records nothing of nearest declarations. -/
theorem innermost_of_instantiationPoint (hserves : program.Serves keeps) (hkeeps : keeps context)
    {scope : ScopeId} (hscope : context.Has scope) {outer : Option PoiId} {link : PoiId}
    {later : Context} (hrun : program.instantiationPoint scope outer context = some (link, later)) :
    later.innermost = context.innermost := by
  unfold instantiationPoint at hrun
  obtain ⟨_, _, hget, hrest⟩ := bind_eq_some_iff.mp hrun
  cases hget
  cases hknown : context.poiOf.get? (scope, outer) with
  | some known =>
    rw [hknown] at hrest
    cases hrest
    rfl
  | none =>
    rw [hknown] at hrest
    obtain ⟨behind, middle, hdrop, hrest⟩ := bind_eq_some_iff.mp hrest
    obtain ⟨built, last, hbuild, hrest⟩ := bind_eq_some_iff.mp hrest
    cases hrest
    have hdropped := ((dropVisible_ends hserves hkeeps hscope _).of_run hdrop).1
    refine Eq.trans ?_ hdropped.1.sameInnermost
    unfold buildPoi at hbuild
    obtain ⟨_, _, hget, hbuild⟩ := bind_eq_some_iff.mp hbuild
    cases hget
    cases hsame : middle.builtPois.get? (candidateScope? context scope, behind.head?) with
    | some known =>
      rw [hsame] at hbuild
      cases hbuild
      rfl
    | none =>
      rw [hsame] at hbuild
      cases hbuild
      rfl

end Program

end Scoping
