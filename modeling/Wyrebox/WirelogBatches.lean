import Mathlib.Combinatorics.SimpleGraph.Connectivity.Connected
import Mathlib.Data.Prod.Lex
import Wyrebox.CatalogRuns
import Wyrebox.WirelogScope

set_option autoImplicit false

/-!
# Thread components and their batches

The scope of a thread refresh is the components that hold a changed message, each under the least
changed message in it. The batches are these components, each in one batch.
-/
namespace Wyrebox.WirelogScope
open RecursiveQuery Fallible KeysetPaging

/-- Messages are linked by a common key. -/
def linkGraph (links : List ThreadLink) : SimpleGraph CString where
  Adj messageId other := messageId ≠ other ∧ ∃ key, ⟨messageId, key⟩ ∈ links ∧ ⟨other, key⟩ ∈ links
  symm := ⟨fun _ _ ⟨hne, key, hlink, hother⟩ => ⟨hne.symm, key, hother, hlink⟩⟩
  loopless := ⟨fun _ h => h.1 rfl⟩

/-! ## What the recursion reaches -/

section
variable {links : List ThreadLink} {changed : List CString} {messageId other : CString}

theorem mem_linkTargets : other ∈ linkTargets links messageId ↔ (linkGraph links).Adj messageId other := by
  rw [linkTargets, List.mem_flatMap]
  constructor
  · rintro ⟨source, hsource, h⟩
    split at h
    · rename_i hid
      obtain ⟨target, htarget, rfl⟩ := List.mem_map.mp h
      obtain ⟨htarget, hboth⟩ := List.mem_filter.mp htarget
      obtain ⟨hkey, hne⟩ := of_decide_eq_true hboth
      subst hid
      exact ⟨hne, source.linkKey, hsource, hkey ▸ htarget⟩
    · cases h
  · rintro ⟨hne, key, hlink, hother⟩
    refine ⟨_, hlink, ?_⟩
    rw [if_pos rfl]
    exact List.mem_map.mpr ⟨⟨other, key⟩, List.mem_filter.mpr ⟨hother, decide_eq_true ⟨rfl, hne⟩⟩, rfl⟩

theorem reaches_iff {row : CString × CString} :
    Reaches (reachStep links) (messageId, messageId) row ↔
      row.1 = messageId ∧ (linkGraph links).Reachable messageId row.2 := by
  rw [SimpleGraph.reachable_iff_reflTransGen]
  constructor
  · intro h
    induction h with
    | refl => exact ⟨rfl, .refl⟩
    | tail _ hstep ih =>
      obtain ⟨target, htarget, rfl⟩ := List.mem_map.mp hstep
      exact ⟨ih.1, ih.2.tail (mem_linkTargets.mp htarget)⟩
  · obtain ⟨seed, target⟩ := row
    rintro ⟨hseed, h⟩
    change seed = messageId at hseed
    change Relation.ReflTransGen (linkGraph links).Adj messageId target at h
    subst hseed
    induction h with
    | refl => exact .refl
    | tail _ hadj ih => exact ih.tail (List.mem_map.mpr ⟨_, mem_linkTargets.mpr hadj, rfl⟩)

theorem mem_reach {row : CString × CString} :
    row ∈ reach links changed ↔ row.1 ∈ changed ∧ (linkGraph links).Reachable row.1 row.2 := by
  have hclosed : ∀ row ∈ reachDomain links changed, reachStep links row ⊆ reachDomain links changed := by
    intro row hrow next hnext
    obtain ⟨target, htarget, rfl⟩ := List.mem_map.mp hnext
    obtain ⟨-, key, -, hlink⟩ := mem_linkTargets.mp htarget
    rw [reachDomain, List.mem_product] at hrow ⊢
    exact ⟨hrow.1, List.mem_append_right _ (List.mem_map.mpr ⟨_, hlink, rfl⟩)⟩
  have hseeds : (changed.map fun messageId => (messageId, messageId)) ⊆ reachDomain links changed := by
    intro row hrow
    obtain ⟨messageId, hmem, rfl⟩ := List.mem_map.mp hrow
    exact List.mem_product.mpr ⟨hmem, List.mem_append_left _ hmem⟩
  rw [reach, mem_recursion_iff hclosed hseeds (Nat.lt_succ_self _)]
  constructor
  · rintro ⟨seed, hseed, hreaches⟩
    obtain ⟨messageId, hmem, rfl⟩ := List.mem_map.mp hseed
    obtain ⟨hsame, hreachable⟩ := reaches_iff.mp hreaches
    exact ⟨hsame ▸ hmem, hsame ▸ hreachable⟩
  · rintro ⟨hmem, hreachable⟩
    exact ⟨_, List.mem_map.mpr ⟨row.1, hmem, rfl⟩, reaches_iff.mpr ⟨rfl, hreachable⟩⟩

end

/-! ## The rows of the scope -/

section
variable {t : Tables} {links : List ThreadLink} {since : ℕ} {component messageId : CString}

/-- The component of a message is the least changed message that is connected to it. -/
theorem mem_threadScope : (component, messageId) ∈ threadScope t links since ↔
    isExisting t messageId = true ∧ (component ∈ changedMessages t since ∧
      (linkGraph links).Reachable component messageId) ∧
        ∀ seed ∈ changedMessages t since, (linkGraph links).Reachable seed messageId → component ≤ seed := by
  have hseeds : ∀ seed, seed ∈ ((reach links (changedMessages t since)).filter fun row => row.2 = messageId).map
      Prod.fst ↔ seed ∈ changedMessages t since ∧ (linkGraph links).Reachable seed messageId := by
    intro seed
    rw [List.mem_map]
    constructor
    · rintro ⟨⟨first, second⟩, hrow, rfl⟩
      obtain ⟨hreach, hsecond⟩ := List.mem_filter.mp hrow
      have hsame : second = messageId := of_decide_eq_true hsecond
      subst hsame
      exact mem_reach.mp hreach
    · intro h
      exact ⟨(seed, messageId), List.mem_filter.mpr ⟨mem_reach.mpr h, decide_eq_true rfl⟩, rfl⟩
  have hmin : ((((reach links (changedMessages t since)).filter fun row => row.2 = messageId).map Prod.fst).min? =
      some component) ↔ (component ∈ changedMessages t since ∧ (linkGraph links).Reachable component messageId) ∧
        ∀ seed ∈ changedMessages t since, (linkGraph links).Reachable seed messageId → component ≤ seed := by
    rw [List.min?_eq_some_iff, hseeds]
    refine and_congr_right fun _ => forall_congr' fun seed => ?_
    rw [hseeds, and_imp]
  rw [threadScope, List.mem_filterMap, ← hmin]
  constructor
  · rintro ⟨other, hother, h⟩
    obtain ⟨found, hfound, heq⟩ := Option.map_eq_some_iff.mp h
    obtain ⟨rfl, rfl⟩ := Prod.mk.inj heq
    exact ⟨(List.mem_filter.mp hother).2, hfound⟩
  · rintro ⟨hexisting, hfound⟩
    refine ⟨messageId, List.mem_filter.mpr ⟨List.mem_dedup.mpr ?_, hexisting⟩, by rw [hfound]; rfl⟩
    exact List.mem_map.mpr ⟨(component, messageId), mem_reach.mpr (hmin.mp hfound).1, rfl⟩

theorem exists_component {seed : CString} (hexisting : isExisting t messageId = true)
    (hseed : seed ∈ changedMessages t since) (hreachable : (linkGraph links).Reachable seed messageId) :
    ∃ component, (component, messageId) ∈ threadScope t links since := by
  have hmem : (seed, messageId) ∈ reach links (changedMessages t since) := mem_reach.mpr ⟨hseed, hreachable⟩
  have hne : ((reach links (changedMessages t since)).filter fun row => row.2 = messageId).map Prod.fst ≠ [] :=
    List.ne_nil_of_mem (List.mem_map.mpr ⟨_, List.mem_filter.mpr ⟨hmem, decide_eq_true rfl⟩, rfl⟩)
  obtain ⟨component, hcomponent⟩ := Option.ne_none_iff_exists'.mp (mt List.min?_eq_none_iff.mp hne)
  refine ⟨component, List.mem_filterMap.mpr ⟨messageId, List.mem_filter.mpr ⟨?_, hexisting⟩, by rw [hcomponent]; rfl⟩⟩
  exact List.mem_dedup.mpr (List.mem_map.mpr ⟨_, hmem, rfl⟩)

/-- Connected messages have the same component, and no others do. -/
theorem component_eq_iff {component' messageId' : CString} (h : (component, messageId) ∈ threadScope t links since)
    (h' : (component', messageId') ∈ threadScope t links since) :
    component = component' ↔ (linkGraph links).Reachable messageId messageId' := by
  obtain ⟨-, ⟨hmem, hreachable⟩, hleast⟩ := mem_threadScope.mp h
  obtain ⟨-, ⟨hmem', hreachable'⟩, hleast'⟩ := mem_threadScope.mp h'
  constructor
  · rintro rfl
    exact hreachable.symm.trans hreachable'
  · intro hboth
    exact le_antisymm (hleast _ hmem' (hreachable'.trans hboth.symm)) (hleast' _ hmem (hreachable.trans hboth))

theorem threadScope_nodup (t : Tables) (links : List ThreadLink) (since : ℕ) :
    ((threadScope t links since).map Prod.snd).Nodup := by
  have hsublist : ∀ (least : CString → Option CString) (ids : List CString),
      ((ids.filterMap fun messageId => (least messageId).map fun component =>
        (component, messageId)).map Prod.snd).Sublist ids := by
    intro least ids
    induction ids with
    | nil => exact .slnil
    | cons messageId ids ih =>
      rw [List.filterMap_cons]
      cases least messageId with
      | none => exact ih.cons _
      | some component => exact ih.cons_cons _
  exact (hsublist _ _).nodup ((List.nodup_dedup _).filter _)

end

/-! ## Batches -/

section
variable {scope : List (CString × CString)} {batchSize fuel : ℕ} {cursor : CString}

theorem rowLe_iff {row other : CString × CString} : rowLe row other = true ↔ toLex row ≤ toLex other := by
  rw [rowLe, decide_eq_true_eq, Prod.Lex.toLex_le_toLex]

def sortedRows (scope : List (CString × CString)) : List (CString × CString) := scope.mergeSort rowLe

theorem sortedRows_pairwise_le (scope : List (CString × CString)) :
    (sortedRows scope).Pairwise fun row other => rowLe row other = true := by
  refine List.pairwise_mergeSort (fun row other third h h' => ?_) (fun row other => ?_) scope
  · rw [rowLe_iff] at *
    exact h.trans h'
  · rw [Bool.or_eq_true, rowLe_iff, rowLe_iff]
    exact le_total _ _

theorem sortedRows_pairwise (hnodup : scope.Nodup) : (sortedRows scope).Pairwise Before := by
  have hsorted := sortedRows_pairwise_le scope
  have hdistinct : (sortedRows scope).Pairwise (· ≠ ·) := (List.mergeSort_perm scope rowLe).nodup_iff.mpr hnodup
  refine (hsorted.and hdistinct).imp fun {row other} h => ?_
  obtain hlt | ⟨hsame, hle⟩ := of_decide_eq_true h.1
  · exact .inl hlt
  · exact .inr ⟨hsame, lt_of_le_of_ne hle fun heq => h.2 (Prod.ext hsame heq)⟩

/-- Sorting what a condition keeps is keeping it of what is sorted. -/
theorem mergeSort_filter (scope : List (CString × CString)) (p : CString × CString → Bool) :
    (scope.filter p).mergeSort rowLe = (sortedRows scope).filter p := by
  refine List.Perm.eq_of_pairwise (fun row other _ _ h h' => ?_) (sortedRows_pairwise_le (scope.filter p))
    ((sortedRows_pairwise_le scope).filter p) ?_
  · rw [rowLe_iff] at h h'
    exact toLex.injective (le_antisymm h h')
  · exact (List.mergeSort_perm _ _).trans ((List.mergeSort_perm scope rowLe).filter p).symm

theorem rest_eq (scope : List (CString × CString)) (last : CString × CString) :
    ((scope.filter fun row => row.1 = last.1 ∧ last.2 < row.2).map Prod.snd).mergeSort
        (fun messageId other => messageId ≤ other) =
      ((sortedRows scope).filter fun row => row.1 = last.1 ∧ last.2 < row.2).map Prod.snd := by
  have hsorted := @List.pairwise_mergeSort _ (fun messageId other : CString => decide (messageId ≤ other))
    (fun _ _ _ h h' => decide_eq_true ((of_decide_eq_true h).trans (of_decide_eq_true h')))
    (fun messageId other => by
      rw [Bool.or_eq_true, decide_eq_true_eq, decide_eq_true_eq]
      exact le_total _ _)
    ((scope.filter fun row => row.1 = last.1 ∧ last.2 < row.2).map Prod.snd)
  refine List.Perm.eq_of_pairwise (fun messageId other _ _ h h' => ?_) hsorted ?_ ?_
  · exact le_antisymm (of_decide_eq_true h) (of_decide_eq_true h')
  -- the rows that are left have one component, so they are in the order of their messages
  · refine List.pairwise_map.mpr (((sortedRows_pairwise_le scope).filter _).imp_of_mem fun {row other} hrow hother h => ?_)
    have hcomponent := (of_decide_eq_true (List.mem_filter.mp hrow).2).1
    have hcomponent' := (of_decide_eq_true (List.mem_filter.mp hother).2).1
    obtain hlt | ⟨-, hle⟩ := of_decide_eq_true h
    · exact absurd hlt (not_lt.mpr (hcomponent'.trans hcomponent.symm).le)
    · exact decide_eq_true hle
  · exact (List.mergeSort_perm _ _).trans (((List.mergeSort_perm scope rowLe).filter _).map _).symm

theorem nextRefreshBatch_eq (scope : List (CString × CString)) (batchSize : ℕ) (cursor : CString) :
    nextRefreshBatch scope batchSize cursor = (nextPage (sortedRows scope) batchSize cursor).getD (cursor, []) := by
  rw [nextRefreshBatch, nextPage, mergeSort_filter]
  cases hlast : (((sortedRows scope).filter fun row => cursor < row.1).take batchSize).getLast? with
  | none => rfl
  | some last =>
    have hrest := rest_eq scope last
    simp only [hrest, Option.map_some, Option.getD_some, List.map_append]
    refine congrArg _ (congrArg _ (congrArg _ (List.filter_congr fun row _ => ?_)))
    exact decide_eq_decide.mpr Iff.rfl

theorem nextPage_ne_nil {cursor' : CString} {page : List CString} (hnodup : scope.Nodup)
    (h : nextPage (sortedRows scope) batchSize cursor = some (cursor', page)) : page ≠ [] := by
  obtain ⟨⟨hlt, member, hmem⟩, rfl⟩ := nextPage_eq (sortedRows_pairwise hnodup) h
  exact List.ne_nil_of_mem (List.mem_map.mpr ⟨_, List.mem_filter.mpr ⟨hmem, decide_eq_true ⟨hlt, le_rfl⟩⟩, rfl⟩)

/-- The batches are the pages of the sorted scope. -/
theorem refreshBatches_eq_pages (hnodup : scope.Nodup) :
    refreshBatches scope batchSize fuel cursor = pages (sortedRows scope) batchSize fuel cursor := by
  induction fuel generalizing cursor with
  | zero => rfl
  | succ fuel ih =>
    rw [refreshBatches, pages, nextRefreshBatch_eq]
    cases hnext : nextPage (sortedRows scope) batchSize cursor with
    | none => rfl
    | some next =>
      obtain ⟨cursor', page⟩ := next
      have hpage := List.isEmpty_eq_false_iff.mpr (nextPage_ne_nil hnodup hnext)
      simp only [Option.getD_some, hpage, Bool.false_eq_true, if_false, ih]

theorem empty_le (s : CString) : CString.empty ≤ s := by
  change ([] : List ℕ) ≤ s.bytes.map UInt8.toNat
  exact not_lt.mp (List.not_lt_nil _)

theorem mem_members {low high : CString} {row : CString × CString} (hnodup : (scope.map Prod.snd).Nodup)
    (hrow : row ∈ scope) : row.2 ∈ members (sortedRows scope) low high ↔ low < row.1 ∧ row.1 ≤ high := by
  rw [members, List.mem_map]
  constructor
  · rintro ⟨other, hother, hsame⟩
    obtain ⟨hmem, hbetween⟩ := List.mem_filter.mp hother
    have hscope : other ∈ scope := (List.mergeSort_perm scope rowLe).mem_iff.mp hmem
    rw [List.inj_on_of_nodup_map hnodup hscope hrow hsame] at hbetween
    exact of_decide_eq_true hbetween
  · intro hbetween
    exact ⟨row, List.mem_filter.mpr ⟨(List.mergeSort_perm scope rowLe).mem_iff.mpr hrow, decide_eq_true hbetween⟩, rfl⟩

/-- The loop ends; its batches hold every row once, and whole components. -/
theorem refreshBatches_partition (hnodup : (scope.map Prod.snd).Nodup) (hne : ∀ row ∈ scope, row.1 ≠ .empty)
    (hsize : 0 < batchSize) :
    ∃ batches, refreshBatches scope batchSize (scope.length + 1) .empty = some batches ∧
      batches.flatten.Perm (scope.map Prod.snd) ∧ (∀ batch ∈ batches, batch ≠ []) ∧
      ∀ batch ∈ batches, ∀ row ∈ scope, ∀ row' ∈ scope, row.1 = row'.1 → (row.2 ∈ batch ↔ row'.2 ∈ batch) := by
  have hsorted := sortedRows_pairwise (List.Nodup.of_map _ hnodup)
  have hperm := List.mergeSort_perm scope rowLe
  -- the loop starts before every component
  have hall : ((sortedRows scope).filter fun row => (CString.empty : CString) < row.1) = sortedRows scope := by
    refine List.filter_eq_self.mpr fun row hrow => decide_eq_true (lt_of_le_of_ne (empty_le row.1) ?_)
    exact (hne row (hperm.mem_iff.mp hrow)).symm
  have hlength : (sortedRows scope).length = scope.length := hperm.length_eq
  obtain ⟨batches, hbatches, hflatten, hpages⟩ := @pages_eq _ _ _ _ (sortedRows scope) batchSize (scope.length + 1)
    .empty hsorted hsize (by rw [hall, hlength]; exact Nat.lt_succ_self _)
  refine ⟨batches, (refreshBatches_eq_pages (List.Nodup.of_map _ hnodup)).trans hbatches, ?_,
    fun batch hbatch => (hpages batch hbatch).1, fun batch hbatch row hrow row' hrow' hsame => ?_⟩
  · rw [hflatten, hall]
    exact hperm.map _
  · obtain ⟨-, low, high, rfl⟩ := hpages batch hbatch
    rw [mem_members hnodup hrow, mem_members hnodup hrow', hsame]

end

/-! ## The batches of a thread refresh -/

section
variable {t : Tables} {links : List ThreadLink}

theorem threadLinks_ne {rows : List FactRow} (hrows : ∀ row ∈ rows, ∀ args, row.args = some args → args ≠ [] →
      row.messageId ≠ .empty) (h : threadLinks rows = .ok links) : ∀ link ∈ links, link.messageId ≠ .empty := by
  induction rows generalizing links with
  | nil =>
    cases h
    exact fun link hlink => by cases hlink
  | cons row rows ih =>
    rw [List.forall_mem_cons] at hrows
    rw [threadLinks] at h
    split at h
    · cases h
    · rename_i first key args hargs
      obtain ⟨later, hlater, hlinks⟩ := bind_eq_ok.mp h
      cases hlinks
      rw [List.forall_mem_cons]
      exact ⟨hrows.1 _ hargs (List.cons_ne_nil _ _), ih hrows.2 hlater⟩
    · exact ih hrows.2 h

theorem fillThreadLinks_ne {full : Bool} {since : ℕ} (h : fillThreadLinks t full since = .ok links) :
    ∀ link ∈ links, link.messageId ≠ .empty :=
  threadLinks_ne (fun row hrow => t.fact_id_ne row (List.mem_of_mem_filter hrow)) h

/-- The cursor of the first batch is before every component. -/
theorem component_ne {since : ℕ} {row : CString × CString} (hlinks : ∀ link ∈ links, link.messageId ≠ .empty)
    (hrow : row ∈ threadScope t links since) : row.1 ≠ .empty := by
  obtain ⟨hexisting, ⟨-, hreachable⟩, -⟩ := mem_threadScope.mp hrow
  intro hempty
  rw [hempty, SimpleGraph.reachable_iff_reflTransGen] at hreachable
  obtain hself | ⟨other, ⟨-, key, hlink, -⟩, -⟩ := hreachable.cases_head
  · obtain ⟨message, hmessage, hid⟩ := List.any_eq_true.mp hexisting
    exact t.message_id_ne message hmessage ((of_decide_eq_true hid).trans hself.symm)
  · exact hlinks _ hlink rfl

end

/-- Every thread of the scope is in one batch. -/
theorem thread_batches (t : Tables) {full : Bool} {since : ℕ} {links : List ThreadLink} {batchSize : ℕ}
    (hlinks : fillThreadLinks t full since = .ok links) (hsize : 0 < batchSize) :
    ∃ scope batches, fillRefreshScope t .thread full since = .ok scope ∧
      (∀ messageId, messageId ∈ scope.map Prod.snd ↔ isExisting t messageId = true ∧
        ∃ changed ∈ changedMessages t (if full then 0 else since), (linkGraph links).Reachable changed messageId) ∧
      refreshBatches scope batchSize (scope.length + 1) .empty = some batches ∧
      (batches.flatten.Perm (scope.map Prod.snd) ∧ batches.flatten.Nodup) ∧
      (∀ batch ∈ batches, ∀ messageId ∈ scope.map Prod.snd, ∀ other ∈ scope.map Prod.snd,
        (linkGraph links).Reachable messageId other → (messageId ∈ batch ↔ other ∈ batch)) ∧
      ∀ batch ∈ batches, batch ≠ [] := by
  have hnodup := threadScope_nodup t links (if full then 0 else since)
  obtain ⟨batches, hbatches, hperm, hne, hwhole⟩ := refreshBatches_partition hnodup
    (fun row hrow => component_ne (fillThreadLinks_ne hlinks) hrow) hsize
  refine ⟨_, batches, by rw [fillRefreshScope, hlinks]; rfl, fun messageId => ?_, hbatches,
    ⟨hperm, hperm.nodup_iff.mpr hnodup⟩, fun batch hbatch messageId hmem other hother hreachable => ?_, hne⟩
  · constructor
    · intro hmem
      obtain ⟨row, hrow, rfl⟩ := List.mem_map.mp hmem
      obtain ⟨hexisting, ⟨hchanged, hreachable⟩, -⟩ := mem_threadScope.mp hrow
      exact ⟨hexisting, row.1, hchanged, hreachable⟩
    · rintro ⟨hexisting, changed, hchanged, hreachable⟩
      obtain ⟨component, hrow⟩ := exists_component hexisting hchanged hreachable
      exact List.mem_map.mpr ⟨_, hrow, rfl⟩
  · obtain ⟨row, hrow, rfl⟩ := List.mem_map.mp hmem
    obtain ⟨row', hrow', rfl⟩ := List.mem_map.mp hother
    exact hwhole batch hbatch row hrow row' hrow' ((component_eq_iff hrow hrow').mpr hreachable)

/-! ## The tables of a reached world -/

open Catalog CatalogRuns RecordWrites

/-- The rows of an account. Arguments that materialization wrote are read back. -/
structure RowsOf (w : World) (account : CString) (messages : List MessageRow) (facts : List FactRow) : Prop where
  messages : ∀ row ∈ messages, ∃ message, (w.tables account).messages row.messageId = some message ∧
    row.journalSequence = message.position.sequence
  facts : ∀ row ∈ facts, ∃ id fact, w.catalog.facts id = some fact ∧ fact.accountId = account ∧
    row = ⟨fact.messageId, id.predicate, some id.args, fact.retractedAtUnixUs, fact.position.sequence⟩

/-- What a refresh of the account reads: materialization stores no message under an empty id, and a fact is
    about the message that its first argument names. -/
def tablesOf {seed : Provisioned} {w : World} {account : CString} {messages : List MessageRow} {facts : List FactRow}
    (hsound : SoundWorld seed w) (hkeyed : Keyed w.catalog.facts) (hrows : RowsOf w account messages facts)
    (memberships : List MembershipRow) : Tables where
  messages := messages
  facts := facts
  memberships := memberships
  message_id_ne := by
    intro row hrow
    obtain ⟨message, hmessage, -⟩ := hrows.messages row hrow
    exact ((hsound account).stored.messages _ _ hmessage).1
  fact_id_ne := by
    intro row hrow args hargs hne
    obtain ⟨id, fact, hfact, -, rfl⟩ := hrows.facts row hrow
    cases hargs
    obtain ⟨hmessage, hfilled⟩ := hkeyed id fact hfact
    obtain ⟨first, rest, hfirst⟩ := List.exists_cons_of_ne_nil hne
    rw [hmessage, hfirst]
    exact hfilled first (hfirst ▸ List.mem_cons_self)

/-! ## A thread larger than a batch -/

/-- Three messages have a key in common, and one of them changed; the fourth stands alone. -/
def sampleTables : Tables where
  messages := [⟨.literal "a", 1⟩, ⟨.literal "b", 1⟩, ⟨.literal "c", 9⟩, ⟨.literal "d", 9⟩]
  facts := [⟨.literal "a", .literal "message_id", some [.literal "a", .literal "k"], 0, 1⟩,
    ⟨.literal "b", .literal "replies_to", some [.literal "b", .literal "k"], 0, 1⟩,
    ⟨.literal "c", .literal "references", some [.literal "c", .literal "k"], 0, 9⟩]
  memberships := []
  message_id_ne := by decide
  fact_id_ne := by
    intro row hrow args hargs _
    simp only [List.mem_cons, List.not_mem_nil, or_false] at hrow
    obtain rfl | rfl | rfl := hrow <;> decide

def sampleLinks : List ThreadLink :=
  [⟨.literal "a", .literal "k"⟩, ⟨.literal "b", .literal "k"⟩, ⟨.literal "c", .literal "k"⟩]

theorem thread_batches_sample : ∃ batches,
    refreshBatches [(.literal "d", .literal "d"), (.literal "c", .literal "c"), (.literal "c", .literal "a"),
      (.literal "c", .literal "b")] 1 5 .empty = some batches ∧
    batches.flatten.Nodup ∧ ∀ batch ∈ batches, .literal "a" ∈ batch → .literal "b" ∈ batch := by
  have hlinks : fillThreadLinks sampleTables false 5 = .ok sampleLinks := by decide
  have hvalue : fillRefreshScope sampleTables .thread false 5 = .ok [(.literal "d", .literal "d"),
      (.literal "c", .literal "c"), (.literal "c", .literal "a"), (.literal "c", .literal "b")] := by decide
  obtain ⟨scope, batches, hscope, -, hbatches, ⟨-, hnodup⟩, hwhole, -⟩ :=
    thread_batches sampleTables hlinks (by decide : 0 < 1)
  rw [hvalue, Except.ok.injEq] at hscope
  subst hscope
  have hadj : (linkGraph sampleLinks).Adj (.literal "a") (.literal "b") :=
    ⟨by decide, .literal "k", by decide, by decide⟩
  exact ⟨batches, hbatches, hnodup, fun batch hbatch h =>
    (hwhole batch hbatch _ (by decide) _ (by decide) hadj.reachable).mp h⟩

end Wyrebox.WirelogScope
