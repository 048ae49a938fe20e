import Mathlib.Data.List.Induction
import Wyrebox.DeliveryRuns

set_option autoImplicit false

/-!
# One account catching up

However often a replay of an account's records stops and starts again further back, it ends in
the rows that the records produce from an empty account.
-/
namespace Wyrebox.AccountCatchup
open Catalog Materializer Fallible AccountRows AccountReplay ReplayCells Reapplication FirstApplication
open JournalWriter (Position)

/-- Records as a journal holds those of one account. -/
structure Journaled (records : List ProjectionRecord) : Prop where
  ascending : records.Pairwise fun r s => r.position.sequence < s.position.sequence
  decoded : ∀ r ∈ records, Decoded r
  separate : ∀ r ∈ records, SeparateRecord r

lemma Journaled.sublist {records own : List ProjectionRecord} (h : Journaled own)
    (hsub : records.Sublist own) : Journaled records :=
  ⟨h.ascending.sublist hsub, fun r hr => h.decoded r (hsub.subset hr),
    fun r hr => h.separate r (hsub.subset hr)⟩

section
variable {seed : Provisioned} {account : CString} {records own more : List ProjectionRecord}
  {record : ProjectionRecord} {t t' final final' : AccountTables} {n m : ℕ}

lemma replayRows_append : replayRows seed account t (records ++ more) = .ok t' ↔
    ∃ t₁, replayRows seed account t records = .ok t₁ ∧ replayRows seed account t₁ more = .ok t' := by
  rw [replayRows, List.foldlM_append, bind_eq_ok]
  rfl

lemma replayRows_singleton : replayRows seed account t [record] = .ok t' ↔
    rows seed account t record = .ok t' := by
  rw [replayRows, List.foldlM_cons, bind_eq_ok]
  constructor
  · rintro ⟨t₁, hrows, hrest⟩
    cases hrest
    exact hrows
  · exact fun h => ⟨t', h, rfl⟩

lemma accountTables_wellFormed (seed : Provisioned) (account : CString) :
    WellFormed (seed.accountTables account) where
  ids_nodup := by simp [Provisioned.accountTables]
  uids_nodup := by simp [Provisioned.accountTables]
  uid_lt := by simp [Provisioned.accountTables]
  uidnext_le := by simp [Provisioned.accountTables]
  derived_nodup := by simp [Provisioned.accountTables]

lemma replayRows_wellFormed (hdecoded : ∀ r ∈ records, Decoded r) (hseparate : ∀ r ∈ records, SeparateRecord r)
    (hw : WellFormed t) (h : replayRows seed account t records = .ok t') : WellFormed t' := by
  induction records generalizing t with
  | nil =>
    cases h
    exact hw
  | cons record records ih =>
    rw [List.forall_mem_cons] at hdecoded hseparate
    rw [replayRows, List.foldlM_cons, bind_eq_ok] at h
    obtain ⟨t₁, hfirst, hrest⟩ := h
    exact ih hdecoded.2 hseparate.2 (rows_first hdecoded.1 hseparate.1 hw hfirst).wellFormed hrest

/-- A replay leaves all its records applied. -/
lemma replay_applied (hj : Journaled records)
    (h : replayRows seed account (seed.accountTables account) records = .ok t) :
    WellFormed t ∧ ∀ r ∈ records, Applied account t r := by
  induction records using List.reverseRecOn generalizing t with
  | nil =>
    cases h
    exact ⟨accountTables_wellFormed seed account, by simp⟩
  | append_singleton records record ih =>
    obtain ⟨t₁, hfirst, hlast⟩ := replayRows_append.mp h
    rw [replayRows_singleton] at hlast
    obtain ⟨hw, happlied⟩ := ih (hj.sublist (List.sublist_append_left _ _)) hfirst
    have hmem : record ∈ records ++ [record] := List.mem_append_right _ (List.mem_singleton_self _)
    have hnew := rows_first (hj.decoded record hmem) (hj.separate record hmem) hw hlast
    refine ⟨hnew.wellFormed, fun r hr => ?_⟩
    rcases List.mem_append.mp hr with hold | heq
    · exact (happlied r hold).extends hnew.extended hw hnew.wellFormed
        ((List.pairwise_append.mp hj.ascending).2.2 r hold record (List.mem_singleton_self _))
    · rw [List.mem_singleton.mp heq]
      exact hnew.applied

/-- The rows of an account whose first records are applied and whose replay has come to record `n`
    again. -/
structure Standing (seed : Provisioned) (account : CString) (records : List ProjectionRecord) (n : ℕ)
    (t final : AccountTables) : Prop where
  replayed : replayRows seed account (seed.accountTables account) records = .ok final
  core_eq : core t = core final
  resumable : Resumable (records.map (effect final)) n (cells t) (cells final)

lemma Standing.wellFormed (h : Standing seed account records n t final) (hj : Journaled records) :
    WellFormed t :=
  wellFormed_of_core h.core_eq.symm (replay_applied hj h.replayed).1

/-- One more record is applied again. -/
lemma Standing.next (h : Standing seed account records n t final) (hj : Journaled records)
    (hn : records[n]? = some record) :
    ∃ t', rows seed account t record = .ok t' ∧ Standing seed account records (n + 1) t' final := by
  obtain ⟨hw, happlied⟩ := replay_applied hj h.replayed
  have hmem : record ∈ records := List.mem_of_getElem? hn
  have hw' := h.wellFormed hj
  have he : Extends ⟨0, record.position.sequence + 1⟩ (fun _ _ => True) final t :=
    extends_of_core h.core_eq.symm
  have hrecord := (happlied record hmem).extends he hw hw' (Nat.lt_succ_self _)
  obtain ⟨t', hrows, hcore, hcells⟩ := @rows_applied t seed account record (hj.decoded record hmem) hw' hrecord
  refine ⟨t', hrows, h.replayed, hcore.trans h.core_eq, ?_⟩
  rw [hcells, effect_extends he hw hw' (happlied record hmem)]
  exact h.resumable.next (by rw [List.getElem?_map, hn, Option.map_some])

lemma Standing.finished (h : Standing seed account records n t final) (hj : Journaled records)
    (hn : records.length ≤ n) : t = final :=
  core_cells_ext (h.wellFormed hj) h.core_eq (h.resumable.finished (by rwa [List.length_map]))

/-- The first record that was not applied yet is applied. -/
lemma Standing.first (h : Standing seed account records records.length t final)
    (hj : Journaled (records ++ [record])) (hrows : rows seed account final record = .ok final') :
    Standing seed account (records ++ [record]) (records.length + 1) final' final' := by
  have hj' := hj.sublist (List.sublist_append_left records [record])
  obtain ⟨hw, happlied⟩ := replay_applied hj' h.replayed
  have hmem : record ∈ records ++ [record] := List.mem_append_right _ (List.mem_singleton_self _)
  have hnew := rows_first (hj.decoded record hmem) (hj.separate record hmem) hw hrows
  have heffects : records.map (effect final') = records.map (effect final) := by
    apply List.map_congr_left
    intro r hr
    exact effect_extends hnew.extended hw hnew.wellFormed (happlied r hr)
  have hstart : Resumable (records.map (effect final)) (records.map (effect final)).length
      (cells final) (cells final) := by
    have hresumable := h.resumable
    rwa [h.finished hj' (le_refl _), ← List.length_map (f := effect final)] at hresumable
  refine ⟨replayRows_append.mpr ⟨final, h.replayed, replayRows_singleton.mpr hrows⟩, rfl, ?_⟩
  have hcells : ∀ cell, cells final' cell = (effect final' record).apply (cells final) cell ∨
      ((∀ e ∈ records.map (effect final), e cell = .keep) ∧ effect final' record cell = .keep) := by
    intro cell
    rcases hnew.cells cell with hsame | ⟨table, membershipId, name, rfl, hfresh, hkeep⟩
    · exact .inl hsame
    · refine .inr ⟨?_, hkeep⟩
      intro e he
      obtain ⟨r, hr, rfl⟩ := List.mem_map.mp he
      exact effect_flag_of_not_mem hw (happlied r hr) hfresh table name
  have hfirst := hstart.first hcells
  rw [List.length_map] at hfirst
  rwa [List.map_append, heffects, List.map_singleton]

/-! ## Catching up -/

/-- The account has come to its record `n`; it may have been further before. -/
def Caught (seed : Provisioned) (account : CString) (own : List ProjectionRecord) (n : ℕ)
    (t : AccountTables) : Prop :=
  ∃ e final, n ≤ e ∧ e ≤ own.length ∧ Standing seed account (own.take e) n t final

lemma caught_start (seed : Provisioned) (account : CString) (own : List ProjectionRecord) :
    Caught seed account own 0 (seed.accountTables account) :=
  ⟨0, seed.accountTables account, le_refl 0, Nat.zero_le _, rfl, rfl, resumable_nil _⟩

lemma Caught.restart (h : Caught seed account own n t) (hm : m ≤ n) : Caught seed account own m t := by
  obtain ⟨e, final, hn, he, hs⟩ := h
  exact ⟨e, final, hm.trans hn, he, hs.replayed, hs.core_eq, hs.resumable.restart hm⟩

lemma Caught.wellFormed (h : Caught seed account own n t) (hj : Journaled own) : WellFormed t := by
  obtain ⟨e, final, -, -, hs⟩ := h
  exact hs.wellFormed (hj.sublist (List.take_sublist _ _))

lemma Caught.next (h : Caught seed account own n t) (hj : Journaled own)
    (htotal : replayRows seed account (seed.accountTables account) own = .ok final')
    (hn : own[n]? = some record) :
    ∃ t', rows seed account t record = .ok t' ∧ Caught seed account own (n + 1) t' := by
  obtain ⟨e, final, hne, he, hs⟩ := h
  have hj' := hj.sublist (List.take_sublist e own)
  rcases Nat.lt_or_eq_of_le hne with hagain | rfl
  · obtain ⟨t', hrows, hs'⟩ := hs.next hj' (by rwa [List.getElem?_take_of_lt hagain])
    exact ⟨t', hrows, e, final, hagain, he, hs'⟩
  · obtain ⟨hlt, hget⟩ := List.getElem?_eq_some_iff.mp hn
    have hlength : (own.take n).length = n := List.length_take_of_le he
    have htake : own.take (n + 1) = own.take n ++ [record] := by
      rw [List.take_add_one, hn, Option.toList_some]
    have hsplit := List.take_append_drop (n + 1) own
    rw [← hsplit, htake, List.append_assoc] at htotal
    obtain ⟨_, hreplayed, hrest⟩ := replayRows_append.mp htotal
    rw [hs.replayed] at hreplayed
    cases hreplayed
    obtain ⟨t', hrows, -⟩ := replayRows_append.mp hrest
    rw [replayRows_singleton] at hrows
    have hsame : t = final := hs.finished hj' (le_of_eq hlength)
    subst hsame
    have hfirst := @Standing.first seed account (own.take n) record t t t' (by rwa [hlength])
      (htake ▸ hj.sublist (List.take_sublist _ _)) hrows
    rw [hlength, ← htake] at hfirst
    exact ⟨t', hrows, n + 1, t', le_refl _, hlt, hfirst⟩

/-- Consecutive records of the account are accepted and bring it further. -/
theorem Caught.replay (h : Caught seed account own n t) (hj : Journaled own)
    (htotal : replayRows seed account (seed.accountTables account) own = .ok final')
    (hnext : own.drop n = records ++ more) :
    ∃ t', replayRows seed account t records = .ok t' ∧ Caught seed account own (n + records.length) t' := by
  induction records generalizing n t with
  | nil => exact ⟨t, rfl, h⟩
  | cons record records ih =>
    have hn : own[n]? = some record := by
      have hhead := congrArg (·[0]?) hnext
      simpa using hhead
    obtain ⟨t₁, hrows, hcaught⟩ := h.next hj htotal hn
    have hdrop : own.drop (n + 1) = records ++ more := by
      rw [← List.drop_drop, hnext]
      rfl
    obtain ⟨t', hreplay, hcaught'⟩ := ih hcaught hdrop
    refine ⟨t', ?_, ?_⟩
    · rw [replayRows, List.foldlM_cons, bind_eq_ok]
      exact ⟨t₁, hrows, hreplay⟩
    · rwa [List.length_cons, Nat.add_comm records.length, ← Nat.add_assoc]

/-- An account that has come to the end has the rows of one replay. -/
theorem Caught.finished (h : Caught seed account own n t) (hj : Journaled own) (hn : own.length ≤ n) :
    replayRows seed account (seed.accountTables account) own = .ok t := by
  obtain ⟨e, final, hne, he, hs⟩ := h
  have hall : own.take e = own := List.take_of_length_le (hn.trans hne)
  rw [hall] at hs
  rw [hs.finished hj hn]
  exact hs.replayed

/-- Until then its memberships and UID state are those of a replay of its first records. -/
theorem Caught.firstRecords (h : Caught seed account own n t) :
    ∃ records final, records <+: own ∧
      replayRows seed account (seed.accountTables account) records = .ok final ∧
      t.memberships = final.memberships ∧ t.uidState = final.uidState := by
  obtain ⟨e, final, -, -, hs⟩ := h
  obtain ⟨-, hmemberships, huidState, -⟩ := core_fields hs.core_eq
  exact ⟨own.take e, final, List.take_prefix _ _, hs.replayed, hmemberships.symm, huidState.symm⟩

end
end Wyrebox.AccountCatchup
