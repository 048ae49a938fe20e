import Wyrebox.ExtractionMarks
import Wyrebox.RefreshQueue

set_option autoImplicit false

/-!
# Fact extraction

The extractor appends a record for every message without an extraction row. The row appears only
when a later pass applies the record.
-/
namespace Wyrebox.FactExtraction
open Catalog Materializer Catchup MaterializationService Event
open PassInvariant CheckpointInvariant PassState DeliveryRuns Convergence RefreshQueue ExtractionMarks

/-! ## The extractor -/

/-- `list_pending_messages`: the messages without an extraction row, in journal order. -/
structure Pending (t : AccountTables) (messages : List CString) : Prop where
  mem_iff : ∀ messageId, messageId ∈ messages ↔ t.messages messageId ≠ none ∧ t.extractions messageId = none
  nodup : messages.Nodup
  sorted : messages.Pairwise fun a b => ∀ row row', t.messages a = some row → t.messages b = some row' →
    row.position.sequence ≤ row'.position.sequence

/-- What `extract_message` does: the record it appends, or a failure to read, parse, extract,
    encode or append. An append that cannot be synced fails with its record in the file. -/
inductive Outcome where
  | appended (extractedAtUnixUs : ℕ) (facts : List FactRecord) (size : ℕ)
  | unsynced (extractedAtUnixUs : ℕ) (facts : List FactRecord) (size : ℕ)
  | failed

def extractMessages (account : CString) (outcome : CString → Outcome) : List CString → Extraction
  | [] => ⟨[], true⟩
  | messageId :: messages =>
    match outcome messageId with
    | .failed => ⟨[], false⟩
    | .unsynced extractedAtUnixUs facts size =>
      ⟨[(.factsExtracted ⟨account, messageId, extractedAtUnixUs, facts⟩, size)], false⟩
    | .appended extractedAtUnixUs facts size =>
      let rest := extractMessages account outcome messages
      ⟨(.factsExtracted ⟨account, messageId, extractedAtUnixUs, facts⟩, size) :: rest.appended, rest.succeeded⟩

/-- `wyrebox_daemon_fact_extraction_extract_account` on the account's rows. -/
def ExtractsAccount (account : CString) (t : AccountTables) (extraction : Extraction) : Prop :=
  extraction = ⟨[], false⟩ ∨ ∃ messages outcome, Pending t messages ∧
    extraction = extractMessages account outcome messages

/-! ## One pass -/

section
variable {seed : Provisioned} {kind : PassKind} {w w' : World}

/-- What a pass applies and marks. -/
structure PassMarks (w w' : World) (result : Option Report) : Prop where
  log : w'.log = w.log
  pendingRefresh : w'.service.pendingRefresh = w.service.pendingRefresh
  hasExtract : w'.service.hasExtract = w.service.hasExtract
  applied : ∃ new, w'.applied = w.applied ++ new ∧ (∀ r ∈ new, r ∈ w.log.records) ∧
    ∀ key, Marked w'.catalog key ↔ Marked w.catalog key ∨ ∃ r ∈ new, extractionOf r = some key
  completed : ∀ report, result = some report → ∀ r ∈ w.log.records,
    r ∈ w'.applied ∨ isHeld report.holds (accountOf r)

theorem runPass_marks (seed : Provisioned) (env : Surroundings) (h : Sound w)
    (hahead : kind = .postIngest → CursorAhead w) :
    PassMarks w (runPass seed kind env w).1 (runPass seed kind env w).2 := by
  obtain ⟨hbehind, hinLog, hbefore⟩ := start_sound h hahead
  set resumeAfter := if kind = .postIngest then w.service.cursor else none with hresume
  have hprior : (if kind = .postIngest then w.service.holds else []) = priorHolds kind w := rfl
  have hassert : assertCursorHasHolds w = w := by
    rw [assertCursorHasHolds, if_neg]
    exact fun hfails => h.cursor_holds hfails.1 hfails.2
  unfold runPass
  simp only [servicePass, hassert, ← hresume, hprior]
  cases hrecords : passRecords env w.log w.catalog resumeAfter with
  | none =>
    rw [pass_eq_none _ _ _ _ _ _ hrecords]
    exact ⟨rfl, rfl, rfl, ⟨[], rfl, by simp, by simp⟩, by simp⟩
  | some records =>
    have hpending := passRecords_eq_some hrecords
    rw [pass_eq _ _ _ _ _ _ hrecords]
    have hinitial : Replayed (priorHolds kind w) w.catalog.checkpoint
        (startsAtCheckpoint w.catalog resumeAfter) [] ⟨w.catalog, priorHolds kind w, [], []⟩ :=
      ⟨by simp, by simp [committedRecords], ⟨[], by simp, by simp⟩, .inl rfl⟩
    obtain ⟨replayed, rest, hsplit, hreplayed, hcomplete⟩ := @Replayed.loop seed env _ _ _ _ _ hinitial
      (runs records) (by rw [runs_flatMap]; exact follows_of_pending hpending hbehind) runs_uniform
    have hmarked := @passLoop_marked seed w.catalog env (startsAtCheckpoint w.catalog resumeAfter)
      ⟨w.catalog, priorHolds kind w, [], []⟩ (runs records)
      (fun run hrun => ⟨runs_uniform run hrun, runs_sorted run hrun⟩) (by simp [committedRecords])
    rw [runs_flatMap] at hsplit
    rw [List.nil_append] at hreplayed
    generalize passLoop seed env (startsAtCheckpoint w.catalog resumeAfter)
      ⟨w.catalog, priorHolds kind w, [], []⟩ (runs records) = loop at hreplayed hcomplete hmarked ⊢
    obtain ⟨p, completed⟩ := loop
    simp only at hreplayed hcomplete hmarked ⊢
    have hs : Started kind w (startPosition w.catalog resumeAfter) records replayed rest
        (startsAtCheckpoint w.catalog resumeAfter) p :=
      ⟨hbehind, hinLog, hbefore, hpending, hsplit, hreplayed⟩
    refine ⟨rfl, rfl, rfl, ⟨committedRecords p, rfl, fun r hr => ?_, hmarked⟩, ?_⟩
    · exact hs.mem_log (hs.replayed_mem (hreplayed.committed_mem r hr))
    · intro report hreport r hr
      cases completed with
      | false => simp at hreport
      | true =>
        simp only [if_true, Option.some.injEq] at hreport
        subst hreport
        exact (hs.through_applied (hcomplete rfl) hr (mem_pending_or_atOrBefore hpending hr)).imp_left
          List.mem_append.mpr

/-! ## Extraction rows and records -/

/-- Applied extractions are marked, and what is marked has a record. -/
structure Traced (w : World) : Prop where
  applied_marked : ∀ r ∈ w.applied, ∀ key, extractionOf r = some key → Marked w.catalog key
  marked_recorded : ∀ key, Marked w.catalog key → ∃ r ∈ w.log.records, extractionOf r = some key
  pending_nodup : w.service.pendingRefresh.Nodup

lemma PassMarks.traced {result : Option Report} (h : PassMarks w w' result) (ht : Traced w) : Traced w' := by
  obtain ⟨new, happlied, hnew, hmarked⟩ := h.applied
  refine ⟨fun r hr key hkey => ?_, fun key hkey => ?_, h.pendingRefresh ▸ ht.pending_nodup⟩
  · rw [happlied] at hr
    rw [hmarked]
    rcases List.mem_append.mp hr with hold | hr
    · exact .inl (ht.applied_marked r hold key hkey)
    · exact .inr ⟨r, hr, hkey⟩
  · rw [h.log]
    rcases (hmarked key).mp hkey with hold | ⟨r, hr, hr'⟩
    · exact ht.marked_recorded key hold
    · exact ⟨r, hnew r hr, hr'⟩

/-- The journal grows, and what is applied and marked stays. -/
structure Keeps (w w' : World) : Prop where
  records : w.log.records <+: w'.log.records
  applied : w'.applied = w.applied
  extractions : ∀ account, (w'.catalog.tables account).extractions = (w.catalog.tables account).extractions

lemma Keeps.refl (w : World) : Keeps w w := ⟨List.prefix_refl _, rfl, fun _ => rfl⟩

lemma Keeps.trans {w'' : World} (h : Keeps w w') (h' : Keeps w' w'') : Keeps w w'' :=
  ⟨h.records.trans h'.records, h'.applied.trans h.applied,
    fun account => (h'.extractions account).trans (h.extractions account)⟩

lemma Keeps.marked (h : Keeps w w') (key : CString × CString) : Marked w'.catalog key ↔ Marked w.catalog key := by
  rw [Marked, Marked, h.extractions]

lemma Traced.keeps (ht : Traced w) (h : Keeps w w') (hnodup : w'.service.pendingRefresh.Nodup) : Traced w' := by
  refine ⟨fun r hr key hkey => ?_, fun key hkey => ?_, hnodup⟩
  · rw [h.applied] at hr
    exact (h.marked key).mpr (ht.applied_marked r hr key hkey)
  · obtain ⟨r, hr, hr'⟩ := ht.marked_recorded key ((h.marked key).mp hkey)
    exact ⟨r, h.records.subset hr, hr'⟩

/-! ## Counting the records of a message -/

def extractionCount (records : List ProjectionRecord) (key : CString × CString) : ℕ :=
  records.countP fun r => extractionOf r = some key

def eventKey (event : Event) : Option (CString × CString) := extractionOf ⟨⟨0, 0⟩, event⟩

lemma extractionOf_eq (r : ProjectionRecord) : extractionOf r = eventKey r.event := by
  obtain ⟨position, event⟩ := r
  cases event <;> rfl

lemma append_count (log : Log) (event : Option Event) (size : ℕ) (key : CString × CString) :
    extractionCount (log.append event size).records key =
      extractionCount log.records key + if event.bind eventKey = some key then 1 else 0 := by
  unfold extractionCount
  rw [Log.append, List.countP_append]
  cases event with
  | none => rfl
  | some event =>
    rw [Option.map_some, Option.toList_some, List.countP_singleton, extractionOf_eq]
    simp

lemma appendAll_count (w : World) (events : List (Event × ℕ)) (key : CString × CString) :
    extractionCount (w.appendAll events).log.records key =
      extractionCount w.log.records key + events.countP fun entry => eventKey entry.1 = some key := by
  have hfold : ∀ (events : List (Event × ℕ)) (log : Log),
      extractionCount (events.foldl (fun log entry => log.append (some entry.1) entry.2) log).records key =
        extractionCount log.records key + events.countP fun entry => eventKey entry.1 = some key := by
    intro events
    induction events with
    | nil => exact fun log => rfl
    | cons entry events ih =>
      intro log
      rw [List.foldl_cons, ih, append_count, List.countP_cons, Option.bind_some]
      simp only [decide_eq_true_eq]
      omega
  exact hfold events w.log

lemma extractMessages_count (account : CString) (outcome : CString → Outcome) (messages : List CString)
    (key : CString × CString) :
    ((extractMessages account outcome messages).appended.countP fun entry => eventKey entry.1 = some key) ≤
      if key.1 = account then messages.count key.2 else 0 := by
  induction messages with
  | nil => simp [extractMessages]
  | cons messageId messages ih =>
    have hone : ∀ (extractedAtUnixUs : ℕ) (facts : List FactRecord) (size : ℕ) (rest : List (Event × ℕ)),
        (rest.countP fun entry => eventKey entry.1 = some key) ≤ (if key.1 = account then messages.count key.2 else 0) →
        (((.factsExtracted ⟨account, messageId, extractedAtUnixUs, facts⟩, size) :: rest).countP
            fun entry => eventKey entry.1 = some key) ≤
          if key.1 = account then (messageId :: messages).count key.2 else 0 := by
      intro extractedAtUnixUs facts size rest hrest
      have hkey : eventKey (.factsExtracted ⟨account, messageId, extractedAtUnixUs, facts⟩) =
          some (account, messageId) := rfl
      rw [List.countP_cons, hkey]
      by_cases haccount : key.1 = account
      · rw [if_pos haccount] at hrest ⊢
        rw [List.count_cons]
        have hsame : some (account, messageId) = some key ↔ messageId = key.2 := by
          rw [Option.some.injEq, Prod.ext_iff, haccount]
          simp
        simp only [hsame, decide_eq_true_eq, beq_iff_eq]
        omega
      · rw [if_neg haccount] at hrest ⊢
        have hother : ¬some (account, messageId) = some key := fun heq =>
          haccount (congrArg Prod.fst (Option.some.inj heq)).symm
        simp only [hother, decide_false]
        simpa using hrest
    rw [extractMessages]
    cases outcome messageId with
    | failed => simp
    | unsynced extractedAtUnixUs facts size => exact hone extractedAtUnixUs facts size [] (Nat.zero_le _)
    | appended extractedAtUnixUs facts size => exact hone extractedAtUnixUs facts size _ ih

lemma extractMessages_succeeded {account : CString} {outcome : CString → Outcome} {messages : List CString}
    (h : (extractMessages account outcome messages).succeeded = true) :
    ∀ messageId ∈ messages, ∃ entry ∈ (extractMessages account outcome messages).appended,
      eventKey entry.1 = some (account, messageId) := by
  induction messages with
  | nil => simp
  | cons messageId messages ih =>
    rw [extractMessages] at h ⊢
    cases houtcome : outcome messageId with
    | failed =>
      rw [houtcome] at h
      simp at h
    | unsynced extractedAtUnixUs facts size =>
      rw [houtcome] at h
      simp at h
    | appended extractedAtUnixUs facts size =>
      rw [houtcome] at h
      refine List.forall_mem_cons.mpr ⟨⟨_, List.mem_cons_self, rfl⟩, fun other hother => ?_⟩
      obtain ⟨entry, hentry, hkey⟩ := ih h other hother
      exact ⟨entry, List.mem_cons_of_mem _ hentry, hkey⟩

/-! ## The extractions after a pass -/

variable {env : PassEnv} {report : Report}

lemma extractAccount_fst (progress : World × Bool) (account : CString) :
    Keeps progress.1 (extractAccount env progress account).1 ∧
      (extractAccount env progress account).1.catalog = progress.1.catalog ∧
      (extractAccount env progress account).1.service.pendingRefresh = progress.1.service.pendingRefresh ∧
      (extractAccount env progress account).1.log = (progress.1.appendAll (env.extract account).appended).log := by
  obtain ⟨w, appendedAny⟩ := progress
  have hrecords : w.log.records <+: (w.appendAll (env.extract account).appended).log.records :=
    Grows.records_within (grows_appendAll w _)
  change Keeps w (if (env.extract account).succeeded then _ else _) ∧ _
  unfold extractAccount
  dsimp only
  split
  · exact ⟨⟨hrecords, rfl, fun _ => rfl⟩, rfl, rfl, rfl⟩
  · exact ⟨⟨hrecords, rfl, fun _ => rfl⟩, rfl, rfl, rfl⟩

lemma foldl_extract_keeps (accounts : List CString) (progress : World × Bool) :
    Keeps progress.1 (accounts.foldl (extractAccount env) progress).1 ∧
      (accounts.foldl (extractAccount env) progress).1.service.pendingRefresh =
        progress.1.service.pendingRefresh := by
  induction accounts generalizing progress with
  | nil => exact ⟨.refl _, rfl⟩
  | cons account accounts ih =>
    obtain ⟨hkeeps, -, hpending, -⟩ := @extractAccount_fst env progress account
    obtain ⟨hrest, hrest'⟩ := ih (extractAccount env progress account)
    exact ⟨hkeeps.trans hrest, hrest'.trans hpending⟩

/-- An extraction adds at most one record for each message that has no extraction row. -/
lemma extracts_count {account : CString} {t : AccountTables} {extraction : Extraction}
    (h : ExtractsAccount account t extraction) (key : CString × CString) :
    (extraction.appended.countP fun entry => eventKey entry.1 = some key) ≤
      if key.1 = account ∧ t.extractions key.2 = none then 1 else 0 := by
  rcases h with rfl | ⟨messages, outcome, hpending, rfl⟩
  · simp
  · refine le_trans (extractMessages_count account outcome messages key) ?_
    by_cases haccount : key.1 = account
    · rw [if_pos haccount]
      by_cases hmem : key.2 ∈ messages
      · rw [if_pos ⟨haccount, ((hpending.mem_iff _).mp hmem).2⟩]
        exact List.nodup_iff_count_le_one.mp hpending.nodup key.2
      · rw [List.count_eq_zero_of_not_mem hmem]
        exact Nat.zero_le _
    · rw [if_neg haccount]
      exact Nat.zero_le _

/-- What the extractions of these accounts add to the records of a message. -/
def added (env : PassEnv) (accounts : List CString) (key : CString × CString) : ℕ :=
  if key.1 ∈ accounts then (env.extract key.1).appended.countP fun entry => eventKey entry.1 = some key else 0

lemma foldl_extract_count {accounts : List CString} {cat : Catalog} {progress : World × Bool} (hnodup : accounts.Nodup)
    (hextracts : ∀ account, ExtractsAccount account (cat.tables account) (env.extract account))
    (key : CString × CString) :
    extractionCount (accounts.foldl (extractAccount env) progress).1.log.records key =
      extractionCount progress.1.log.records key + added env accounts key := by
  induction accounts generalizing progress with
  | nil => simp [added]
  | cons account accounts ih =>
    obtain ⟨hfresh, hnodup⟩ := List.nodup_cons.mp hnodup
    obtain ⟨-, -, -, hlog⟩ := @extractAccount_fst env progress account
    rw [List.foldl_cons, ih hnodup, hlog, appendAll_count, Nat.add_assoc]
    congr 1
    unfold added
    by_cases haccount : key.1 = account
    · rw [haccount, if_neg hfresh, if_pos List.mem_cons_self, Nat.add_zero]
    · -- an extraction writes records of its own account only
      have hzero := extracts_count (hextracts account) key
      rw [if_neg fun hpair => haccount hpair.1, Nat.le_zero] at hzero
      rw [hzero, Nat.zero_add]
      simp [List.mem_cons, haccount]

/-- An account whose extraction succeeded has a record for each of its messages. -/
lemma foldl_extract_complete {accounts : List CString} {cat : Catalog} {progress : World × Bool}
    (hextracts : ∀ account, ExtractsAccount account (cat.tables account) (env.extract account))
    (hmarked : ∀ key, Marked cat key → ∃ r ∈ progress.1.log.records, extractionOf r = some key)
    {account messageId : CString} (hmem : account ∈ accounts) (hsucceeded : (env.extract account).succeeded = true)
    (hmessage : (cat.tables account).messages messageId ≠ none) :
    ∃ r ∈ (accounts.foldl (extractAccount env) progress).1.log.records,
      extractionOf r = some (account, messageId) := by
  obtain ⟨before, after, rfl⟩ := List.append_of_mem hmem
  rw [List.foldl_append, List.foldl_cons]
  have hbefore := (@foldl_extract_keeps env before progress).1.records
  generalize before.foldl (extractAccount env) progress = progress₁ at hbefore ⊢
  obtain ⟨hkeeps, -, -, hlog⟩ := @extractAccount_fst env progress₁ account
  have hafter := (@foldl_extract_keeps env after (extractAccount env progress₁ account)).1.records
  by_cases hnone : (cat.tables account).extractions messageId = none
  · rcases hextracts account with hfailed | ⟨messages, outcome, hpending, hextraction⟩
    · rw [hfailed] at hsucceeded
      simp at hsucceeded
    · rw [hextraction] at hsucceeded
      obtain ⟨entry, hentry, hkey⟩ :=
        extractMessages_succeeded hsucceeded messageId ((hpending.mem_iff _).mpr ⟨hmessage, hnone⟩)
      have hpositive : 0 < extractionCount (extractAccount env progress₁ account).1.log.records (account, messageId) := by
        rw [hlog, appendAll_count, hextraction]
        have hcounted : 0 < (extractMessages account outcome messages).appended.countP
            fun entry => eventKey entry.1 = some (account, messageId) :=
          List.countP_pos_iff.mpr ⟨entry, hentry, decide_eq_true hkey⟩
        omega
      obtain ⟨r, hr, hr'⟩ := List.countP_pos_iff.mp hpositive
      exact ⟨r, hafter.subset hr, of_decide_eq_true hr'⟩
  · obtain ⟨r, hr, hr'⟩ := hmarked (account, messageId) hnone
    exact ⟨r, hafter.subset (hkeeps.records.subset (hbefore.subset hr)), hr'⟩

/-! ## The whole pass -/

/-- The refreshes write no extraction row. -/
def KeepsRows (env : PassEnv) : Prop := ∀ account t, ((env.refresh account).tables t).extractions = t.extractions

/-- The refreshes journal no extraction. -/
def KeepsCount (env : PassEnv) : Prop := ∀ account, ∀ entry ∈ (env.refresh account).appended, eventKey entry.1 = none

/-- The catalog that the extractions of a pass read. -/
def readCatalog (seed : Provisioned) (kind : PassKind) (env : PassEnv) (w : World) : Catalog :=
  (runPass seed kind env.first w).1.catalog

/-- The accounts that `extractPending` takes up. -/
def extractionAccounts (report : Report) (w : World) : List CString :=
  if w.service.hasExtract then pendingUnheldAccounts report w.service else []

/-- The world in which the extractions of a completed pass start. -/
def extractionStart (report : Report) (w : World) : World :=
  (queueMaterializedAccounts report w).withService
    { (queueMaterializedAccounts report w).service with refreshHolds := [] }

/-- The accounts whose extraction a pass runs. -/
def extractionSteps (seed : Provisioned) (kind : PassKind) (env : PassEnv) (w : World) : List CString :=
  match runPass seed kind env.first w with
  | (_, none) => []
  | (w, some report) => extractionAccounts report (extractionStart report w)

lemma refreshAccount_keeps (hrows : KeepsRows env) (w : World) (account : CString) :
    Keeps w (refreshAccount env w account) ∧
      (w.service.pendingRefresh.Nodup → (refreshAccount env w account).service.pendingRefresh.Nodup) := by
  have hrecords : w.log.records <+: (w.appendAll (env.refresh account).appended).log.records :=
    Grows.records_within (grows_appendAll w _)
  have hextractions : ∀ other, (Function.update w.catalog.tables account
      ((env.refresh account).tables (w.catalog.tables account)) other).extractions =
      (w.catalog.tables other).extractions := by
    intro other
    by_cases hother : other = account
    · rw [hother, Function.update_self]
      exact hrows account _
    · rw [Function.update_of_ne hother]
  unfold refreshAccount
  dsimp only
  split
  · exact ⟨⟨hrecords, rfl, hextractions⟩, fun hnodup => hnodup.filter _⟩
  · exact ⟨⟨hrecords, rfl, hextractions⟩, id⟩

lemma refreshAccount_count (hcount : KeepsCount env) (w : World) (account : CString) (key : CString × CString) :
    extractionCount (refreshAccount env w account).log.records key = extractionCount w.log.records key := by
  have hlog : (refreshAccount env w account).log = (w.appendAll (env.refresh account).appended).log := by
    unfold refreshAccount
    dsimp only
    split <;> rfl
  have hzero : (env.refresh account).appended.countP (fun entry => eventKey entry.1 = some key) = 0 :=
    List.countP_eq_zero.mpr fun entry hentry => by simp [hcount account entry hentry]
  rw [hlog, appendAll_count, hzero, Nat.add_zero]

lemma refreshPending_keeps (hrows : KeepsRows env) (report : Report) (w : World) :
    Keeps w (refreshPending env report w) ∧
      (w.service.pendingRefresh.Nodup → (refreshPending env report w).service.pendingRefresh.Nodup) := by
  have hfold : ∀ (accounts : List CString) (w : World), Keeps w (accounts.foldl (refreshAccount env) w) ∧
      (w.service.pendingRefresh.Nodup → (accounts.foldl (refreshAccount env) w).service.pendingRefresh.Nodup) := by
    intro accounts
    induction accounts with
    | nil => exact fun w => ⟨.refl w, id⟩
    | cons account accounts ih =>
      intro w
      obtain ⟨hkeeps, hnodup⟩ := refreshAccount_keeps hrows w account
      obtain ⟨hkeeps', hnodup'⟩ := ih (refreshAccount env w account)
      exact ⟨hkeeps.trans hkeeps', fun h => hnodup' (hnodup h)⟩
  unfold refreshPending
  split
  · exact ⟨⟨List.prefix_refl _, rfl, fun _ => rfl⟩, fun hnodup => hnodup.filter _⟩
  · exact hfold _ w

lemma refreshPending_count (hcount : KeepsCount env) (report : Report) (w : World) (key : CString × CString) :
    extractionCount (refreshPending env report w).log.records key = extractionCount w.log.records key := by
  have hfold : ∀ (accounts : List CString) (w : World),
      extractionCount (accounts.foldl (refreshAccount env) w).log.records key =
        extractionCount w.log.records key := by
    intro accounts
    induction accounts with
    | nil => exact fun w => rfl
    | cons account accounts ih => exact fun w => (ih _).trans (refreshAccount_count hcount w account key)
  unfold refreshPending
  split
  · rfl
  · exact hfold _ w

lemma foldl_insert_nodup {accounts pending : List CString} (h : pending.Nodup) :
    (accounts.foldl (fun pending account => pending.insert account) pending).Nodup := by
  induction accounts generalizing pending with
  | nil => exact h
  | cons account accounts ih => exact ih h.insert

lemma queue_traced (h : Traced w) (report : Report) : Traced (queueMaterializedAccounts report w) :=
  h.keeps ⟨List.prefix_refl _, rfl, fun _ => rfl⟩ (foldl_insert_nodup h.pending_nodup)

/-- The accounts that are extracted are not held, and none is extracted twice. -/
lemma pendingUnheldAccounts_spec {service : Service} (h : service.pendingRefresh.Nodup) :
    (pendingUnheldAccounts report service).Nodup ∧
      ∀ account ∈ pendingUnheldAccounts report service, isHeld report.holds account = false := by
  constructor
  · exact (List.perm_insertionSort _ _).nodup_iff.mpr (h.filter _)
  · intro account hmem
    have hfilter := (List.mem_filter.mp ((List.mem_insertionSort _).mp hmem)).2
    rw [decide_eq_true_eq] at hfilter
    simpa using hfilter.1

/-- The extractions of a pass read what its first part left, and nothing else journals any. -/
structure Faithful (seed : Provisioned) (kind : PassKind) (env : PassEnv) (w : World) : Prop where
  count : KeepsCount env
  extracts : ∀ account, ExtractsAccount account ((readCatalog seed kind env w).tables account) (env.extract account)

/-- Every message of an account whose extraction succeeds has a record in the journal. -/
def Complete (seed : Provisioned) (kind : PassKind) (env : PassEnv) (w : World) (records : List ProjectionRecord) :
    Prop :=
  ∀ account ∈ extractionSteps seed kind env w, (env.extract account).succeeded = true → ∀ messageId,
    ((readCatalog seed kind env w).tables account).messages messageId ≠ none →
      ∃ r ∈ records, extractionOf r = some (account, messageId)

lemma extractPending_keeps (env : PassEnv) (report : Report) (w : World) :
    Keeps w (extractPending env report w).1 ∧
      (extractPending env report w).1.service.pendingRefresh = w.service.pendingRefresh := by
  unfold extractPending
  split
  · exact ⟨.refl w, rfl⟩
  · exact foldl_extract_keeps _ (w, false)

lemma extractPending_fst (env : PassEnv) (report : Report) (w : World) :
    (extractPending env report w).1 = ((extractionAccounts report w).foldl (extractAccount env) (w, false)).1 := by
  unfold extractPending extractionAccounts
  cases w.service.hasExtract <;> rfl

lemma extractionAccounts_spec (h : w.service.pendingRefresh.Nodup) :
    (extractionAccounts report w).Nodup ∧
      ∀ account ∈ extractionAccounts report w, isHeld report.holds account = false := by
  unfold extractionAccounts
  split
  · exact pendingUnheldAccounts_spec h
  · simp

/-- A record of an account that is not held is applied, and then its message is marked. -/
lemma extractionAccounts_fresh (ht : Traced w)
    (hcompleted : ∀ r ∈ w.log.records, r ∈ w.applied ∨ isHeld report.holds (accountOf r)) :
    ∀ account ∈ extractionAccounts report w, ∀ messageId, (w.catalog.tables account).extractions messageId = none →
      extractionCount w.log.records (account, messageId) = 0 := by
  intro account hmem messageId hnone
  refine List.countP_eq_zero.mpr fun r hr hkey => ?_
  rw [decide_eq_true_eq] at hkey
  have hfree := (extractionAccounts_spec ht.pending_nodup).2 account hmem
  rw [← show accountOf r = account from extractionOf_account hkey] at hfree
  rcases hcompleted r hr with happlied | hheld
  · exact ht.applied_marked r happlied _ hkey hnone
  · simp [hfree] at hheld

/-- What the passes, extractions and refreshes of one entry point do to the extractions. -/
structure DerivedExtracts (seed : Provisioned) (kind : PassKind) (env : PassEnv) (w w' : World) : Prop where
  traced : Traced w'
  fresh : ∀ account ∈ extractionSteps seed kind env w, ∀ messageId,
    ((readCatalog seed kind env w).tables account).extractions messageId = none →
      extractionCount w.log.records (account, messageId) = 0
  count : Faithful seed kind env w → ∀ key, extractionCount w'.log.records key =
    extractionCount w.log.records key + added env (extractionSteps seed kind env w) key
  complete : Faithful seed kind env w → Complete seed kind env w w'.log.records

theorem runDerivedPass_extracts {env : PassEnv} (h : Sound w) (hahead : kind = .postIngest → CursorAhead w)
    (ht : Traced w) (hrows : KeepsRows env) :
    DerivedExtracts seed kind env w (runDerivedPass seed kind env w).1 := by
  have hfirst := runPass_sound seed env.first h hahead
  have hmarks := runPass_marks seed env.first h hahead
  have hlast : ∀ report w', Traced w' → Traced (refreshPending env report w') := fun report w' ht' =>
    ht'.keeps (refreshPending_keeps hrows report w').1 ((refreshPending_keeps hrows report w').2 ht'.pending_nodup)
  have hread : readCatalog seed kind env w = (runPass seed kind env.first w).1.catalog := rfl
  have hnone : ∀ w', runPass seed kind env.first w = (w', none) → extractionSteps seed kind env w = [] := by
    intro w' hpass
    rw [extractionSteps, hpass]
  have hsteps : ∀ w' report, runPass seed kind env.first w = (w', some report) →
      extractionSteps seed kind env w = extractionAccounts report (extractionStart report w') := by
    intro w' report hpass
    rw [extractionSteps, hpass]
  unfold runDerivedPass
  generalize runPass seed kind env.first w = first at hfirst hmarks hread hnone hsteps ⊢
  obtain ⟨w₁, result⟩ := first
  have ht₁ : Traced w₁ := hmarks.traced ht
  have hlog₁ : w₁.log = w.log := hmarks.log
  cases result with
  | none =>
    replace hnone : extractionSteps seed kind env w = [] := hnone w₁ rfl
    refine ⟨ht₁, ?_, fun _ key => ?_, ?_⟩
    · simp [hnone]
    · rw [hlog₁, hnone]
      simp [added]
    · simp [Complete, hnone]
  | some report =>
    replace hsteps := hsteps w₁ report rfl
    dsimp only at hread ⊢
    have hstart : (queueMaterializedAccounts report w₁).withService
        { (queueMaterializedAccounts report w₁).service with refreshHolds := [] } = extractionStart report w₁ := rfl
    rw [hstart]
    have hgrows : Grows w₁ (extractionStart report w₁) :=
      (grows_queueMaterializedAccounts report w₁).trans (grows_clearRefreshHolds _)
    have ht₂ : Traced (extractionStart report w₁) :=
      (queue_traced ht₁ report).keeps ⟨List.prefix_refl _, rfl, fun _ => rfl⟩ (queue_traced ht₁ report).pending_nodup
    have hlog₂ : (extractionStart report w₁).log = w.log := hlog₁
    have hcatalog₂ : (extractionStart report w₁).catalog = readCatalog seed kind env w := hread.symm
    have hcompleted : ∀ r ∈ (extractionStart report w₁).log.records,
        r ∈ (extractionStart report w₁).applied ∨ isHeld report.holds (accountOf r) :=
      fun r hr => hmarks.completed report rfl r (hlog₂ ▸ hr)
    generalize extractionStart report w₁ = w₂ at hsteps hgrows ht₂ hlog₂ hcatalog₂ hcompleted ⊢
    have hfresh := extractionAccounts_fresh ht₂ hcompleted
    rw [← hsteps, hlog₂, hcatalog₂] at hfresh
    have hkeeps := extractPending_keeps env report w₂
    have hgrows' := hgrows.trans (grows_extractPending env report w₂)
    have ht₃ := ht₂.keeps hkeeps.1 (hkeeps.2 ▸ ht₂.pending_nodup)
    have hcount : Faithful seed kind env w → ∀ key, extractionCount (extractPending env report w₂).1.log.records key =
        extractionCount w.log.records key + added env (extractionSteps seed kind env w) key := by
      intro hfaithful key
      rw [extractPending_fst, hsteps, foldl_extract_count (extractionAccounts_spec ht₂.pending_nodup).1
        hfaithful.extracts, hlog₂]
    have hcomplete : ∀ records, (extractPending env report w₂).1.log.records <+: records →
        Faithful seed kind env w → Complete seed kind env w records := by
      intro records hwithin hfaithful account hmem hsucceeded messageId hmessage
      rw [hsteps] at hmem
      obtain ⟨r, hr, hkey⟩ := @foldl_extract_complete env _ _ (w₂, false) hfaithful.extracts
        (hcatalog₂ ▸ ht₂.marked_recorded) account messageId hmem hsucceeded hmessage
      rw [extractPending_fst] at hwithin
      exact ⟨r, hwithin.subset hr, hkey⟩
    generalize extractPending env report w₂ = extracted at hgrows' hcomplete hcount ht₃ ⊢
    obtain ⟨w₃, appendedAny⟩ := extracted
    dsimp only at hgrows' hcomplete hcount ht₃ ⊢
    cases appendedAny with
    | false =>
      refine ⟨hlast report w₃ ht₃, hfresh, fun hfaithful key => ?_,
        hcomplete _ (refreshPending_keeps hrows report w₃).1.records⟩
      rw [refreshPending_count hfaithful.count]
      exact hcount hfaithful key
    | true =>
      have hsecond := @runPass_marks kind w₃ seed env.followUp (hfirst.sound.grows hgrows')
        fun hkind => (hfirst.cursorAhead hkind).grows hgrows'
      dsimp only
      generalize runPass seed kind env.followUp w₃ = second at hsecond ⊢
      obtain ⟨w₄, result⟩ := second
      have ht₄ := hsecond.traced ht₃
      have hlog : w₄.log = w₃.log := hsecond.log
      cases result with
      | none =>
        refine ⟨ht₄, hfresh, fun hfaithful key => ?_, hcomplete _ (hlog ▸ List.prefix_refl _)⟩
        rw [hlog]
        exact hcount hfaithful key
      | some report' =>
        have hkeeps' := (refreshPending_keeps hrows report' (queueMaterializedAccounts report' w₄)).1
        refine ⟨hlast report' _ (queue_traced ht₄ report'), hfresh, fun hfaithful key => ?_,
          hcomplete _ (hlog ▸ hkeeps'.records)⟩
        rw [refreshPending_count hfaithful.count]
        change extractionCount w₄.log.records key = _
        rw [hlog]
        exact hcount hfaithful key

end
end Wyrebox.FactExtraction
