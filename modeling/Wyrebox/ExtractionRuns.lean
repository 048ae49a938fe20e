import Wyrebox.FactExtraction

set_option autoImplicit false

/-!
# Extraction over whole runs

The records of a message over a run of the daemon, and a journal that holds several of them.
-/
namespace Wyrebox.ExtractionRuns
open Catalog Materializer Catchup MaterializationService Event Fallible
open PassInvariant CheckpointInvariant PassState DeliveryRuns Convergence RefreshQueue ExtractionMarks FactExtraction

/-! ## The pass of an operation -/

/-- The timer of `source` has fired. -/
def retryStart (source : ℕ) (w : World) : World :=
  { w with timers := w.timers.filter (· ≠ source), service := { w.service with retrySource := none } }

/-- The pass that an operation runs and the world it starts from. A cancelled timer runs none. -/
def passStart (op : Op) (w : World) : Option (PassKind × PassEnv × World) :=
  match op with
  | .catchUp env => some (.catchUp, env, w)
  | .postIngest env => some (.postIngest, env, w)
  | .retry source env =>
    if w.service.stopped ∨ w.service.retrySource ≠ some source then none
    else some (.retry, env, retryStart source w)
  | _ => none

section
variable {seed : Provisioned} {kind : PassKind} {env : PassEnv} {op : Op} {w w' w₁ : World}

/-- The journal, the rows and the queue of refreshes are the same. -/
structure SameRows (w w' : World) : Prop where
  data : SameData w w'
  pendingRefresh : w'.service.pendingRefresh = w.service.pendingRefresh

lemma finishPass_same (kind : PassKind) (result : Option Report) (w : World) :
    SameRows w (finishPass kind (w, result)).1 := by
  have hfailed : ∀ result, SameRows w (finishFailedPass kind result w) := fun result =>
    ⟨(finishFailedPass_spec kind result w).data, (finishFailedPass_pendingRefresh kind result w).1⟩
  cases result with
  | none => exact ⟨⟨(hfailed none).data.log, (hfailed none).data.catalog, (hfailed none).data.applied⟩,
      (hfailed none).pendingRefresh⟩
  | some report =>
    unfold finishPass
    simp only
    split
    · exact ⟨⟨rfl, rfl, rfl⟩, rfl⟩
    · have h := hfailed (some report)
      exact ⟨⟨h.data.log, h.data.catalog, h.data.applied⟩, h.pendingRefresh⟩

/-- A pass starts from the state of its operation, and what follows the pass only settles the
    retry timer. -/
structure RunsPass (seed : Provisioned) (op : Op) (kind : PassKind) (env : PassEnv) (w w₁ : World) : Prop where
  start : SameRows w w₁
  sound : Sound w₁
  cursorAhead : kind = .postIngest → CursorAhead w₁
  finish : SameRows (runDerivedPass seed kind env w₁).1 (step seed op w).1

lemma passStart_runs (h : Invariant w) (hstart : passStart op w = some (kind, env, w₁)) :
    RunsPass seed op kind env w w₁ := by
  cases op with
  | catchUp env =>
    obtain ⟨rfl, rfl, rfl⟩ := by simpa [passStart] using hstart
    refine ⟨⟨⟨rfl, rfl, rfl⟩, rfl⟩, h.sound, by simp, ?_⟩
    change SameRows _ (catchUp seed env w).1
    unfold catchUp
    generalize runDerivedPass seed .catchUp env w = derived
    obtain ⟨w', result⟩ := derived
    cases result with
    | none => exact ⟨⟨rfl, rfl, rfl⟩, rfl⟩
    | some report => exact finishPass_same .catchUp (some report) w'
  | postIngest env =>
    obtain ⟨rfl, rfl, rfl⟩ := by simpa [passStart] using hstart
    exact ⟨⟨⟨rfl, rfl, rfl⟩, rfl⟩, h.sound, fun _ => h.cursorAhead, finishPass_same .postIngest _ _⟩
  | retry source env =>
    rw [passStart] at hstart
    split at hstart
    · simp at hstart
    · rename_i hlive
      obtain ⟨rfl, rfl, rfl⟩ := by simpa using hstart
      have hsource : w.service.retrySource = some source := by
        by_contra hne
        exact hlive (.inr hne)
      have hsound : Sound (retryStart source w) := (retry_pass_invariant h source hsource).sound
      refine ⟨⟨⟨rfl, rfl, rfl⟩, rfl⟩, hsound, by simp, ?_⟩
      have hstep : (step seed (.retry source env) w).1 =
          (finishPass .retry (runDerivedPass seed .retry env (retryStart source w))).1 := by
        change (retryCatchUp seed source env w).1 = _
        unfold retryCatchUp
        simp only
        rw [if_neg hlive]
        rfl
      rw [hstep]
      exact finishPass_same .retry _ _
  | _ => simp [passStart] at hstart

/-! ## What the operations leave alone -/

/-- Refreshes and the other services write no extraction rows. -/
def KeepsOp : Op → Prop
  | .catchUp env | .postIngest env | .retry _ env => KeepsRows env
  | .write _ tables => ∀ t, (tables t).extractions = t.extractions
  | _ => True

lemma passStart_keepsRows (hop : KeepsOp op) (hstart : passStart op w = some (kind, env, w₁)) : KeepsRows env := by
  cases op with
  | catchUp env =>
    obtain ⟨-, rfl, -⟩ := by simpa [passStart] using hstart
    exact hop
  | postIngest env =>
    obtain ⟨-, rfl, -⟩ := by simpa [passStart] using hstart
    exact hop
  | retry source env =>
    rw [passStart] at hstart
    split at hstart
    · simp at hstart
    · obtain ⟨-, rfl, -⟩ := by simpa using hstart
      exact hop
  | _ => simp [passStart] at hstart

/-- An operation without a pass at most appends to the journal. -/
lemma step_without_pass (hop : KeepsOp op) (hnodup : w.service.pendingRefresh.Nodup) (hstart : passStart op w = none) :
    Keeps w (step seed op w).1 ∧ (step seed op w).1.service.pendingRefresh.Nodup := by
  cases op with
  | catchUp env => simp [passStart] at hstart
  | postIngest env => simp [passStart] at hstart
  | retry source env =>
    have hstale : w.service.stopped = true ∨ w.service.retrySource ≠ some source := by
      by_contra hlive
      simp [passStart, hlive] at hstart
    have hstep : (step seed (.retry source env) w).1 = { w with timers := w.timers.filter (· ≠ source) } := by
      change (retryCatchUp seed source env w).1 = _
      unfold retryCatchUp
      simp only
      rw [if_pos hstale]
    rw [hstep]
    exact ⟨⟨List.prefix_refl _, rfl, fun _ => rfl⟩, hnodup⟩
  | stop => exact ⟨⟨List.prefix_refl _, rfl, fun _ => rfl⟩, hnodup⟩
  | queueRefresh account => exact ⟨⟨List.prefix_refl _, rfl, fun _ => rfl⟩, hnodup.insert⟩
  | append event size =>
    exact ⟨⟨List.prefix_append _ _, rfl, fun _ => rfl⟩, hnodup⟩
  | write account tables =>
    refine ⟨⟨List.prefix_refl _, rfl, fun other => ?_⟩, hnodup⟩
    change ((w.catalog.withSession account _).tables other).extractions = _
    by_cases hother : other = account
    · rw [hother, withSession_tables_self]
      exact hop _
    · rw [withSession_tables_of_ne _ _ _ hother]
  | restart => exact ⟨⟨List.prefix_refl _, rfl, fun _ => rfl⟩, List.nodup_nil⟩

lemma SameRows.traced (hsame : SameRows w w') (h : Traced w) : Traced w' :=
  h.keeps ⟨hsame.data.log ▸ List.prefix_refl _, hsame.data.applied, fun _ => by rw [hsame.data.catalog]⟩
    (hsame.pendingRefresh ▸ h.pending_nodup)

lemma step_traced (hinv : Invariant w) (ht : Traced w) (hop : KeepsOp op) : Traced (step seed op w).1 := by
  cases hstart : passStart op w with
  | none =>
    obtain ⟨hkeeps, hnodup⟩ := @step_without_pass seed _ _ hop ht.pending_nodup hstart
    exact ht.keeps hkeeps hnodup
  | some pass =>
    obtain ⟨kind, env, w₁⟩ := pass
    have hruns := @passStart_runs seed _ _ _ _ _ hinv hstart
    have hextracts := @runDerivedPass_extracts seed kind w₁ env hruns.sound hruns.cursorAhead (hruns.start.traced ht)
      (passStart_keepsRows hop hstart)
    exact hruns.finish.traced hextracts.traced

/-! ## The worlds of a daemon -/

/-- What some sequence of operations reaches when only the materializer writes extraction rows.
    Earlier daemons can have journaled anything. -/
inductive Lived (seed : Provisioned) (hasRefresh hasExtract : Bool) : World → Prop where
  | start : Lived seed hasRefresh hasExtract (start seed hasRefresh hasExtract)
  | step (op : Op) {w : World} : Lived seed hasRefresh hasExtract w → KeepsOp op →
      Lived seed hasRefresh hasExtract (step seed op w).1

lemma start_traced (seed : Provisioned) (hasRefresh hasExtract : Bool) :
    Traced (start seed hasRefresh hasExtract) where
  applied_marked := by simp [start]
  marked_recorded := by simp [start, Marked, initial, Provisioned.accountTables]
  pending_nodup := List.nodup_nil

lemma Lived.invariant {hasRefresh hasExtract : Bool} (h : Lived seed hasRefresh hasExtract w) :
    Invariant w ∧ Traced w := by
  induction h with
  | start => exact ⟨start_invariant seed hasRefresh hasExtract, start_traced seed hasRefresh hasExtract⟩
  | step op _ hop ih => exact ⟨(step_settled seed op ih.1).invariant, step_traced ih.1 ih.2 hop⟩

/-- What an operation within one run of the daemon keeps to: only the extractor journals
    extractions, and it reads the rows that the pass left. -/
structure FaithfulOp (seed : Provisioned) (op : Op) (w : World) : Prop where
  keeps : KeepsOp op
  running : op ≠ .restart
  append : ∀ event size, op = .append event size → event.bind eventKey = none
  pass : ∀ kind env w₁, passStart op w = some (kind, env, w₁) → Faithful seed kind env w₁

/-- The state after an operation. When the first append of its extractions could not be synced
    there is no follow-up pass, and the record can be in the file. -/
inductive Leaves (seed : Provisioned) (op : Op) (w : World) : World → Prop where
  | reported : Leaves seed op w (step seed op w).1
  | unsynced {kind : PassKind} {env : PassEnv} {w₁ : World} {extraction : FactsExtracted} (size : ℕ)
      (hstart : passStart op w = some (kind, env, w₁))
      (haccount : extraction.accountId ∈ extractionSteps seed kind env w₁)
      (hpending : ((readCatalog seed kind env w₁).tables extraction.accountId).extractions extraction.messageId = none)
      (hfirst : (env.extract extraction.accountId).appended = []) :
      Leaves seed op w { (step seed op w).1 with
        log := (step seed op w).1.log.append (some (.factsExtracted extraction)) size }

/-- The states of one run of the daemon over what `w₀` left. -/
inductive DaemonRun (seed : Provisioned) (w₀ : World) : World → Prop where
  | start : DaemonRun seed w₀ (restart w₀)
  | step (op : Op) {w w' : World} : DaemonRun seed w₀ w → FaithfulOp seed op w → Leaves seed op w w' →
      DaemonRun seed w₀ w'

lemma Leaves.grows (h : Leaves seed op w w') : Grows (step seed op w).1 w' := by
  cases h with
  | reported => exact .refl _
  | unsynced size => exact grows_append _ _ size

lemma Leaves.traced (h : Leaves seed op w w') (ht : Traced (step seed op w).1) : Traced w' := by
  cases h with
  | reported => exact ht
  | unsynced size => exact ht.keeps ⟨List.prefix_append _ _, rfl, fun _ => rfl⟩ ht.pending_nodup

/-! ## At most one record -/

/-- Past `base`, a message gets a record only when it has none, and then just one. -/
def Once (base records : List ProjectionRecord) : Prop :=
  ∀ key, extractionCount records key ≤ max (extractionCount base key) 1

variable {base : List ProjectionRecord}

/-- How an operation with a pass adds records: only to messages that have none. -/
lemma step_pass_count (hinv : Invariant w) (ht : Traced w) (hop : FaithfulOp seed op w)
    (hstart : passStart op w = some (kind, env, w₁)) (key : CString × CString) :
    extractionCount (step seed op w).1.log.records key =
      extractionCount w.log.records key + added env (extractionSteps seed kind env w₁) key ∧
    (key.1 ∈ extractionSteps seed kind env w₁ → ((readCatalog seed kind env w₁).tables key.1).extractions key.2 = none →
      extractionCount w.log.records key = 0) := by
  have hruns := @passStart_runs seed _ _ _ _ _ hinv hstart
  have hextracts := @runDerivedPass_extracts seed kind w₁ env hruns.sound hruns.cursorAhead (hruns.start.traced ht)
    (passStart_keepsRows hop.keeps hstart)
  rw [hruns.finish.data.log, hextracts.count (hop.pass _ _ _ hstart), hruns.start.data.log]
  refine ⟨rfl, fun hmem hnone => ?_⟩
  have hzero := hextracts.fresh key.1 hmem key.2 hnone
  rwa [hruns.start.data.log] at hzero

lemma step_pass_once (hinv : Invariant w) (ht : Traced w) (hop : FaithfulOp seed op w)
    (hstart : passStart op w = some (kind, env, w₁)) (honce : Once base w.log.records) :
    Once base (step seed op w).1.log.records := by
  intro key
  obtain ⟨hcount, hfresh⟩ := step_pass_count hinv ht hop hstart key
  have hextracts := extracts_count ((hop.pass _ _ _ hstart).extracts key.1) key
  rw [hcount, added]
  split
  · rename_i hmem
    by_cases hnone : ((readCatalog seed kind env w₁).tables key.1).extractions key.2 = none
    · rw [hfresh hmem hnone, Nat.zero_add]
      rw [if_pos ⟨rfl, hnone⟩] at hextracts
      exact hextracts.trans (Nat.le_max_right _ _)
    · rw [if_neg fun hpair => hnone hpair.2] at hextracts
      rw [Nat.le_zero.mp hextracts]
      exact honce key
  · exact honce key

lemma step_count_without_pass (hop : FaithfulOp seed op w) (hstart : passStart op w = none) (key : CString × CString) :
    extractionCount (step seed op w).1.log.records key = extractionCount w.log.records key := by
  cases op with
  | catchUp env => simp [passStart] at hstart
  | postIngest env => simp [passStart] at hstart
  | retry source env =>
    have hstale : w.service.stopped = true ∨ w.service.retrySource ≠ some source := by
      by_contra hlive
      simp [passStart, hlive] at hstart
    change extractionCount (retryCatchUp seed source env w).1.log.records key = _
    unfold retryCatchUp
    simp only
    rw [if_pos hstale]
  | append event size =>
    change extractionCount (w.log.append event size).records key = _
    rw [append_count, hop.append event size rfl]
    rfl
  | restart => exact absurd rfl hop.running
  | _ => rfl

/-- A step adds a record of a message at most when it has none yet, and then one. -/
theorem leaves_once (hinv : Invariant w) (ht : Traced w) (hop : FaithfulOp seed op w) (h : Leaves seed op w w')
    (honce : Once base w.log.records) : Once base w'.log.records := by
  have hstep : Once base (step seed op w).1.log.records := by
    cases hstart : passStart op w with
    | none =>
      intro key
      rw [step_count_without_pass hop hstart]
      exact honce key
    | some pass => exact step_pass_once hinv ht hop hstart honce
  cases h with
  | reported => exact hstep
  | @unsynced kind env w₁ extraction size hstart haccount hpending hfirst =>
    intro key
    rw [append_count]
    split
    · rename_i hkey
      obtain rfl : (extraction.accountId, extraction.messageId) = key := Option.some.inj hkey
      obtain ⟨hcount, hfresh⟩ := step_pass_count hinv ht hop hstart (extraction.accountId, extraction.messageId)
      have hnone : added env (extractionSteps seed kind env w₁) (extraction.accountId, extraction.messageId) = 0 := by
        rw [added, hfirst]
        simp
      rw [hcount, hfresh haccount hpending, hnone]
      exact Nat.le_max_right _ _
    · exact hstep key

lemma DaemonRun.invariant {w₀ : World} (h₀ : Invariant w₀) (ht₀ : Traced w₀) (h : DaemonRun seed w₀ w) :
    Invariant w ∧ Traced w ∧ Once w₀.log.records w.log.records := by
  induction h with
  | start => exact ⟨restart_invariant h₀, ht₀.keeps ⟨List.prefix_refl _, rfl, fun _ => rfl⟩ List.nodup_nil,
      fun _ => Nat.le_max_left _ _⟩
  | step op _ hop hleaves ih =>
    obtain ⟨hinv, ht, honce⟩ := ih
    exact ⟨(step_settled seed op hinv).invariant.grows hleaves.grows, hleaves.traced (step_traced hinv ht hop.keeps),
      leaves_once hinv ht hop hleaves honce⟩

/-- After an operation whose pass extracted an account, its messages have records. -/
lemma leaves_complete (hinv : Invariant w) (ht : Traced w) (hop : FaithfulOp seed op w) (h : Leaves seed op w w')
    (hstart : passStart op w = some (kind, env, w₁)) : Complete seed kind env w₁ w'.log.records := by
  have hruns := @passStart_runs seed _ _ _ _ _ hinv hstart
  have hextracts := @runDerivedPass_extracts seed kind w₁ env hruns.sound hruns.cursorAhead (hruns.start.traced ht)
    (passStart_keepsRows hop.keeps hstart)
  have hwithin : (runDerivedPass seed kind env w₁).1.log.records <+: w'.log.records := by
    rw [← hruns.finish.data.log]
    exact Grows.records_within h.grows
  intro account hmem hsucceeded messageId hmessage
  obtain ⟨r, hr, hkey⟩ := hextracts.complete (hop.pass _ _ _ hstart) account hmem hsucceeded messageId hmessage
  exact ⟨r, hwithin.subset hr, hkey⟩

/-! ## A journal with several records of a message -/

/-- The runs without the extractions of messages that an earlier run or `seen` extracts. -/
def firstExtractions (seen : List (CString × CString)) : List Run → List Run
  | [] => []
  | run :: runs =>
    match extractionOf run.first with
    | none => run :: firstExtractions seen runs
    | some key =>
      if key ∈ seen then firstExtractions seen runs else run :: firstExtractions (key :: seen) runs

/-- The catalog after these runs, applied in order. -/
def replay (seed : Provisioned) (runs : List Run) (cat : Catalog) : Except InvalidData Catalog :=
  runs.foldlM (fun cat run => applyRun seed run false cat) cat

/-- Extracted, by a record that the materializer accepts. -/
def Extracted (cat : Catalog) (key : CString × CString) : Prop :=
  Marked cat key ∧ key.1 ≠ .empty ∧ key.2 ≠ .empty

variable {cat cat' : Catalog} {run : Run} {key : CString × CString} {advance : Bool}

lemma extraction_run (hsorted : Sorted run) (hkey : extractionOf run.first = some key) :
    isDelivery run.first = false ∧ run.records = [run.first] := by
  rcases hsorted with hall | ⟨hother, hrest⟩
  · rw [delivery_extractionOf (hall _ run.first_mem)] at hkey
    simp at hkey
  · exact ⟨hother, by rw [Run.records, hrest]⟩

/-- A later extraction of a message changes nothing. -/
lemma applyRun_extracted (hsorted : Sorted run) (hkey : extractionOf run.first = some key)
    (hnumbered : 1 ≤ run.first.position.sequence) (h : Extracted cat key) :
    applyRun seed run false cat = .ok cat := by
  obtain ⟨hother, -⟩ := extraction_run hsorted hkey
  obtain ⟨hmarked, haccount, hmessage⟩ := h
  have hself : accountOf run.first = key.1 := extractionOf_account hkey
  obtain ⟨row, hrow⟩ := Option.ne_none_iff_exists'.mp hmarked
  have hsame : applyRecords seed run (cat.session run.account) = .ok (cat.session run.account) := by
    rw [applyRecords, if_neg (by simp [hother])]
    obtain ⟨⟨position, event⟩, rest⟩ := run
    cases event with
    | factsExtracted extraction =>
      obtain rfl : (extraction.accountId, extraction.messageId) = key := Option.some.inj hkey
      change applyFactsExtracted (cat.session extraction.accountId) extraction position = _
      rw [applyFactsExtracted, (@require_eq_ok _ _ _ ()).mpr ⟨haccount, hmessage, Nat.one_le_iff_ne_zero.mp hnumbered⟩]
      have hstored : (cat.session extraction.accountId).tables.extractions extraction.messageId = some row := hrow
      simp only [hstored]
      rfl
    | _ => simp [extractionOf] at hkey
  rw [applyRun, hsame]
  change Except.ok (cat.withSession run.account (cat.session run.account)) = _
  rw [withSession]
  simp [session]

lemma applyRun_extracts (hu : Run.Uniform run) (hsorted : Sorted run) (h : applyRun seed run advance cat = .ok cat')
    (hkey : extractionOf run.first = some key) : Extracted cat' key := by
  refine ⟨(applyRun_marked hu hsorted h key).mpr (.inr ⟨_, run.first_mem, hkey⟩), ?_⟩
  obtain ⟨hother, -⟩ := extraction_run hsorted hkey
  obtain ⟨s, hs, -⟩ := applyRun_eq_ok h
  rw [applyRecords, if_neg (by simp [hother])] at hs
  obtain ⟨⟨position, event⟩, rest⟩ := run
  cases event with
  | factsExtracted extraction =>
    obtain rfl : (extraction.accountId, extraction.messageId) = key := Option.some.inj hkey
    change applyFactsExtracted _ extraction position = .ok s at hs
    simp only [applyFactsExtracted, bind_eq_ok] at hs
    obtain ⟨_, hguard, -⟩ := hs
    exact ⟨(require_eq_ok.mp hguard).1, (require_eq_ok.mp hguard).2.1⟩
  | _ => simp [extractionOf] at hkey

lemma Extracted.kept (h : Extracted cat key) (hu : Run.Uniform run) (hsorted : Sorted run)
    (happly : applyRun seed run advance cat = .ok cat') : Extracted cat' key :=
  ⟨(applyRun_marked hu hsorted happly key).mpr (.inl h.1), h.2⟩

/-- Only the first extraction of a message counts. -/
lemma replay_firstExtractions {seen : List (CString × CString)} {runs : List Run}
    (hruns : ∀ run ∈ runs, Run.Uniform run ∧ Sorted run ∧ 1 ≤ run.first.position.sequence)
    (hseen : ∀ key ∈ seen, Extracted cat key) :
    replay seed runs cat = replay seed (firstExtractions seen runs) cat := by
  induction runs generalizing seen cat with
  | nil => rfl
  | cons run runs ih =>
    obtain ⟨⟨hu, hsorted, hnumbered⟩, hmore⟩ := List.forall_mem_cons.mp hruns
    -- a run that both sides apply
    have hboth : ∀ seen', (∀ cat', applyRun seed run false cat = .ok cat' → ∀ key ∈ seen', Extracted cat' key) →
        replay seed (run :: runs) cat = replay seed (run :: firstExtractions seen' runs) cat := by
      intro seen' hseen'
      rw [replay, replay, List.foldlM_cons, List.foldlM_cons]
      cases happly : applyRun seed run false cat with
      | error error => rfl
      | ok cat' => exact ih hmore (hseen' cat' happly)
    have hkept : ∀ cat', applyRun seed run false cat = .ok cat' → ∀ key ∈ seen, Extracted cat' key :=
      fun cat' happly key hkey => (hseen key hkey).kept hu hsorted happly
    rw [firstExtractions]
    cases hkey : extractionOf run.first with
    | none => exact hboth seen hkept
    | some key =>
      dsimp only
      split
      · rename_i hmem
        rw [replay, List.foldlM_cons, applyRun_extracted hsorted hkey hnumbered (hseen key hmem)]
        exact ih hmore hseen
      · refine hboth (key :: seen) fun cat' happly => List.forall_mem_cons.mpr ⟨?_, hkept cat' happly⟩
        exact applyRun_extracts hu hsorted happly hkey

/-! ## Exactly once -/

lemma DaemonRun.records {w₀ : World} (h : DaemonRun seed w₀ w) : w₀.log.records <+: w.log.records := by
  induction h with
  | start => exact List.prefix_refl _
  | step op _ _ hleaves ih => exact ih.trans ((step_records op _).trans (Grows.records_within hleaves.grows))

/-- A run of the daemon journals at most one extraction of a message, and none when an earlier run
    did. An account whose extraction succeeds has one for each message, and of several extractions
    of a message in a journal only the first changes the catalog. -/
theorem extraction_exactly_once (seed : Provisioned) {hasRefresh hasExtract : Bool} {w₀ w : World}
    (hlived : Lived seed hasRefresh hasExtract w₀) (hrun : DaemonRun seed w₀ w) :
    (∃ new, w.log.records = w₀.log.records ++ new ∧ ∀ key, extractionCount new key ≤ 1 ∧
      (extractionCount w₀.log.records key ≠ 0 → extractionCount new key = 0)) ∧
    (∀ op w', FaithfulOp seed op w → Leaves seed op w w' → ∀ kind env w₁, passStart op w = some (kind, env, w₁) →
      Complete seed kind env w₁ w'.log.records) ∧
    ∀ (log : Log) (cat : Catalog),
      replay seed (runs log.records) cat = replay seed (firstExtractions [] (runs log.records)) cat := by
  obtain ⟨hinv₀, ht₀⟩ := hlived.invariant
  obtain ⟨hinv, ht, honce⟩ := hrun.invariant hinv₀ ht₀
  refine ⟨?_, fun op w' hop hleaves kind env w₁ hstart => leaves_complete hinv ht hop hleaves hstart, fun log cat => ?_⟩
  · obtain ⟨new, hnew⟩ := hrun.records
    refine ⟨new, hnew.symm, fun key => ?_⟩
    have hcount : extractionCount w₀.log.records key + extractionCount new key ≤
        max (extractionCount w₀.log.records key) 1 := by
      have hle := honce key
      rwa [← hnew, extractionCount, List.countP_append] at hle
    omega
  · refine replay_firstExtractions (fun run hrun => ⟨runs_uniform run hrun, runs_sorted run hrun, ?_⟩) (by simp)
    refine log.numbered _ ?_
    rw [← runs_flatMap log.records]
    exact List.mem_flatMap.mpr ⟨run, hrun, run.first_mem⟩

/-- Alice's message is extracted by a pass whose follow-up pass aborts. -/
def abortedFollowUp : PassEnv where
  first := ⟨true, true, fun _ => .none⟩
  followUp := ⟨false, true, fun _ => .none⟩
  extract := fun account =>
    if account = alice then
      ⟨[(.factsExtracted ⟨alice, journalMessageId ⟨0, 1⟩, 1, []⟩, 0)], true⟩
    else ⟨[], false⟩
  refresh := fun _ => ⟨[], id, id, true⟩

def deliveredOp : Op := .append (some (sampleDelivery alice (.literal "object-1"))) 0

def extractedWorld : World :=
  (step sampleSeed (.catchUp abortedFollowUp) (step sampleSeed deliveredOp (restart (start sampleSeed true true))).1).1

lemma extractedWorld_run : DaemonRun sampleSeed (start sampleSeed true true) extractedWorld := by
  have hdelivered := DaemonRun.step deliveredOp (@DaemonRun.start sampleSeed (start sampleSeed true true))
    ⟨trivial, by simp [deliveredOp], by rintro event size ⟨⟩; rfl, by simp [passStart, deliveredOp]⟩ .reported
  refine .step (.catchUp abortedFollowUp) hdelivered ⟨fun _ _ => rfl, by simp, by simp, ?_⟩ .reported
  rintro kind env w₁ ⟨⟩
  refine ⟨fun account entry hentry => by simp [abortedFollowUp] at hentry, fun account => ?_⟩
  by_cases haccount : account = alice
  · subst haccount
    refine .inr ⟨[journalMessageId ⟨0, 1⟩], fun _ => .appended 1 [] 0, ⟨fun messageId => ?_, by simp, by simp⟩, rfl⟩
    have hmessages : ((readCatalog sampleSeed .catchUp abortedFollowUp
        (step sampleSeed deliveredOp (restart (start sampleSeed true true))).1).tables alice).messages =
        Function.update Registry.empty (journalMessageId ⟨0, 1⟩) (some ⟨.literal "object-1", ⟨0, 1⟩⟩) := rfl
    have hextractions : ((readCatalog sampleSeed .catchUp abortedFollowUp
        (step sampleSeed deliveredOp (restart (start sampleSeed true true))).1).tables alice).extractions =
        fun _ => none := rfl
    rw [hmessages, hextractions, List.mem_singleton]
    by_cases hid : messageId = journalMessageId ⟨0, 1⟩
    · simp [hid]
    · simp [hid, Function.update_of_ne, Registry.empty]
  · exact .inl (by simp [abortedFollowUp, haccount])

/-- The record is journaled and not yet applied. -/
theorem extraction_exactly_once_aborted :
    extractionCount extractedWorld.log.records (alice, journalMessageId ⟨0, 1⟩) = 1 ∧
    (extractedWorld.catalog.tables alice).extractions (journalMessageId ⟨0, 1⟩) = none ∧
    ∃ new, extractedWorld.log.records = [] ++ new ∧ ∀ key, extractionCount new key ≤ 1 ∧
      (extractionCount [] key ≠ 0 → extractionCount new key = 0) :=
  ⟨by decide, by decide, (extraction_exactly_once sampleSeed (@Lived.start sampleSeed true true) extractedWorld_run).1⟩

end
end Wyrebox.ExtractionRuns
