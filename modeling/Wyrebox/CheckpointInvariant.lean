import Wyrebox.MaterializationService
import Wyrebox.PassInvariant

set_option autoImplicit false

/-!
# The checkpoint and the scan cursor

What the stored checkpoint, the scan cursor and the holds say about the records that have been
applied, in every state the service reaches.
-/
namespace Wyrebox.CheckpointInvariant
open Catalog Materializer Catchup MaterializationService PassInvariant
open JournalWriter (Position)

/-- The position is after the checkpoint. -/
def Beyond (checkpoint : Option Position) (position : Position) : Prop :=
  ∀ c, checkpoint = some c → c.sequence < position.sequence

/-- The second checkpoint is not behind the first. -/
def NotBehind (before after : Option Position) : Prop :=
  ∀ c, before = some c → ∃ d, after = some d ∧ c.sequence ≤ d.sequence

lemma NotBehind.refl (position : Option Position) : NotBehind position position :=
  fun c hc => ⟨c, hc, le_refl _⟩

lemma NotBehind.trans {p q r : Option Position} (h : NotBehind p q) (h' : NotBehind q r) :
    NotBehind p r := by
  intro c hc
  obtain ⟨d, hd, hle⟩ := h c hc
  obtain ⟨e, he, hle'⟩ := h' d hd
  exact ⟨e, he, hle.trans hle'⟩

/-- Everything at or before the checkpoint is applied, and so is everything at or before the
    cursor of an account that is not held. -/
structure Sound (w : World) : Prop where
  checkpoint_mem : InLog w.log w.catalog.checkpoint
  checkpoint_applied : ∀ r ∈ w.log.records, AtOrBefore r w.catalog.checkpoint → r ∈ w.applied
  cursor_mem : InLog w.log w.service.cursor
  cursor_applied : ∀ r ∈ w.log.records, AtOrBefore r w.service.cursor →
    r ∈ w.applied ∨ isHeld w.service.holds (accountOf r)
  cursor_holds : w.service.cursor ≠ none → w.service.holds ≠ []

def CursorAhead (w : World) : Prop :=
  ∀ c d, w.catalog.checkpoint = some c → w.service.cursor = some d → c.sequence ≤ d.sequence

/-- The holds and the end of a completed pass. -/
structure ReportSound (w : World) (report : Report) : Prop where
  through_mem : InLog w.log report.scannedThrough
  through_applied : ∀ r ∈ w.log.records, AtOrBefore r report.scannedThrough →
    r ∈ w.applied ∨ isHeld report.holds (accountOf r)
  through_ahead : ∀ c d, w.catalog.checkpoint = some c → report.scannedThrough = some d →
    c.sequence ≤ d.sequence

/-! ## Growth of the journal -/

/-- What happens in the middle of a pass. -/
def Ordinary : TraceEvent → Prop
  | .committed _ => True
  | .refreshCalled _ => True
  | _ => False

/-- The service's fields that only the end of a pass changes. -/
structure SameSchedule (w w' : World) : Prop where
  cursor : w'.service.cursor = w.service.cursor
  holds : w'.service.holds = w.service.holds
  retrySource : w'.service.retrySource = w.service.retrySource
  stopped : w'.service.stopped = w.service.stopped
  timers : w'.timers = w.timers
  timersCreated : w'.timersCreated = w.timersCreated
  trace : ∃ new, w'.trace = w.trace ++ new ∧ ∀ event ∈ new, Ordinary event

lemma SameSchedule.refl (w : World) : SameSchedule w w := ⟨rfl, rfl, rfl, rfl, rfl, rfl, [], by simp⟩

lemma SameSchedule.trans {w w' w'' : World} (h : SameSchedule w w') (h' : SameSchedule w' w'') :
    SameSchedule w w'' := by
  obtain ⟨new, hnew, hordinary⟩ := h.trace
  obtain ⟨new', hnew', hordinary'⟩ := h'.trace
  refine ⟨h'.cursor.trans h.cursor, h'.holds.trans h.holds, h'.retrySource.trans h.retrySource,
    h'.stopped.trans h.stopped, h'.timers.trans h.timers, h'.timersCreated.trans h.timersCreated,
    new ++ new', by rw [hnew', hnew, List.append_assoc], fun event hevent => ?_⟩
  rcases List.mem_append.mp hevent with hold | hlater
  · exact hordinary event hold
  · exact hordinary' event hlater

/-- Records are only added at the end of the journal; nothing else that bounds a pass changes. -/
structure Grows (w w' : World) : Prop where
  records : ∃ new, w'.log.records = w.log.records ++ new ∧
    ∀ r ∈ new, w.log.nextSequence ≤ r.position.sequence
  nextSequence : w.log.nextSequence ≤ w'.log.nextSequence
  applied : w'.applied = w.applied
  checkpoint : w'.catalog.checkpoint = w.catalog.checkpoint
  schedule : SameSchedule w w'

lemma Grows.refl (w : World) : Grows w w := ⟨⟨[], by simp⟩, le_refl _, rfl, rfl, .refl w⟩

lemma Grows.trans {w w' w'' : World} (h : Grows w w') (h' : Grows w' w'') : Grows w w'' := by
  obtain ⟨new, hnew, hlater⟩ := h.records
  obtain ⟨new', hnew', hlater'⟩ := h'.records
  refine ⟨⟨new ++ new', by rw [hnew', hnew, List.append_assoc], ?_⟩, h.nextSequence.trans h'.nextSequence,
    h'.applied.trans h.applied, h'.checkpoint.trans h.checkpoint, h.schedule.trans h'.schedule⟩
  intro r hr
  rcases List.mem_append.mp hr with hr | hr
  · exact hlater r hr
  · exact h.nextSequence.trans (hlater' r hr)

section
variable {w w' : World}

lemma Grows.mem (h : Grows w w') {r : ProjectionRecord} (hr : r ∈ w.log.records) : r ∈ w'.log.records := by
  obtain ⟨new, hnew, -⟩ := h.records
  rw [hnew]
  exact List.mem_append_left _ hr

lemma Grows.inLog (h : Grows w w') {position : Option Position} (hp : InLog w.log position) :
    InLog w'.log position := by
  intro c hc
  obtain ⟨r, hr, hpos⟩ := hp c hc
  exact ⟨r, h.mem hr, hpos⟩

/-- A new record is after every position of the old journal. -/
lemma Grows.old_of_atOrBefore (h : Grows w w') {position : Option Position} (hp : InLog w.log position)
    {r : ProjectionRecord} (hr : r ∈ w'.log.records) (hle : AtOrBefore r position) :
    r ∈ w.log.records := by
  obtain ⟨new, hnew, hlater⟩ := h.records
  rw [hnew] at hr
  rcases List.mem_append.mp hr with hold | hr
  · exact hold
  · obtain ⟨c, hc, hle⟩ := hle
    obtain ⟨s, hs, hpos⟩ := hp c hc
    have hbound := (w.log.bounded s hs).2
    have := hlater r hr
    rw [hpos] at hbound
    simp only at hbound
    omega

lemma Sound.grows (h : Sound w) (hg : Grows w w') : Sound w' := by
  refine ⟨?_, ?_, ?_, ?_, ?_⟩
  · rw [hg.checkpoint]
    exact hg.inLog h.checkpoint_mem
  · intro r hr hle
    rw [hg.checkpoint] at hle
    rw [hg.applied]
    exact h.checkpoint_applied r (hg.old_of_atOrBefore h.checkpoint_mem hr hle) hle
  · rw [hg.schedule.cursor]
    exact hg.inLog h.cursor_mem
  · intro r hr hle
    rw [hg.schedule.cursor] at hle
    rw [hg.applied, hg.schedule.holds]
    exact h.cursor_applied r (hg.old_of_atOrBefore h.cursor_mem hr hle) hle
  · rw [hg.schedule.cursor, hg.schedule.holds]
    exact h.cursor_holds

lemma ReportSound.grows {report : Report} (h : ReportSound w report) (hg : Grows w w') :
    ReportSound w' report := by
  refine ⟨hg.inLog h.through_mem, ?_, ?_⟩
  · intro r hr hle
    rw [hg.applied]
    exact h.through_applied r (hg.old_of_atOrBefore h.through_mem hr hle) hle
  · rw [hg.checkpoint]
    exact h.through_ahead

lemma CursorAhead.grows (h : CursorAhead w) (hg : Grows w w') : CursorAhead w' := by
  unfold CursorAhead
  rw [hg.checkpoint, hg.schedule.cursor]
  exact h

lemma grows_append (w : World) (event : Option Event) (size : ℕ) :
    Grows w { w with log := w.log.append event size } := by
  refine ⟨⟨_, rfl, ?_⟩, Nat.le_succ _, rfl, rfl, ⟨rfl, rfl, rfl, rfl, rfl, rfl, [], (List.append_nil _).symm, by simp⟩⟩
  intro r hr
  cases event with
  | none => simp at hr
  | some event =>
    simp only [Option.map_some, Option.toList_some, List.mem_singleton] at hr
    rw [hr]
    exact le_refl _

lemma grows_appendAll (w : World) (events : List (Event × ℕ)) : Grows w (w.appendAll events) := by
  induction events generalizing w with
  | nil => exact .refl w
  | cons entry events ih =>
    exact (grows_append w (some entry.1) entry.2).trans
      (ih { w with log := w.log.append (some entry.1) entry.2 })

lemma grows_withService {service : Service} (h : SameSchedule w (w.withService service)) :
    Grows w (w.withService service) :=
  ⟨⟨[], by simp [World.withService]⟩, le_refl _, rfl, rfl, h⟩

lemma grows_record (w : World) (event : TraceEvent) (h : Ordinary event) : Grows w (w.record event) :=
  ⟨⟨[], by simp [World.record]⟩, le_refl _, rfl, rfl,
    ⟨rfl, rfl, rfl, rfl, rfl, rfl, [event], rfl, by simpa using h⟩⟩

lemma grows_withSession (w : World) (account : CString) (s : Session) :
    Grows w { w with catalog := w.catalog.withSession account s } :=
  ⟨⟨[], by simp⟩, le_refl _, rfl, rfl, ⟨rfl, rfl, rfl, rfl, rfl, rfl, [], (List.append_nil _).symm, by simp⟩⟩

end

/-! ## The steps around the passes -/

section
variable (env : PassEnv) (report : Report) (w : World)

lemma grows_addRefreshHold (account : CString) : Grows w (addRefreshHold account w) :=
  grows_withService ⟨rfl, rfl, rfl, rfl, rfl, rfl, [], (List.append_nil _).symm, by simp⟩

lemma grows_extractAccount (progress : World × Bool) (account : CString) :
    Grows progress.1 (extractAccount env progress account).1 := by
  obtain ⟨w, appendedAny⟩ := progress
  change Grows w (if (env.extract account).succeeded then w.appendAll (env.extract account).appended
    else addRefreshHold account (w.appendAll (env.extract account).appended))
  split
  · exact grows_appendAll w _
  · exact (grows_appendAll w _).trans (grows_addRefreshHold _ account)

lemma grows_foldl_extract (accounts : List CString) (progress : World × Bool) :
    Grows progress.1 (accounts.foldl (extractAccount env) progress).1 := by
  induction accounts generalizing progress with
  | nil => exact .refl _
  | cons account accounts ih => exact (grows_extractAccount env progress account).trans (ih _)

lemma grows_extractPending : Grows w (extractPending env report w).1 := by
  unfold extractPending
  split
  · exact .refl w
  · exact grows_foldl_extract env _ (w, false)

lemma grows_refreshAccount (account : CString) : Grows w (refreshAccount env w account) := by
  have h := (grows_appendAll w (env.refresh account).appended).trans
    (grows_record _ (.refreshCalled account) trivial)
  have h' := h.trans (grows_withSession _ account
    { ((w.appendAll (env.refresh account).appended).record (.refreshCalled account)).catalog.session
        account with
      tables := (env.refresh account).tables (w.catalog.tables account)
      derivedOwner := (env.refresh account).derivedOwner w.catalog.derivedOwner })
  unfold refreshAccount
  simp only
  split
  · exact h'.trans (grows_withService ⟨rfl, rfl, rfl, rfl, rfl, rfl, [], (List.append_nil _).symm, by simp⟩)
  · exact h'.trans (grows_addRefreshHold _ account)

lemma grows_foldl_refresh (accounts : List CString) :
    Grows w (accounts.foldl (refreshAccount env) w) := by
  induction accounts generalizing w with
  | nil => exact .refl w
  | cons account accounts ih => exact (grows_refreshAccount env w account).trans (ih _)

lemma grows_refreshPending : Grows w (refreshPending env report w) := by
  unfold refreshPending
  split
  · exact grows_withService ⟨rfl, rfl, rfl, rfl, rfl, rfl, [], (List.append_nil _).symm, by simp⟩
  · exact grows_foldl_refresh env w _

lemma grows_clearRefreshHolds : Grows w (w.withService { w.service with refreshHolds := [] }) :=
  grows_withService ⟨rfl, rfl, rfl, rfl, rfl, rfl, [], (List.append_nil _).symm, by simp⟩

lemma grows_queueMaterializedAccounts : Grows w (queueMaterializedAccounts report w) :=
  grows_withService ⟨rfl, rfl, rfl, rfl, rfl, rfl, [], (List.append_nil _).symm, by simp⟩

end

/-! ## One pass -/

/-- The holds a pass of this kind starts with. -/
def priorHolds (kind : PassKind) (w : World) : List Hold :=
  if kind = .postIngest then w.service.holds else []

/-- What a pass leaves behind, completed or aborted. -/
structure PassSound (kind : PassKind) (w w' : World) (result : Option Report) : Prop where
  log : w'.log = w.log
  schedule : SameSchedule w w'
  applied : ∀ r ∈ w.applied, r ∈ w'.applied
  sound : Sound w'
  notBehind : NotBehind w.catalog.checkpoint w'.catalog.checkpoint
  cursorAhead : kind = .postIngest → CursorAhead w'
  report : ∀ report, result = some report → ReportSound w' report
  prior : (∀ hold ∈ priorHolds kind w, Beyond w.catalog.checkpoint hold.position) →
    ∀ hold ∈ priorHolds kind w, Beyond w'.catalog.checkpoint hold.position
  holds : ∀ report, result = some report →
    ∀ hold ∈ report.holds, hold ∈ priorHolds kind w ∨ Beyond w'.catalog.checkpoint hold.position

section
variable {seed : Provisioned} {kind : PassKind} {env : Surroundings} {w : World}

/-- The start of a pass is the checkpoint, or the cursor of a post-ingest pass. -/
lemma start_sound (h : Sound w) (hahead : kind = .postIngest → CursorAhead w) :
    let start := startPosition w.catalog (if kind = .postIngest then w.service.cursor else none)
    NotBehind w.catalog.checkpoint start ∧ InLog w.log start ∧
      ∀ r ∈ w.log.records, AtOrBefore r start →
        r ∈ w.applied ∨ isHeld (priorHolds kind w) (accountOf r) := by
  have full : NotBehind w.catalog.checkpoint w.catalog.checkpoint ∧ InLog w.log w.catalog.checkpoint ∧
      ∀ r ∈ w.log.records, AtOrBefore r w.catalog.checkpoint →
        r ∈ w.applied ∨ isHeld (priorHolds kind w) (accountOf r) :=
    ⟨.refl _, h.checkpoint_mem, fun r hr hle => .inl (h.checkpoint_applied r hr hle)⟩
  by_cases hkind : kind = .postIngest
  · simp only [hkind, if_true]
    cases hcursor : w.service.cursor with
    | none => exact hkind ▸ full
    | some cursor =>
      refine ⟨?_, ?_, ?_⟩
      · intro c hc
        exact ⟨cursor, rfl, hahead hkind c cursor hc hcursor⟩
      · exact fun c hc => h.cursor_mem c (by rw [hcursor]; exact hc)
      · intro r hr hle
        simp only [priorHolds, if_true]
        exact h.cursor_applied r hr (by rw [hcursor]; exact hle)
  · simp only [hkind, if_false]
    exact full

lemma follows_of_pending {log : Log} {checkpoint start : Option Position}
    {records : List ProjectionRecord} (hpending : pendingRecords log start = some records)
    (hstart : NotBehind checkpoint start) : Follows checkpoint [] records := by
  obtain ⟨before, hsplit, -, hafter⟩ := pendingRecords_spec hpending
  refine ⟨?_, ?_⟩
  · have hordered := log.ordered
    rw [hsplit] at hordered
    exact (List.pairwise_append.mp hordered).2.1
  · intro c hc r hr
    obtain ⟨d, hd, hle⟩ := hstart c hc
    exact hle.trans_lt (hafter d hd r hr)

/-- A record of the journal is at or before the start of the pass, or the pass has it to replay. -/
lemma mem_pending_or_atOrBefore {log : Log} {start : Option Position} {records : List ProjectionRecord}
    (hpending : pendingRecords log start = some records) {r : ProjectionRecord} (hr : r ∈ log.records) :
    AtOrBefore r start ∨ r ∈ records := by
  obtain ⟨before, hsplit, hbefore, -⟩ := pendingRecords_spec hpending
  rw [hsplit] at hr
  exact (List.mem_append.mp hr).imp_left (hbefore r)

lemma pass_eq (seed : Provisioned) (env : Surroundings) (log : Log) (resumeAfter : Option Position)
    (prior : List Hold) (cat : Catalog) {records : List ProjectionRecord}
    (h : passRecords env log cat resumeAfter = some records) :
    let loop := passLoop seed env (startsAtCheckpoint cat resumeAfter) ⟨cat, prior, [], []⟩ (runs records)
    pass seed env log resumeAfter prior cat =
      (loop.1, if loop.2 then some ⟨loop.1.holds, records.length, scannedThrough records resumeAfter,
        loop.1.materializedAccounts.insertionSort CString.Le⟩ else none) := by
  simp only [Catchup.pass, h]
  split
  · rename_i p hp
    rw [hp]
    rfl
  · rename_i p hp
    rw [hp]
    rfl

lemma pass_eq_none (seed : Provisioned) (env : Surroundings) (log : Log) (resumeAfter : Option Position)
    (prior : List Hold) (cat : Catalog) (h : passRecords env log cat resumeAfter = none) :
    pass seed env log resumeAfter prior cat = (⟨cat, prior, [], []⟩, none) := by
  simp only [Catchup.pass, h]

/-- A pass that started, and how far its loop came. -/
structure Started (kind : PassKind) (w : World) (start : Option Position)
    (records replayed rest : List ProjectionRecord) (fromCheckpoint : Bool) (p : Progress) : Prop where
  behind : NotBehind w.catalog.checkpoint start
  inLog : InLog w.log start
  before : ∀ r ∈ w.log.records, AtOrBefore r start → r ∈ w.applied ∨ isHeld (priorHolds kind w) (accountOf r)
  pending : pendingRecords w.log start = some records
  split : records = replayed ++ rest
  replayed : Replayed (priorHolds kind w) w.catalog.checkpoint fromCheckpoint replayed p

namespace Started
variable {start : Option Position} {records replayed rest : List ProjectionRecord} {fromCheckpoint : Bool}
  {p : Progress} (hs : Started kind w start records replayed rest fromCheckpoint p)
include hs

lemma follows : Follows w.catalog.checkpoint [] records := follows_of_pending hs.pending hs.behind

lemma mem_log {r : ProjectionRecord} (hr : r ∈ records) : r ∈ w.log.records := by
  obtain ⟨before, hsplit, -, -⟩ := pendingRecords_spec hs.pending
  rw [hsplit]
  exact List.mem_append_right _ hr

lemma replayed_mem {r : ProjectionRecord} (hr : r ∈ replayed) : r ∈ records := by
  rw [hs.split]
  exact List.mem_append_left _ hr

lemma rest_after {r s : ProjectionRecord} (hr : r ∈ replayed) (hrest : s ∈ rest) :
    r.position.sequence < s.position.sequence := by
  have hordered := hs.follows.ordered
  rw [List.nil_append, hs.split] at hordered
  exact ((List.pairwise_append.mp hordered).2.2 r hr s hrest).2

lemma notBehind : NotBehind w.catalog.checkpoint p.catalog.checkpoint := by
  rcases hs.replayed.checkpoint with hsame | ⟨-, -, last, hlast, heq, -⟩
  · rw [hsame]
    exact .refl _
  · intro c hc
    exact ⟨last.position, heq, (hs.follows.checkpoint_lt c hc last (hs.replayed_mem hlast)).le⟩

lemma checkpoint_mem (h : Sound w) : InLog w.log p.catalog.checkpoint := by
  rcases hs.replayed.checkpoint with hsame | ⟨-, -, last, hlast, heq, -⟩
  · rw [hsame]
    exact h.checkpoint_mem
  · intro c hc
    rw [heq, Option.some.injEq] at hc
    exact ⟨last, hs.mem_log (hs.replayed_mem hlast), hc⟩

lemma checkpoint_applied (h : Sound w) {r : ProjectionRecord} (hr : r ∈ w.log.records)
    (hle : AtOrBefore r p.catalog.checkpoint) : r ∈ w.applied ∨ r ∈ committedRecords p := by
  rcases hs.replayed.checkpoint with hsame | ⟨-, hprior, last, hlast, heq, hall⟩
  · exact .inl (h.checkpoint_applied r hr (hsame ▸ hle))
  · obtain ⟨c, hc, hle⟩ := hle
    rw [heq, Option.some.injEq] at hc
    subst hc
    rcases mem_pending_or_atOrBefore hs.pending hr with hstart | hmem
    · refine .inl ((hs.before r hr hstart).resolve_right ?_)
      rw [hprior]
      simp [isHeld]
    · rw [hs.split] at hmem
      rcases List.mem_append.mp hmem with hdone | hrest
      · exact .inr (hall r hdone hle)
      · have := hs.rest_after hlast hrest
        omega

lemma cursorAhead (h : Sound w) (hkind : kind = .postIngest) (hahead : CursorAhead w) :
    ∀ c d, p.catalog.checkpoint = some c → w.service.cursor = some d → c.sequence ≤ d.sequence := by
  intro c d hc hd
  rcases hs.replayed.checkpoint with hsame | ⟨-, hprior, -⟩
  · exact hahead c d (hsame ▸ hc) hd
  · -- the cursor would come with holds, and the checkpoint moves only without
    simp only [priorHolds, hkind, if_true] at hprior
    exact absurd hprior (h.cursor_holds (by simp [hd]))

lemma prior (hbeyond : ∀ hold ∈ priorHolds kind w, Beyond w.catalog.checkpoint hold.position) :
    ∀ hold ∈ priorHolds kind w, Beyond p.catalog.checkpoint hold.position := by
  rcases hs.replayed.checkpoint with hsame | ⟨-, hprior, -⟩
  · rw [hsame]
    exact hbeyond
  · rw [hprior]
    simp

lemma holds : ∀ hold ∈ p.holds, hold ∈ priorHolds kind w ∨ Beyond p.catalog.checkpoint hold.position := by
  obtain ⟨new, heq, hnew⟩ := hs.replayed.holds
  intro hold hmem
  rw [heq] at hmem
  exact (List.mem_append.mp hmem).imp_right fun hmem => (hnew hold hmem).2

lemma through_applied (hrest : rest = []) {r : ProjectionRecord} (hr : r ∈ w.log.records)
    (hle : AtOrBefore r start ∨ r ∈ records) :
    (r ∈ w.applied ∨ r ∈ committedRecords p) ∨ isHeld p.holds (accountOf r) := by
  rcases hle with hstart | hmem
  · refine (hs.before r hr hstart).imp .inl fun hheld => ?_
    obtain ⟨new, heq, -⟩ := hs.replayed.holds
    rw [heq, isHeld_append, hheld, Bool.true_or]
  · rw [hs.split, hrest, List.append_nil] at hmem
    exact (hs.replayed.committed_or_held r hmem).imp_left .inr

lemma le_last {last r : ProjectionRecord} (hlast : records.getLast? = some last) (hr : r ∈ records) :
    r.position.sequence ≤ last.position.sequence := by
  obtain ⟨init, rfl⟩ := List.getLast?_eq_some_iff.mp hlast
  have hordered := hs.follows.ordered
  rw [List.nil_append] at hordered
  rcases List.mem_append.mp hr with hinit | hlast
  · exact ((List.pairwise_append.mp hordered).2.2 r hinit last List.mem_cons_self).2.le
  · rw [List.mem_singleton.mp hlast]

/-- The end of a completed pass is not behind the checkpoint it left. -/
lemma through_ahead {resumeAfter : Option Position} (hresume : ∀ d, resumeAfter = some d → start = some d)
    {c d : Position} (hc : p.catalog.checkpoint = some c) (hd : scannedThrough records resumeAfter = some d) :
    c.sequence ≤ d.sequence := by
  unfold scannedThrough at hd
  cases hlast : records.getLast? with
  | some last =>
    rw [hlast] at hd
    simp only [Option.some.injEq] at hd
    subst hd
    rcases hs.replayed.checkpoint with hsame | ⟨-, -, r, hr, heq, -⟩
    · exact (hs.follows.checkpoint_lt c (hsame ▸ hc) last (List.mem_of_getLast? hlast)).le
    · rw [heq, Option.some.injEq] at hc
      subst hc
      exact hs.le_last hlast (hs.replayed_mem hr)
  | none =>
    rw [hlast] at hd
    have hempty : records = [] := List.getLast?_eq_none_iff.mp hlast
    rcases hs.replayed.checkpoint with hsame | ⟨-, -, r, hr, -⟩
    · obtain ⟨e, he, hle⟩ := hs.behind c (hsame ▸ hc)
      rw [hresume d hd, Option.some.injEq] at he
      exact he ▸ hle
    · have := hs.replayed_mem hr
      rw [hempty] at this
      simp at this

lemma through_mem {resumeAfter : Option Position} (hresume : ∀ d, resumeAfter = some d → start = some d) :
    InLog w.log (scannedThrough records resumeAfter) := by
  intro d hd
  unfold scannedThrough at hd
  cases hlast : records.getLast? with
  | some last =>
    rw [hlast, Option.some.injEq] at hd
    exact ⟨last, hs.mem_log (List.mem_of_getLast? hlast), hd⟩
  | none =>
    rw [hlast] at hd
    exact hs.inLog d (hresume d hd)

end Started

theorem runPass_sound (seed : Provisioned) (env : Surroundings) (h : Sound w)
    (hahead : kind = .postIngest → CursorAhead w) :
    PassSound kind w (runPass seed kind env w).1 (runPass seed kind env w).2 := by
  obtain ⟨hbehind, hinLog, hbefore⟩ := start_sound h hahead
  set resumeAfter := if kind = .postIngest then w.service.cursor else none with hresume
  have hprior : (if kind = .postIngest then w.service.holds else []) = priorHolds kind w := rfl
  have hassert : assertCursorHasHolds w = w := by
    rw [assertCursorHasHolds, if_neg]
    exact fun hfails => h.cursor_holds hfails.1 hfails.2
  unfold runPass
  simp only [servicePass, hassert, ← hresume, hprior]
  cases hrecords : passRecords env w.log w.catalog resumeAfter with
  | none =>
    rw [pass_eq_none _ _ _ _ _ _ hrecords]
    have hsame : Grows w { w with applied := w.applied ++ [], trace := w.trace ++ [] } :=
      ⟨⟨[], by simp⟩, le_refl _, by simp, rfl, ⟨rfl, rfl, rfl, rfl, rfl, rfl, [], rfl, by simp⟩⟩
    exact {
      log := rfl
      schedule := hsame.schedule
      applied := fun r hr => List.mem_append_left _ hr
      sound := h.grows hsame
      notBehind := .refl _
      cursorAhead := fun hkind => (hahead hkind).grows hsame
      report := by simp
      prior := id
      holds := by simp }
  | some records =>
    have hpending := passRecords_eq_some hrecords
    rw [pass_eq _ _ _ _ _ _ hrecords]
    have hinitial : Replayed (priorHolds kind w) w.catalog.checkpoint
        (startsAtCheckpoint w.catalog resumeAfter) [] ⟨w.catalog, priorHolds kind w, [], []⟩ :=
      ⟨by simp, by simp [committedRecords], ⟨[], by simp, by simp⟩, .inl rfl⟩
    obtain ⟨replayed, rest, hsplit, hreplayed, hcomplete⟩ := @Replayed.loop seed env _ _ _ _ _ hinitial
      (runs records) (by rw [runs_flatMap]; exact follows_of_pending hpending hbehind) runs_uniform
    rw [runs_flatMap] at hsplit
    rw [List.nil_append] at hreplayed
    generalize passLoop seed env (startsAtCheckpoint w.catalog resumeAfter)
      ⟨w.catalog, priorHolds kind w, [], []⟩ (runs records) = loop at hreplayed hcomplete ⊢
    obtain ⟨p, completed⟩ := loop
    simp only at hreplayed hcomplete ⊢
    have hs : Started kind w (startPosition w.catalog resumeAfter) records replayed rest
        (startsAtCheckpoint w.catalog resumeAfter) p :=
      ⟨hbehind, hinLog, hbefore, hpending, hsplit, hreplayed⟩
    have hstart : ∀ d, resumeAfter = some d → startPosition w.catalog resumeAfter = some d := by
      intro d hd
      rw [hd]
      rfl
    exact {
      log := rfl
      schedule := ⟨rfl, rfl, rfl, rfl, rfl, rfl, _, rfl, by simp [Ordinary]⟩
      applied := fun r hr => List.mem_append_left _ hr
      sound := {
        checkpoint_mem := hs.checkpoint_mem h
        checkpoint_applied := fun r hr hle => List.mem_append.mpr (hs.checkpoint_applied h hr hle)
        cursor_mem := h.cursor_mem
        cursor_applied := fun r hr hle =>
          (h.cursor_applied r hr hle).imp_left fun hr => List.mem_append_left _ hr
        cursor_holds := h.cursor_holds }
      notBehind := hs.notBehind
      cursorAhead := fun hkind => hs.cursorAhead h hkind (hahead hkind)
      prior := hs.prior
      report := by
        intro report hreport
        cases completed with
        | false => simp at hreport
        | true =>
          simp only [if_true, Option.some.injEq] at hreport
          subst hreport
          refine ⟨hs.through_mem hstart, ?_, fun c d hc hd => hs.through_ahead hstart hc hd⟩
          intro r hr _
          exact (hs.through_applied (hcomplete rfl) hr (mem_pending_or_atOrBefore hpending hr)).imp_left
            List.mem_append.mpr
      holds := by
        intro report hreport
        cases completed with
        | false => simp at hreport
        | true =>
          simp only [if_true, Option.some.injEq] at hreport
          subst hreport
          exact hs.holds }

/-! ## A pass with its extractions and refreshes -/

/-- What the passes, extractions and refreshes of one entry point leave behind. -/
structure DerivedSound (kind : PassKind) (w w' : World) (result : Option Report) : Prop where
  schedule : SameSchedule w w'
  sound : Sound w'
  notBehind : NotBehind w.catalog.checkpoint w'.catalog.checkpoint
  report : ∀ report, result = some report → ReportSound w' report
  holds : ∀ report, result = some report →
    (∀ hold ∈ priorHolds kind w, Beyond w.catalog.checkpoint hold.position) →
    ∀ hold ∈ report.holds, Beyond w'.catalog.checkpoint hold.position

lemma priorHolds_of_schedule {w' : World} (h : SameSchedule w w') : priorHolds kind w' = priorHolds kind w := by
  simp only [priorHolds, h.holds]

/-- The refreshes after a completed pass change nothing that the pass left. -/
lemma PassSound.refreshed {w₁ w₂ w₃ : World} {report : Report} (hpass : PassSound kind w₁ w₂ (some report))
    (hschedule : SameSchedule w w₁) (hbehind : NotBehind w.catalog.checkpoint w₁.catalog.checkpoint)
    (hprior : (∀ hold ∈ priorHolds kind w, Beyond w.catalog.checkpoint hold.position) →
      ∀ hold ∈ priorHolds kind w, Beyond w₁.catalog.checkpoint hold.position)
    (hgrows : Grows w₂ w₃) : DerivedSound kind w w₃ (some report) where
  schedule := (hschedule.trans hpass.schedule).trans hgrows.schedule
  sound := hpass.sound.grows hgrows
  notBehind := by
    rw [hgrows.checkpoint]
    exact hbehind.trans hpass.notBehind
  report := fun r hr => (hpass.report r hr).grows hgrows
  holds := by
    intro r hr hbeyond hold hmem
    rw [hgrows.checkpoint]
    rcases hpass.holds r hr hold hmem with hold' | hnew
    · rw [← priorHolds_of_schedule hschedule] at hprior hbeyond
      exact hpass.prior (hprior hbeyond) hold hold'
    · exact hnew

theorem runDerivedPass_sound (seed : Provisioned) (env : PassEnv) (h : Sound w)
    (hahead : kind = .postIngest → CursorAhead w) :
    DerivedSound kind w (runDerivedPass seed kind env w).1 (runDerivedPass seed kind env w).2 := by
  have hfirst := runPass_sound seed env.first h hahead
  unfold runDerivedPass
  generalize runPass seed kind env.first w = first at hfirst ⊢
  obtain ⟨w₁, result⟩ := first
  cases result with
  | none =>
    exact {
      schedule := hfirst.schedule
      sound := hfirst.sound
      notBehind := hfirst.notBehind
      report := by simp
      holds := by simp }
  | some report =>
    simp only
    have hqueued := (grows_queueMaterializedAccounts report w₁).trans (grows_clearRefreshHolds _)
    generalize (queueMaterializedAccounts report w₁).withService
      { (queueMaterializedAccounts report w₁).service with refreshHolds := [] } = w₂ at hqueued ⊢
    have hextract := grows_extractPending env report w₂
    generalize extractPending env report w₂ = extracted at hextract ⊢
    obtain ⟨w₃, appendedAny⟩ := extracted
    have hgrows := hqueued.trans hextract
    cases appendedAny with
    | false =>
      exact hfirst.refreshed (.refl w) (.refl _) id (hgrows.trans (grows_refreshPending env report w₃))
    | true =>
      simp only
      have hsecond := @runPass_sound kind w₃ seed env.followUp (hfirst.sound.grows hgrows)
        fun hkind => (hfirst.cursorAhead hkind).grows hgrows
      have hschedule : SameSchedule w w₃ := hfirst.schedule.trans hgrows.schedule
      have hbehind : NotBehind w.catalog.checkpoint w₃.catalog.checkpoint := by
        rw [hgrows.checkpoint]
        exact hfirst.notBehind
      have hprior : (∀ hold ∈ priorHolds kind w, Beyond w.catalog.checkpoint hold.position) →
          ∀ hold ∈ priorHolds kind w, Beyond w₃.catalog.checkpoint hold.position := by
        rw [hgrows.checkpoint]
        exact hfirst.prior
      generalize runPass seed kind env.followUp w₃ = second at hsecond ⊢
      obtain ⟨w₄, result⟩ := second
      cases result with
      | none =>
        exact {
          schedule := hschedule.trans hsecond.schedule
          sound := hsecond.sound
          notBehind := hbehind.trans hsecond.notBehind
          report := by simp
          holds := by simp }
      | some report =>
        exact hsecond.refreshed hschedule hbehind hprior
          ((grows_queueMaterializedAccounts report w₄).trans (grows_refreshPending env report _))

end
end Wyrebox.CheckpointInvariant
