import Wyrebox.Catchup

set_option autoImplicit false

/-!
# What one catch-up pass does

The pass loop keeps every replayed record either committed or held, and moves the checkpoint only
over records it has committed.
-/
namespace Wyrebox.PassInvariant
open Catalog Materializer Catchup
open JournalWriter (Position)

/-! ## Runs -/

lemma runs_flatMap (records : List ProjectionRecord) : (runs records).flatMap Run.records = records := by
  induction records with
  | nil => rfl
  | cons record records ih =>
    rw [runs]
    cases hruns : runs records with
    | nil =>
      rw [hruns] at ih
      simp only [List.flatMap_nil] at ih
      simp [Run.records, ← ih]
    | cons run more =>
      rw [hruns] at ih
      simp only [List.flatMap_cons] at ih
      change List.flatMap Run.records (if _ then _ else _) = _
      split <;> simp [Run.records, ← ih]

lemma runs_uniform {records : List ProjectionRecord} : ∀ run ∈ runs records, Run.Uniform run := by
  induction records with
  | nil => simp [runs]
  | cons record records ih =>
    have single : Run.Uniform ⟨record, []⟩ := by
      intro r hr
      simp only [Run.records, List.mem_singleton] at hr
      rw [hr]
      rfl
    intro run hrun
    rw [runs] at hrun
    cases hruns : runs records with
    | nil =>
      rw [hruns] at hrun
      rw [List.mem_singleton.mp hrun]
      exact single
    | cons first more =>
      rw [hruns] at hrun ih
      change run ∈ (if _ then _ else _) at hrun
      split at hrun
      · rename_i hjoin
        rcases List.mem_cons.mp hrun with rfl | hmore
        · have hfirst := ih first List.mem_cons_self
          have haccount : first.account = accountOf record := by
            change accountOf first.first = _
            rw [accountOf, accountOf, hjoin.2.2]
          intro r hr
          rcases List.mem_cons.mp hr with rfl | hr
          · rfl
          · change accountOf r = accountOf record
            rw [← haccount]
            exact hfirst r hr
        · exact ih run (List.mem_cons_of_mem _ hmore)
      · rcases List.mem_cons.mp hrun with rfl | hmore
        · exact single
        · exact ih run hmore

/-! ## One turn of the loop -/

def committedRecords (p : Progress) : List ProjectionRecord :=
  p.commits.flatMap fun commit => commit.run.records

section
variable {seed : Provisioned} {env : Surroundings} {fromCheckpoint : Bool} {p p' : Progress} {run : Run}
  {more : List Run}

lemma applyRun_checkpoint {advance : Bool} {cat cat' : Catalog}
    (h : applyRun seed run advance cat = .ok cat') :
    cat'.checkpoint =
      if advance then saveCheckpoint cat.checkpoint run.last.position else cat.checkpoint := by
  unfold applyRun at h
  split at h
  · simp at h
  · simp only [Except.ok.injEq] at h
    rw [← h]
    cases advance <;> rfl

lemma stepRun_eq_some (h : stepRun seed env fromCheckpoint p run = some p') :
    (isHeld p.holds run.account = true ∧ p' = p) ∨
    (isHeld p.holds run.account = false ∧ p' = p.addHold run) ∨
    (isHeld p.holds run.account = false ∧ ∃ cat,
      applyRun seed run (fromCheckpoint && p.holds.isEmpty) p.catalog = .ok cat ∧ p' = p.commit run cat) := by
  unfold stepRun at h
  split at h
  · rename_i hheld
    exact .inl ⟨hheld, (Option.some.inj h).symm⟩
  · rename_i hheld
    have hfree : isHeld p.holds run.account = false := by simpa using hheld
    split at h
    · exact .inr (.inl ⟨hfree, (Option.some.inj h).symm⟩)
    · split at h
      · simp at h
      · split at h
        · rename_i cat hcat
          exact .inr (.inr ⟨hfree, cat, hcat, (Option.some.inj h).symm⟩)
        · exact .inr (.inl ⟨hfree, (Option.some.inj h).symm⟩)

lemma stepRun_holds (h : stepRun seed env fromCheckpoint p run = some p') (hholds : p'.holds = []) :
    p.holds = [] ∧ ∃ cat, applyRun seed run (fromCheckpoint && p.holds.isEmpty) p.catalog = .ok cat ∧
      p' = p.commit run cat := by
  rcases stepRun_eq_some h with ⟨hheld, rfl⟩ | ⟨-, rfl⟩ | ⟨-, cat, hcat, rfl⟩
  · rw [hholds] at hheld
    simp [isHeld] at hheld
  · simp [Progress.addHold] at hholds
  · exact ⟨hholds, cat, hcat, rfl⟩

lemma passLoop_holds (hend : (passLoop seed env fromCheckpoint p more).1.holds = []) : p.holds = [] := by
  induction more generalizing p with
  | nil => exact hend
  | cons run more ih =>
    rw [passLoop] at hend
    cases hstep : stepRun seed env fromCheckpoint p run with
    | none =>
      rw [hstep] at hend
      exact hend
    | some p₁ =>
      rw [hstep] at hend
      exact (stepRun_holds hstep (ih hend)).1

/-! ## The loop -/

lemma isHeld_append (holds more : List Hold) (account : CString) :
    isHeld (holds ++ more) account = (isHeld holds account || isHeld more account) := List.any_append

@[simp] lemma isHeld_singleton (hold : Hold) : isHeld [hold] hold.accountId = true := by simp [isHeld]

/-- The state of a pass that replayed `done`, relative to the holds and the checkpoint it
    started with. -/
structure Replayed (priorHolds : List Hold) (checkpoint : Option Position) (fromCheckpoint : Bool)
    (done : List ProjectionRecord) (p : Progress) : Prop where
  committed_or_held : ∀ r ∈ done, r ∈ committedRecords p ∨ isHeld p.holds (accountOf r)
  committed_mem : ∀ r ∈ committedRecords p, r ∈ done
  holds : ∃ new, p.holds = priorHolds ++ new ∧ ∀ hold ∈ new, (∃ r ∈ done, r.position = hold.position) ∧
    ∀ c, p.catalog.checkpoint = some c → c.sequence < hold.position.sequence
  checkpoint : p.catalog.checkpoint = checkpoint ∨
    (fromCheckpoint = true ∧ priorHolds = [] ∧ ∃ r ∈ done, p.catalog.checkpoint = some r.position ∧
      ∀ s ∈ done, s.position.sequence ≤ r.position.sequence → s ∈ committedRecords p)

/-- `records` come after `done` and after the checkpoint. -/
structure Follows (checkpoint : Option Position) (done records : List ProjectionRecord) : Prop where
  ordered : (done ++ records).Pairwise fun r s => Precedes r.position s.position
  checkpoint_lt : ∀ c, checkpoint = some c → ∀ r ∈ done ++ records, c.sequence < r.position.sequence

lemma Follows.lt_of_mem {checkpoint : Option Position} {done records : List ProjectionRecord}
    (h : Follows checkpoint done records) {r s : ProjectionRecord} (hr : r ∈ done) (hs : s ∈ records) :
    r.position.sequence < s.position.sequence :=
  ((List.pairwise_append.mp h.ordered).2.2 r hr s hs).2

variable {priorHolds : List Hold} {checkpoint : Option Position} {done : List ProjectionRecord}

/-- The checkpoint of a pass lies before everything it has not replayed yet. -/
lemma Replayed.checkpoint_lt (h : Replayed priorHolds checkpoint fromCheckpoint done p)
    {records : List ProjectionRecord} (hf : Follows checkpoint done records) {r : ProjectionRecord}
    (hr : r ∈ records) : ∀ c, p.catalog.checkpoint = some c → c.sequence < r.position.sequence := by
  intro c hc
  rcases h.checkpoint with hsame | ⟨-, -, last, hlast, heq, -⟩
  · exact hf.checkpoint_lt c (hsame ▸ hc) r (List.mem_append_right _ hr)
  · rw [heq, Option.some.injEq] at hc
    subst hc
    exact hf.lt_of_mem hlast hr

lemma Replayed.skip (h : Replayed priorHolds checkpoint fromCheckpoint done p) (hu : Run.Uniform run)
    (hheld : isHeld p.holds run.account = true) :
    (∀ r ∈ done ++ run.records, r ∈ committedRecords p ∨ isHeld p.holds (accountOf r)) := by
  intro r hr
  rcases List.mem_append.mp hr with hold | hnew
  · exact h.committed_or_held r hold
  · exact .inr (by rw [hu r hnew]; exact hheld)

lemma Replayed.addHold (h : Replayed priorHolds checkpoint fromCheckpoint done p)
    (hf : Follows checkpoint done run.records) (hu : Run.Uniform run) :
    Replayed priorHolds checkpoint fromCheckpoint (done ++ run.records) (p.addHold run) := by
  obtain ⟨new, hholds, hnew⟩ := h.holds
  have hself : isHeld (p.addHold run).holds run.account = true := by
    change isHeld (p.holds ++ [_]) _ = true
    rw [isHeld_append, Bool.or_eq_true]
    exact .inr (isHeld_singleton _)
  refine ⟨?_, ?_, ⟨new ++ [⟨run.account, run.first.position⟩], ?_, ?_⟩, ?_⟩
  · intro r hr
    rcases List.mem_append.mp hr with hold | hnew'
    · rcases h.committed_or_held r hold with hc | hh
      · exact .inl hc
      · right
        change isHeld (p.holds ++ [_]) _ = true
        rw [isHeld_append, hh, Bool.true_or]
    · exact .inr (by rw [hu r hnew']; exact hself)
  · intro r hr
    exact List.mem_append_left _ (h.committed_mem r hr)
  · change p.holds ++ [_] = _
    rw [hholds, List.append_assoc]
  · intro hold hmem
    rcases List.mem_append.mp hmem with hold' | hlast
    · obtain ⟨⟨r, hr, hpos⟩, hcp⟩ := hnew hold hold'
      exact ⟨⟨r, List.mem_append_left _ hr, hpos⟩, hcp⟩
    · rw [List.mem_singleton] at hlast
      subst hlast
      refine ⟨⟨run.first, List.mem_append_right _ run.first_mem, rfl⟩, ?_⟩
      exact h.checkpoint_lt hf run.first_mem
  · rcases h.checkpoint with hsame | ⟨hfrom, hprior, last, hlast, heq, hall⟩
    · exact .inl hsame
    · refine .inr ⟨hfrom, hprior, last, List.mem_append_left _ hlast, heq, ?_⟩
      intro s hs hle
      rcases List.mem_append.mp hs with hs | hs
      · exact hall s hs hle
      · have := hf.lt_of_mem hlast hs
        omega

lemma committedRecords_commit (p : Progress) (run : Run) (cat : Catalog) :
    committedRecords (p.commit run cat) = committedRecords p ++ run.records := by
  simp [committedRecords, Progress.commit]

lemma saveCheckpoint_of_lt {stored : Option Position} {position : Position}
    (h : ∀ c, stored = some c → c.sequence < position.sequence) :
    saveCheckpoint stored position = some position := by
  cases stored with
  | none => rfl
  | some c =>
    rw [saveCheckpoint]
    exact if_pos (.inl (h c rfl))

/-- With no hold, everything replayed so far is committed. -/
lemma Replayed.all_committed (h : Replayed priorHolds checkpoint fromCheckpoint done p)
    (hholds : p.holds = []) : priorHolds = [] ∧ ∀ r ∈ done, r ∈ committedRecords p := by
  obtain ⟨new, heq, -⟩ := h.holds
  rw [hholds] at heq
  refine ⟨(List.append_eq_nil_iff.mp heq.symm).1, fun r hr => ?_⟩
  rcases h.committed_or_held r hr with hc | hh
  · exact hc
  · rw [hholds] at hh
    simp [isHeld] at hh

lemma Replayed.commit (h : Replayed priorHolds checkpoint fromCheckpoint done p)
    (hf : Follows checkpoint done run.records) {cat : Catalog}
    (happly : applyRun seed run (fromCheckpoint && p.holds.isEmpty) p.catalog = .ok cat) :
    Replayed priorHolds checkpoint fromCheckpoint (done ++ run.records) (p.commit run cat) := by
  have hcheckpoint := applyRun_checkpoint happly
  have hlater := h.checkpoint_lt hf run.last_mem
  have hmem : ∀ r, r ∈ committedRecords (p.commit run cat) ↔ r ∈ committedRecords p ∨ r ∈ run.records := by
    intro r
    rw [committedRecords_commit, List.mem_append]
  obtain ⟨new, hholds, hnew⟩ := h.holds
  refine ⟨?_, ?_, ⟨new, hholds, ?_⟩, ?_⟩
  · intro r hr
    rcases List.mem_append.mp hr with hold | hrun
    · exact (h.committed_or_held r hold).imp_left fun hc => (hmem r).mpr (.inl hc)
    · exact .inl ((hmem r).mpr (.inr hrun))
  · intro r hr
    rcases (hmem r).mp hr with hc | hrun
    · exact List.mem_append_left _ (h.committed_mem r hc)
    · exact List.mem_append_right _ hrun
  · -- a new hold stops the checkpoint, so it is still where it was
    intro hold hmem'
    obtain ⟨⟨r, hr, hpos⟩, hcp⟩ := hnew hold hmem'
    have hne : p.holds.isEmpty = false := by
      rw [hholds, List.isEmpty_eq_false_iff]
      exact List.ne_nil_of_mem (List.mem_append_right _ hmem')
    refine ⟨⟨r, List.mem_append_left _ hr, hpos⟩, ?_⟩
    change ∀ c, cat.checkpoint = some c → _
    rw [hcheckpoint, hne, Bool.and_false]
    exact hcp
  · change cat.checkpoint = checkpoint ∨ (_ ∧ _ ∧ ∃ r ∈ _, cat.checkpoint = _ ∧ _)
    rw [hcheckpoint]
    split
    · rename_i hadvance
      rw [Bool.and_eq_true, List.isEmpty_iff] at hadvance
      obtain ⟨hprior, hall⟩ := h.all_committed hadvance.2
      refine .inr ⟨hadvance.1, hprior, run.last, List.mem_append_right _ run.last_mem,
        saveCheckpoint_of_lt hlater, ?_⟩
      intro s hs _
      rcases List.mem_append.mp hs with hold | hrun
      · exact (hmem s).mpr (.inl (hall s hold))
      · exact (hmem s).mpr (.inr hrun)
    · rcases h.checkpoint with hsame | ⟨hfrom, hprior, last, hlast, heq, hall⟩
      · exact .inl hsame
      · refine .inr ⟨hfrom, hprior, last, List.mem_append_left _ hlast, heq, ?_⟩
        intro s hs hle
        rcases List.mem_append.mp hs with hold | hrun
        · exact (hmem s).mpr (.inl (hall s hold hle))
        · have := hf.lt_of_mem hlast hrun
          omega

/-- One turn of the loop replays one more run. -/
lemma Replayed.step (h : Replayed priorHolds checkpoint fromCheckpoint done p)
    (hf : Follows checkpoint done run.records) (hu : Run.Uniform run)
    (hstep : stepRun seed env fromCheckpoint p run = some p') :
    Replayed priorHolds checkpoint fromCheckpoint (done ++ run.records) p' := by
  rcases stepRun_eq_some hstep with ⟨hheld, rfl⟩ | ⟨-, rfl⟩ | ⟨-, cat, happly, rfl⟩
  · obtain ⟨new, hholds, hnew⟩ := h.holds
    refine ⟨h.skip hu hheld, fun r hr => List.mem_append_left _ (h.committed_mem r hr),
      ⟨new, hholds, fun hold hmem => ?_⟩, ?_⟩
    · obtain ⟨⟨r, hr, hpos⟩, hcp⟩ := hnew hold hmem
      exact ⟨⟨r, List.mem_append_left _ hr, hpos⟩, hcp⟩
    · rcases h.checkpoint with hsame | ⟨hfrom, hprior, last, hlast, heq, hall⟩
      · exact .inl hsame
      · refine .inr ⟨hfrom, hprior, last, List.mem_append_left _ hlast, heq, fun s hs hle => ?_⟩
        rcases List.mem_append.mp hs with hold | hrun
        · exact hall s hold hle
        · have := hf.lt_of_mem hlast hrun
          omega
  · exact h.addHold hf hu
  · exact h.commit hf happly

/-- The loop stops after some first runs; it completes exactly when those are all. -/
lemma Replayed.loop (h : Replayed priorHolds checkpoint fromCheckpoint done p) {more : List Run}
    (hf : Follows checkpoint done (more.flatMap Run.records)) (hu : ∀ run ∈ more, Run.Uniform run) :
    ∃ replayed rest, more.flatMap Run.records = replayed ++ rest ∧
      Replayed priorHolds checkpoint fromCheckpoint (done ++ replayed)
        (passLoop seed env fromCheckpoint p more).1 ∧
      ((passLoop seed env fromCheckpoint p more).2 = true → rest = []) := by
  induction more generalizing p done with
  | nil => exact ⟨[], [], rfl, by simpa [passLoop] using h, fun _ => rfl⟩
  | cons run more ih =>
    rw [List.flatMap_cons] at hf ⊢
    rw [passLoop]
    cases hstep : stepRun seed env fromCheckpoint p run with
    | none => exact ⟨[], _, rfl, by simpa using h, fun hdone => absurd hdone (by simp)⟩
    | some p' =>
      have hrun : Follows checkpoint done run.records :=
        ⟨hf.ordered.sublist (by simp), fun c hc r hr => hf.checkpoint_lt c hc r (by
          rcases List.mem_append.mp hr with hr | hr <;> simp [hr])⟩
      have hstep' := h.step hrun (hu run List.mem_cons_self) hstep
      have hmore : Follows checkpoint (done ++ run.records) (more.flatMap Run.records) := by
        refine ⟨?_, ?_⟩
        · rw [List.append_assoc]
          exact hf.ordered
        · intro c hc r hr
          rw [List.append_assoc] at hr
          exact hf.checkpoint_lt c hc r hr
      obtain ⟨replayed, rest, heq, hreplayed, hcomplete⟩ :=
        ih hstep' hmore fun run' hrun' => hu run' (List.mem_cons_of_mem _ hrun')
      refine ⟨run.records ++ replayed, rest, ?_, ?_, hcomplete⟩
      · rw [heq, List.append_assoc]
      · rwa [← List.append_assoc]

end

/-! ## Where a pass starts -/

lemma recordsAfter_eq_some {records rest : List ProjectionRecord} {position : Position}
    (h : recordsAfter records position = some rest) :
    ∃ before r, records = before ++ r :: rest ∧ r.position = position := by
  induction records with
  | nil => simp [recordsAfter] at h
  | cons record records ih =>
    rw [recordsAfter] at h
    split at h
    · rename_i heq
      simp only [Option.some.injEq] at h
      exact ⟨[], record, by rw [h]; rfl, heq⟩
    · obtain ⟨before, r, hsplit, hpos⟩ := ih h
      exact ⟨record :: before, r, by rw [hsplit]; rfl, hpos⟩

lemma exists_recordsAfter {records : List ProjectionRecord} {r : ProjectionRecord} (h : r ∈ records) :
    ∃ rest, recordsAfter records r.position = some rest := by
  induction records with
  | nil => simp at h
  | cons record records ih =>
    rw [recordsAfter]
    split
    · exact ⟨records, rfl⟩
    · rename_i hne
      rcases List.mem_cons.mp h with rfl | hmem
      · exact absurd rfl hne
      · exact ih hmem

/-- The position is that of a record of the log, or absent. -/
def InLog (log : Log) (position : Option Position) : Prop :=
  ∀ c, position = some c → ∃ r ∈ log.records, r.position = c

/-- The record is at or before the position. -/
def AtOrBefore (r : ProjectionRecord) (position : Option Position) : Prop :=
  ∃ c, position = some c ∧ r.position.sequence ≤ c.sequence

/-- A pass replays exactly the records after its start. -/
lemma pendingRecords_spec {log : Log} {start : Option Position} {records : List ProjectionRecord}
    (h : pendingRecords log start = some records) :
    ∃ before, log.records = before ++ records ∧ (∀ r ∈ before, AtOrBefore r start) ∧
      ∀ c, start = some c → ∀ r ∈ records, c.sequence < r.position.sequence := by
  cases start with
  | none =>
    simp only [pendingRecords, Option.some.injEq] at h
    exact ⟨[], by simpa using h, by simp, by simp⟩
  | some position =>
    obtain ⟨before, r, hsplit, hpos⟩ := recordsAfter_eq_some h
    have hordered := log.ordered
    rw [hsplit, List.pairwise_append, List.pairwise_cons] at hordered
    obtain ⟨-, ⟨hrest, -⟩, hcross⟩ := hordered
    refine ⟨before ++ [r], by simp [hsplit], ?_, ?_⟩
    · intro s hs
      refine ⟨position, rfl, ?_⟩
      rcases List.mem_append.mp hs with hs | hs
      · have := (hcross s hs r List.mem_cons_self).2
        rw [hpos] at this
        exact this.le
      · rw [List.mem_singleton.mp hs, hpos]
    · intro c hc s hs
      rw [Option.some.injEq] at hc
      rw [← hc, ← hpos]
      exact (hrest s hs).2

lemma exists_pendingRecords {log : Log} {start : Option Position} (h : InLog log start) :
    ∃ records, pendingRecords log start = some records := by
  cases start with
  | none => exact ⟨_, rfl⟩
  | some c =>
    obtain ⟨r, hr, rfl⟩ := h c rfl
    exact exists_recordsAfter hr

lemma passRecords_eq_some {env : Surroundings} {log : Log} {cat : Catalog} {resumeAfter : Option Position}
    {records : List ProjectionRecord} (h : passRecords env log cat resumeAfter = some records) :
    pendingRecords log (startPosition cat resumeAfter) = some records := by
  unfold passRecords at h
  split at h
  · simp at h
  · split at h
    · simp at h
    · split at h
      · simp at h
      · split at h
        · simp at h
        · rename_i hpending _ _
          rw [hpending, ← h]

end Wyrebox.PassInvariant
