import Wyrebox.MigrationOperations
import Wyrebox.SchemaMigration
import Wyrebox.JournalCrash

set_option autoImplicit false

/-!
# Restarting a migration

A restarted run applies steps again whose work is done already. It comes to the same end as a run that
was never interrupted, unless an earlier run got far enough to give the header table a shape that a repeated
step refuses.
-/
namespace Wyrebox.Schema
open Relational JournalRecord JournalReader JournalScan JournalWriter JournalResume
open JournalCrash (sha256)

section
variable {parseUnixUs : CString → Option ℤ}

/-! ## Steps -/

def stepAt (version : ℕ) : MigrationStep :=
  (findStepForSource version).getD ⟨versionCurrent, versionCurrent, "", .legacyBootstrap, false, .preserve⟩

theorem find_stepAt {version : ℕ} (h : version < versionCurrent) :
    findStepForSource version = some (stepAt version) ∧ (stepAt version).sourceVersion = version ∧
      (stepAt version).targetVersion = version + 1 ∧ (stepAt version).storeOperation.index = version := by
  have hall : ∀ v < versionCurrent, findStepForSource v = some (stepAt v) ∧ (stepAt v).sourceVersion = v ∧
      (stepAt v).targetVersion = v + 1 ∧ (stepAt v).storeOperation.index = v := by decide
  exact hall version h

section
variable (parseUnixUs) (source : ℕ) (available : Bool)

theorem loop_end {cursor : ℕ} (h : versionCurrent ≤ cursor) (fuel : ℕ) (state : MetadataState) (db : Tables) :
    applyToVersion parseUnixUs source versionCurrent available fuel cursor state db = (db, .done state) := by
  rw [applyToVersion, if_pos h]

theorem loop_interrupted {cursor : ℕ} (h : cursor < versionCurrent) (state : MetadataState) (db : Tables) :
    applyToVersion parseUnixUs source versionCurrent available 0 cursor state db = (db, .interrupted) := by
  obtain ⟨hfind, -, htarget, -⟩ := find_stepAt h
  rw [applyToVersion, if_neg (by omega), hfind]
  simp only [htarget]
  rw [if_neg (by omega), if_neg (by omega)]

theorem loop_step {cursor : ℕ} (h : cursor < versionCurrent) (fuel : ℕ) (state : MetadataState) (db : Tables) :
    applyToVersion parseUnixUs source versionCurrent available (fuel + 1) cursor state db =
      match checkStep (stepAt cursor) state available with
      | .error error => (db, .failed error)
      | .ok () =>
        match applyMigrationOperation parseUnixUs (stepAt cursor).storeOperation db with
        | .error error => (db, .failed (.store error))
        | .ok db => applyToVersion parseUnixUs source versionCurrent available fuel (cursor + 1)
            (applyStepCheckpointPolicy state (stepAt cursor)) db := by
  obtain ⟨hfind, hsource, htarget, -⟩ := find_stepAt h
  rw [applyToVersion, if_neg (by omega), hfind]
  simp only [htarget, hsource]
  rw [if_neg (by omega), if_neg (by omega)]
  cases checkStep (stepAt cursor) state available with
  | error error => rfl
  | ok u =>
    cases applyMigrationOperation parseUnixUs (stepAt cursor).storeOperation db with
    | error error => rfl
    | ok db => exact if_neg (by omega)

end

/-! ## The databases of one uninterrupted run -/

/-- `S version` is the database when the steps up to `version` are applied. -/
def Trajectory (parseUnixUs : CString → Option ℤ) (S : ℕ → Tables) (start : ℕ) : Prop :=
  ∀ version, start ≤ version → version < versionCurrent →
    applyMigrationOperation parseUnixUs (stepAt version).storeOperation (S version) = .ok (S (version + 1))

section
variable {S : ℕ → Tables} {start : ℕ}

/-- The work of a step is still done when later ones are applied that do not spoil it. -/
theorem settled_at (hS : Trajectory parseUnixUs S start) {earlier version : ℕ} (hstart : start ≤ earlier)
    (horder : earlier < version) (hversion : version ≤ versionCurrent)
    (hspoils : ∀ later, earlier < later → later < version →
      (stepAt later).storeOperation.spoils (stepAt earlier).storeOperation = false) :
    Settled (stepAt earlier).storeOperation (S version) := by
  induction version with
  | zero => omega
  | succ version ih =>
    have happly := hS version (by omega) (by omega)
    rcases Nat.lt_or_ge earlier version with hlt | hge
    · have hbefore := ih hlt (by omega) fun later hlater hless => hspoils later hlater (by omega)
      refine settled_apply hbefore happly ?_ (hspoils version hlt (by omega))
      rw [(find_stepAt (by omega : earlier < versionCurrent)).2.2.2,
        (find_stepAt (by omega : version < versionCurrent)).2.2.2]
      exact hlt
    · obtain rfl : earlier = version := by omega
      exact (apply_eq_ok happly).1

/-- How far an interrupted run may get from each version. -/
def restartBound (version : ℕ) : ℕ := if version ≤ 2 then 5 else if version ≤ 6 then 8 else versionCurrent

theorem spoils_within_bound {earlier later : ℕ} (hstart : start ≤ earlier) (horder : earlier < later)
    (hlater : later < versionCurrent) (hbound : later < restartBound start) :
    (stepAt later).storeOperation.spoils (stepAt earlier).storeOperation = false := by
  have hall : ∀ later < versionCurrent, ∀ earlier < later, ∀ start ≤ earlier, later < restartBound start →
      (stepAt later).storeOperation.spoils (stepAt earlier).storeOperation = false := by decide
  exact hall later hlater earlier horder start hstart hbound

/-- Within the bound, no step has anything to do again. -/
theorem applied_again (hS : Trajectory parseUnixUs S start) {earlier version : ℕ} (hstart : start ≤ earlier)
    (horder : earlier < version) (hversion : version ≤ versionCurrent) (hbound : version ≤ restartBound start) :
    applyMigrationOperation parseUnixUs (stepAt earlier).storeOperation (S version) = .ok (S version) :=
  apply_of_settled (settled_at hS hstart horder hversion fun _ hlater hless =>
    spoils_within_bound hstart hlater (by omega) (by omega))

/-! ## Runs from a database of the trajectory -/

section
variable {source : ℕ} {available : Bool}

/-- How far the checks and the time let a run get. The tables have no part in it. -/
def progress (available : Bool) : ℕ → ℕ → MetadataState → ℕ × Ending
  | 0, cursor, state => (cursor, if versionCurrent ≤ cursor then .done state else .interrupted)
  | fuel + 1, cursor, state =>
    if versionCurrent ≤ cursor then (cursor, .done state)
    else match checkStep (stepAt cursor) state available with
      | .error error => (cursor, .failed error)
      | .ok () => progress available fuel (cursor + 1) (applyStepCheckpointPolicy state (stepAt cursor))

theorem progress_ge (fuel cursor : ℕ) (state : MetadataState) : cursor ≤ (progress available fuel cursor state).1 := by
  induction fuel generalizing cursor state with
  | zero => exact le_refl cursor
  | succ fuel ih =>
    rw [progress]
    split
    · exact le_refl cursor
    · split
      · exact le_refl cursor
      · exact (Nat.le_succ cursor).trans (ih (cursor + 1) _)

theorem progress_le {cursor : ℕ} (h : cursor ≤ versionCurrent) (fuel : ℕ) (state : MetadataState) :
    (progress available fuel cursor state).1 ≤ versionCurrent := by
  induction fuel generalizing cursor state with
  | zero => exact h
  | succ fuel ih =>
    rw [progress]
    split
    · exact h
    · rename_i hlt
      split
      · exact h
      · exact ih (Nat.not_le.mp hlt) _

theorem progress_of_done {fuel cursor : ℕ} {state state' : MetadataState}
    (h : (progress available fuel cursor state).2 = .done state') :
    versionCurrent ≤ (progress available fuel cursor state).1 := by
  induction fuel generalizing cursor state with
  | zero =>
    rw [progress] at h ⊢
    by_contra hlt
    rw [if_neg hlt] at h
    cases h
  | succ fuel ih =>
    rw [progress] at h ⊢
    split at h
    · rename_i hge
      rw [if_pos hge]
      exact hge
    · rename_i hlt
      rw [if_neg hlt]
      cases hcheck : checkStep (stepAt cursor) state available with
      | error error =>
        rw [hcheck] at h
        cases h
      | ok u =>
        rw [hcheck] at h
        exact ih h

/-- A run that starts at a later database passes the steps that are applied, and then goes on as the run
    that starts at the first. -/
theorem loop_progress (hS : Trajectory parseUnixUs S start) {cursor version : ℕ} (hstart : start ≤ cursor)
    (horder : cursor ≤ version) (hversion : version ≤ versionCurrent)
    (hagain : ∀ earlier, cursor ≤ earlier → earlier < version →
      applyMigrationOperation parseUnixUs (stepAt earlier).storeOperation (S version) = .ok (S version))
    (fuel : ℕ) (state : MetadataState) :
    applyToVersion parseUnixUs source versionCurrent available fuel cursor state (S version) =
      (S (max version (progress available fuel cursor state).1), (progress available fuel cursor state).2) := by
  induction fuel generalizing cursor version state with
  | zero =>
    rw [progress, Nat.max_eq_left horder]
    rcases Nat.lt_or_ge cursor versionCurrent with hlt | hge
    · rw [loop_interrupted parseUnixUs source available hlt, if_neg (Nat.not_le.mpr hlt)]
    · rw [loop_end parseUnixUs source available hge, if_pos hge]
  | succ fuel ih =>
    rw [progress]
    rcases Nat.lt_or_ge cursor versionCurrent with hlt | hge
    · rw [loop_step parseUnixUs source available hlt, if_neg (Nat.not_le.mpr hlt)]
      cases checkStep (stepAt cursor) state available with
      | error error => simp only [Nat.max_eq_left horder]
      | ok u =>
        rcases Nat.lt_or_ge cursor version with hbefore | hat
        · simp only [hagain cursor (le_refl cursor) hbefore]
          exact ih (Nat.le_succ_of_le hstart) hbefore hversion
            (fun earlier hearlier hless => hagain earlier (by omega) hless) _
        · obtain rfl : cursor = version := Nat.le_antisymm horder hat
          simp only [hS cursor hstart hlt]
          have hgo := ih (Nat.le_succ_of_le hstart) (le_refl (cursor + 1)) hlt
            (fun earlier hearlier hless => absurd hearlier (Nat.not_le.mpr hless))
            (applyStepCheckpointPolicy state (stepAt cursor))
          have hge := @progress_ge available fuel (cursor + 1) (applyStepCheckpointPolicy state (stepAt cursor))
          rw [hgo, Nat.max_eq_right hge, Nat.max_eq_right (Nat.le_of_succ_le hge)]
    · rw [loop_end parseUnixUs source available hge, if_pos hge, Nat.max_eq_left horder]

theorem checkStep_ok {state : MetadataState} {step : MigrationStep}
    (hprecondition : state.checkpointPreconditionSatisfied = true)
    (havailable : step.requiresCheckpoint = true → available = true) : checkStep step state available = .ok () := by
  cases hrequires : step.requiresCheckpoint
  · simp [checkStep, hrequires]
  · simp [checkStep, hprecondition, havailable hrequires]

theorem policy_precondition (state : MetadataState) (step : MigrationStep) :
    (applyStepCheckpointPolicy state step).checkpointPreconditionSatisfied =
      state.checkpointPreconditionSatisfied := by
  rw [applyStepCheckpointPolicy]
  split <;> rfl

/-- A run that passes its checks commits every step it has time for. -/
theorem progress_of_checks {cursor : ℕ} (hcursor : cursor ≤ versionCurrent)
    (havailable : ∀ version, cursor ≤ version → version < versionCurrent →
      (stepAt version).requiresCheckpoint = true → available = true) (fuel : ℕ) {state : MetadataState}
    (hprecondition : state.checkpointPreconditionSatisfied = true) :
    (progress available fuel cursor state).1 = min versionCurrent (cursor + fuel) := by
  induction fuel generalizing cursor state with
  | zero => exact (Nat.min_eq_right hcursor).symm
  | succ fuel ih =>
    rw [progress]
    rcases Nat.lt_or_ge cursor versionCurrent with hlt | hge
    · rw [if_neg (Nat.not_le.mpr hlt), checkStep_ok hprecondition (havailable cursor (le_refl cursor) hlt)]
      simp only
      rw [ih hlt (fun version hlater => havailable version (Nat.le_of_succ_le hlater))
        (by rw [policy_precondition]; exact hprecondition), Nat.succ_add_eq_add_succ]
    · rw [if_pos hge, Nat.min_eq_left (Nat.le_add_right_of_le hge)]
      exact Nat.le_antisymm hcursor hge

/-- A run without the precondition stops at the first step with a check. -/
theorem progress_of_blocked {cursor gate : ℕ} (hgate : cursor ≤ gate)
    (hrequires : (stepAt gate).requiresCheckpoint = true) (fuel : ℕ) {state : MetadataState}
    (hblocked : state.checkpointPreconditionSatisfied = false) :
    (progress available fuel cursor state).1 ≤ gate := by
  induction fuel generalizing cursor state with
  | zero => exact hgate
  | succ fuel ih =>
    rw [progress]
    split
    · exact hgate
    · cases hcheck : checkStep (stepAt cursor) state available with
      | error error => exact hgate
      | ok u =>
        refine ih (Nat.lt_of_le_of_ne hgate fun heq => ?_) (by rw [policy_precondition]; exact hblocked)
        rw [heq, checkStep, hrequires, hblocked] at hcheck
        cases hcheck

/-- A run that meets a step which refuses the database ends there and changes nothing. -/
theorem loop_stuck {db : Tables} {cursor refusing : ℕ} (hcursor : cursor ≤ refusing)
    (hlt : refusing < versionCurrent)
    (hagain : ∀ earlier, cursor ≤ earlier → earlier < refusing →
      applyMigrationOperation parseUnixUs (stepAt earlier).storeOperation db = .ok db)
    (hrefuses : ∃ error, applyMigrationOperation parseUnixUs (stepAt refusing).storeOperation db = .error error)
    (fuel : ℕ) (state : MetadataState) :
    ∃ ending, (∀ state', ending ≠ .done state') ∧
      applyToVersion parseUnixUs source versionCurrent available fuel cursor state db = (db, ending) := by
  induction fuel generalizing cursor state with
  | zero =>
    exact ⟨.interrupted, nofun, loop_interrupted parseUnixUs source available (by omega) ..⟩
  | succ fuel ih =>
    rw [loop_step parseUnixUs source available (by omega)]
    cases checkStep (stepAt cursor) state available with
    | error error => exact ⟨.failed error, nofun, rfl⟩
    | ok u =>
      rcases Nat.lt_or_ge cursor refusing with hbefore | hat
      · simp only [hagain cursor (le_refl cursor) hbefore]
        exact ih hbefore (fun earlier hearlier hless => hagain earlier (by omega) hless) _
      · obtain rfl : cursor = refusing := by omega
        obtain ⟨error, herror⟩ := hrefuses
        simp only [herror]
        exact ⟨.failed (.store error), nofun, rfl⟩

theorem spoils_headers : ∀ later < versionCurrent, ∀ earlier < versionCurrent,
    (earlier ≠ 2 ∧ earlier ≠ 5 ∧ earlier ≠ 6) →
      (stepAt later).storeOperation.spoils (stepAt earlier).storeOperation = false := by
  decide

/-- Beyond the bound, a repeated step refuses the headers. -/
theorem refused_beyond (hS : Trajectory parseUnixUs S start) {version : ℕ} (hbound : restartBound start < version)
    (hversion : version ≤ versionCurrent) :
    ∃ refusing, start ≤ refusing ∧ refusing < versionCurrent ∧
      (∀ earlier, start ≤ earlier → earlier < refusing →
        applyMigrationOperation parseUnixUs (stepAt earlier).storeOperation (S version) = .ok (S version)) ∧
      ∃ error, applyMigrationOperation parseUnixUs (stepAt refusing).storeOperation (S version) = .error error := by
  have habsorbed : ∀ refusing < versionCurrent, refusing ≤ version →
      (∀ earlier < refusing, start ≤ earlier → earlier ≠ 2 ∧ earlier ≠ 5 ∧ earlier ≠ 6) →
      ∀ earlier, start ≤ earlier → earlier < refusing →
        applyMigrationOperation parseUnixUs (stepAt earlier).storeOperation (S version) = .ok (S version) := by
    intro refusing hlt hrefusing hothers earlier hearlier hless
    exact apply_of_settled (settled_at hS hearlier (by omega) hversion fun later _ hlater =>
      spoils_headers later (by omega) earlier (by omega) (hothers earlier hless hearlier))
  have hspans : 9 ≤ version → start ≤ 8 → Settled .addMessageHeaderProvenanceSpans (S version) := fun hnine height =>
    @settled_at _ _ _ hS 8 _ height (by omega) hversion fun later _ hlater =>
      spoils_headers later (by omega) 8 (by decide) (by decide)
  rw [restartBound] at hbound
  split at hbound
  · -- the table has a sender domain or spans when the step that creates it comes again
    refine ⟨2, by assumption, by decide, habsorbed 2 (by decide) (by omega) (by omega), header_table_of_later ?_⟩
    rcases Nat.lt_or_ge version 9 with hlt | hnine
    · refine .inl (@settled_at _ _ _ hS 5 _ (by omega) hbound hversion fun later hlater hless => ?_)
      rcases (by omega : later = 6 ∨ later = 7) with rfl | rfl <;> decide
    · exact .inr (hspans hnine (by omega))
  · split at hbound
    · -- the table has spans when a step that rebuilds it comes again
      have hsteps := header_steps_of_spans parseUnixUs (hspans hbound (by omega))
      rcases Nat.lt_or_ge start 6 with hlt | hsix
      · exact ⟨5, by omega, by decide, habsorbed 5 (by decide) (by omega) (by omega), hsteps.1⟩
      · exact ⟨6, by omega, by decide, habsorbed 6 (by decide) (by omega) (by omega), hsteps.2⟩
    · omega

end
end

/-- A run that gets to the end has a trajectory, and passes the checks of every step. -/
theorem trajectory_of_done {source : ℕ} {available : Bool} {fuel cursor : ℕ} {state state' : MetadataState}
    {db db' : Tables} (hcursor : cursor ≤ versionCurrent)
    (h : applyToVersion parseUnixUs source versionCurrent available fuel cursor state db = (db', .done state')) :
    ∃ S, Trajectory parseUnixUs S cursor ∧ S cursor = db ∧ S versionCurrent = db' ∧
      ∀ version, cursor ≤ version → version < versionCurrent → (stepAt version).requiresCheckpoint = true →
        state.checkpointPreconditionSatisfied = true ∧ available = true := by
  induction fuel generalizing cursor state db with
  | zero =>
    rcases Nat.lt_or_ge cursor versionCurrent with hlt | hge
    · rw [loop_interrupted parseUnixUs source available hlt] at h
      cases h
    · rw [loop_end parseUnixUs source available hge] at h
      cases h
      exact ⟨fun _ => db', fun version hstart hlt => absurd hlt (by omega), rfl, rfl,
        fun version hstart hlt => absurd hlt (by omega)⟩
  | succ fuel ih =>
    rcases Nat.lt_or_ge cursor versionCurrent with hlt | hge
    · rw [loop_step parseUnixUs source available hlt] at h
      cases hcheck : checkStep (stepAt cursor) state available with
      | error error =>
        simp only [hcheck] at h
        cases h
      | ok u =>
        simp only [hcheck] at h
        cases happly : applyMigrationOperation parseUnixUs (stepAt cursor).storeOperation db with
        | error error =>
          simp only [happly] at h
          cases h
        | ok next =>
          simp only [happly] at h
          obtain ⟨S, hS, hfirst, hlast, hchecks⟩ := ih hlt h
          refine ⟨Function.update S cursor db, fun version hstart hversion => ?_, Function.update_self .., ?_,
            fun version hstart hversion hrequires => ?_⟩
          · rw [Function.update_of_ne (by omega : version + 1 ≠ cursor)]
            rcases Nat.eq_or_lt_of_le hstart with rfl | hafter
            · rw [Function.update_self, happly, hfirst]
            · rw [Function.update_of_ne (by omega : version ≠ cursor)]
              exact hS version hafter hversion
          · rw [Function.update_of_ne (by omega), hlast]
          · rcases Nat.eq_or_lt_of_le hstart with rfl | hafter
            · rw [checkStep, hrequires] at hcheck
              cases hprecondition : state.checkpointPreconditionSatisfied <;> cases available <;>
                simp [hprecondition] at hcheck
              exact ⟨rfl, rfl⟩
            · have hlater := hchecks version hafter hversion hrequires
              rwa [policy_precondition] at hlater
    · rw [loop_end parseUnixUs source available hge] at h
      cases h
      exact ⟨fun _ => db', fun version hstart hlt => absurd hlt (by omega), rfl, rfl,
        fun version hstart hlt => absurd hlt (by omega)⟩

/-! ## Interrupted runs -/

/-- What a run makes of the metadata before it looks at the tables. -/
def runState (input : RunInput) (store : Store) : MetadataState :=
  { load store with checkpointPreconditionSatisfied := input.checkpointPreconditionSatisfied }

def validateJournal (sha : Sha256) (input : RunInput) (store : Store) : Except MigrationError Unit :=
  input.journal.elim (.ok ()) fun segment => validateMaterializationCheckpoint sha segment (runState input store)

/-- The run's input lets it past every check on the checkpoint that its catalog needs. -/
def Accepts (sha : Sha256) (input : RunInput) (store : Store) : Prop :=
  validateJournal sha input store = .ok () ∧
    (store.schemaVersion.isSome = true → input.checkpointPreconditionSatisfied = true)

/-- The version that a run on the catalog starts from. -/
def storedVersion (store : Store) : ℕ := sourceVersion (load store)

/-- The steps of a run, from the version and the checkpoint that are stored. -/
def stepsFrom (parseUnixUs : CString → Option ℤ) (input : RunInput) (store : Store) (fuel : ℕ) (tables : Tables) :
    Tables × Ending :=
  applyToVersion parseUnixUs (storedVersion store) versionCurrent
    (startState (runState input store)).materializationCheckpointPresent fuel (storedVersion store)
    (startState (runState input store)) tables

def finish : Ending → Ending
  | .done state => .done { state with schemaVersionPresent := true, schemaVersion := versionCurrent }
  | ending => ending

theorem finish_of_ne {ending : Ending} (h : ∀ state, ending ≠ .done state) : finish ending = ending := by
  cases ending with
  | done state => exact (h state rfl).elim
  | failed error => rfl
  | interrupted => rfl

section
variable {sha : Sha256} {input : RunInput} {store : Store}

theorem runSteps_eq (sha : Sha256) (input : RunInput) (store : Store) (fuel : ℕ) (tables : Tables) :
    runSteps parseUnixUs sha input fuel { store with tables } =
      match validateJournal sha input store with
      | .error error => (tables, .failed error)
      | .ok () => evaluateToVersion parseUnixUs fuel versionCurrent (runState input store) tables := rfl

theorem runSteps_of_valid (hjournal : validateJournal sha input store = .ok ())
    (hversion : storedVersion store ≤ versionCurrent) (fuel : ℕ) (tables : Tables) :
    runSteps parseUnixUs sha input fuel { store with tables } =
      ((stepsFrom parseUnixUs input store fuel tables).1,
        finish (stepsFrom parseUnixUs input store fuel tables).2) := by
  have hsource : sourceVersion (runState input store) = storedVersion store := rfl
  rw [runSteps_eq, hjournal]
  simp only [evaluateToVersion, hsource]
  rw [if_neg (Nat.not_lt.mpr hversion), if_neg (Nat.lt_irrefl _), if_neg (Nat.not_lt.mpr hversion), stepsFrom]
  split
  · rename_i hdone
    rw [hdone, finish]
  · rename_i hother hsteps
    rw [hsteps, finish_of_ne hother]

theorem runSteps_of_invalid {error : MigrationError} (hjournal : validateJournal sha input store = .error error)
    (fuel : ℕ) (tables : Tables) :
    runSteps parseUnixUs sha input fuel { store with tables } = (tables, .failed error) := by
  rw [runSteps_eq, hjournal]

/-- A run succeeds when its steps do, and saves the same for the same tables at the end. -/
theorem run_ok_iff {store' : Store} : runStoreToCurrentWithJournal parseUnixUs sha input store = (store', .ok ()) ↔
    ∃ tables state, runSteps parseUnixUs sha input versionCurrent store = (tables, .done state) ∧
      store' = if stateMatchesPersistedMetadata state (load store) then { store with tables } else save tables state := by
  rw [runStoreToCurrentWithJournal]
  rcases hsteps : runSteps parseUnixUs sha input versionCurrent store with ⟨tables, ending⟩
  cases ending with
  | failed error => simp
  | interrupted => simp
  | done state =>
    simp only [Prod.mk.injEq, Ending.done.injEq]
    split <;> simp [eq_comm, *]

theorem load_tables (store : Store) (tables : Tables) : load { store with tables } = load store := rfl

/-- The checkpoint is there, or there is no version that it belongs to. -/
theorem start_available (input other : RunInput) (store : Store) :
    (startState (runState input store)).materializationCheckpointPresent =
      (startState (runState other store)).materializationCheckpointPresent := by
  rw [startState, startState]
  change (if store.schemaVersion.isSome = true then _ else _ : MetadataState).materializationCheckpointPresent =
    (if store.schemaVersion.isSome = true then _ else _ : MetadataState).materializationCheckpointPresent
  split <;> rfl

theorem start_precondition :
    (startState (runState input store)).checkpointPreconditionSatisfied = true ↔
      (store.schemaVersion.isSome = true → input.checkpointPreconditionSatisfied = true) := by
  rw [startState]
  change (if store.schemaVersion.isSome = true then _ else _ : MetadataState).checkpointPreconditionSatisfied = true ↔ _
  split
  · exact ⟨fun h _ => h, fun h => h (by assumption)⟩
  · exact ⟨fun _ hsome => absurd hsome (by assumption), fun _ => rfl⟩

/-- What the run finds of its own work, if it left its own tables behind at some version. -/
theorem run_congr {store' : Store} (tables : Tables)
    (h : runSteps parseUnixUs sha input versionCurrent { store with tables } =
      runSteps parseUnixUs sha input versionCurrent store)
    (hrun : runStoreToCurrentWithJournal parseUnixUs sha input store = (store', .ok ())) :
    runStoreToCurrentWithJournal parseUnixUs sha input { store with tables } = (store', .ok ()) := by
  obtain ⟨db, state, hsteps, hstore⟩ := run_ok_iff.mp hrun
  exact run_ok_iff.mpr ⟨db, state, h.trans hsteps, hstore⟩

/-! ## One interrupted run -/

/-- A catalog that one uninterrupted run migrates. -/
structure Migrates (parseUnixUs : CString → Option ℤ) (sha : Sha256) (input : RunInput) (store : Store)
    (S : ℕ → Tables) : Prop where
  trajectory : Trajectory parseUnixUs S (storedVersion store)
  first : S (storedVersion store) = store.tables
  version_le : storedVersion store ≤ versionCurrent
  available : ∀ version, storedVersion store ≤ version → version < versionCurrent →
    (stepAt version).requiresCheckpoint = true →
      (startState (runState input store)).materializationCheckpointPresent = true

variable {S : ℕ → Tables}

theorem Migrates.first_eq (h : Migrates parseUnixUs sha input store S) :
    { store with tables := S (storedVersion store) } = store := by
  rw [h.first]

theorem migrates_of_run {store' : Store}
    (hrun : runStoreToCurrentWithJournal parseUnixUs sha input store = (store', .ok ())) :
    validateJournal sha input store = .ok () ∧ ∃ S, Migrates parseUnixUs sha input store S := by
  obtain ⟨db, state, hsteps, -⟩ := run_ok_iff.mp hrun
  change runSteps parseUnixUs sha input versionCurrent { store with tables := store.tables } = _ at hsteps
  cases hjournal : validateJournal sha input store with
  | error error =>
    rw [runSteps_of_invalid hjournal] at hsteps
    cases hsteps
  | ok u =>
    refine ⟨rfl, ?_⟩
    have hversion : storedVersion store ≤ versionCurrent := by
      by_contra hgt
      rw [runSteps_eq, hjournal] at hsteps
      simp only [evaluateToVersion] at hsteps
      rw [if_pos (by exact Nat.not_le.mp hgt)] at hsteps
      cases hsteps
    rw [runSteps_of_valid hjournal hversion] at hsteps
    rcases hfrom : stepsFrom parseUnixUs input store versionCurrent store.tables with ⟨db', ending⟩
    rw [hfrom, Prod.mk.injEq] at hsteps
    cases ending with
    | failed error => cases hsteps.2
    | interrupted => cases hsteps.2
    | done state' =>
      obtain ⟨S, hS, hfirst, -, hchecks⟩ := trajectory_of_done hversion hfrom
      exact ⟨S, hS, hfirst, hversion, fun version hstart hlt hrequires => (hchecks version hstart hlt hrequires).2⟩

/-- The first step that asks for a checkpoint comes within the bound. -/
theorem gate_within_bound {version : ℕ} (h : version ≤ 6) : ∃ gate, version ≤ gate ∧ gate ≤ restartBound version ∧
    gate < versionCurrent ∧ (stepAt gate).requiresCheckpoint = true := by
  have hall : ∀ version ≤ 6, ∃ gate < versionCurrent, version ≤ gate ∧ gate ≤ restartBound version ∧
      (stepAt gate).requiresCheckpoint = true := by decide
  obtain ⟨gate, hlt, hgate, hbound, hrequires⟩ := hall version h
  exact ⟨gate, hgate, hbound, hlt, hrequires⟩

theorem version_within_bound {version : ℕ} (h : version ≤ versionCurrent) : version ≤ restartBound version := by
  rw [restartBound]
  split
  · omega
  · split <;> omega

/-- How far a run gets, from the version that is stored. -/
def runProgress (input : RunInput) (store : Store) (fuel : ℕ) : ℕ × Ending :=
  progress (startState (runState input store)).materializationCheckpointPresent fuel (storedVersion store)
    (startState (runState input store))

theorem Migrates.runSteps_within (h : Migrates parseUnixUs sha input store S) {other : RunInput}
    (hjournal : validateJournal sha other store = .ok ()) {version : ℕ} (hstart : storedVersion store ≤ version)
    (hversion : version ≤ versionCurrent) (hbound : version ≤ restartBound (storedVersion store)) (fuel : ℕ) :
    runSteps parseUnixUs sha other fuel { store with tables := S version } =
      (S (max version (runProgress other store fuel).1), finish (runProgress other store fuel).2) := by
  rw [runSteps_of_valid hjournal h.version_le, stepsFrom, loop_progress h.trajectory (le_refl _) hstart hversion
    (fun earlier hearlier hless => applied_again h.trajectory hearlier hless hversion hbound)]
  rfl

/-- The version at which a run leaves the tables that it found at `version`. -/
def Leaves (sha : Sha256) (store : Store) (run : RunInput × ℕ) (version version' : ℕ) : Prop :=
  (Accepts sha run.1 store → version' = max version (min versionCurrent (storedVersion store + run.2))) ∧
    (¬Accepts sha run.1 store → version' ≤ restartBound (storedVersion store))

/-- From a database within the bound, a run commits the steps it has time for if its input is accepted, and
    stays within the bound if not. -/
theorem Migrates.interrupt_within (h : Migrates parseUnixUs sha input store S) (run : RunInput × ℕ) {version : ℕ}
    (hstart : storedVersion store ≤ version) (hversion : version ≤ versionCurrent)
    (hbound : version ≤ restartBound (storedVersion store)) :
    ∃ version', storedVersion store ≤ version' ∧ version' ≤ versionCurrent ∧
      interrupt parseUnixUs sha { store with tables := S version } run = { store with tables := S version' } ∧
      Leaves sha store run version version' := by
  rw [interrupt]
  cases hjournal : validateJournal sha run.1 store with
  | error error =>
    rw [runSteps_of_invalid hjournal]
    refine ⟨version, hstart, hversion, rfl, fun haccepts => ?_, fun _ => hbound⟩
    cases hjournal.symm.trans haccepts.1
  | ok u =>
    rw [h.runSteps_within hjournal hstart hversion hbound]
    refine ⟨_, hstart.trans (Nat.le_max_left ..), Nat.max_le.mpr ⟨hversion, progress_le h.version_le ..⟩, rfl,
      fun haccepts => ?_, fun hrejects => ?_⟩
    · rw [progress_of_checks h.version_le _ run.2 (start_precondition.mpr haccepts.2)]
      intro later hlater hlt hrequires
      rw [start_available run.1 input]
      exact h.available later hlater hlt hrequires
    · have hblocked : (startState (runState run.1 store)).checkpointPreconditionSatisfied = false := by
        by_contra hne
        exact hrejects ⟨hjournal, start_precondition.mp (Bool.eq_true_of_not_eq_false hne)⟩
      rcases Nat.lt_or_ge 6 (storedVersion store) with hlate | hearly
      · have hall : restartBound (storedVersion store) = versionCurrent := by
          rw [restartBound, if_neg (by omega), if_neg (by omega)]
        rw [hall]
        exact Nat.max_le.mpr ⟨hversion, progress_le h.version_le ..⟩
      · obtain ⟨gate, hgate, hwithin, -, hrequires⟩ := gate_within_bound hearly
        exact Nat.max_le.mpr ⟨hbound, (progress_of_blocked hgate hrequires run.2 hblocked).trans hwithin⟩

/-- From a database beyond the bound, no run gets anywhere. -/
theorem Migrates.stuck (h : Migrates parseUnixUs sha input store S) (other : RunInput) {version : ℕ}
    (hversion : version ≤ versionCurrent) (hbound : restartBound (storedVersion store) < version) (fuel : ℕ) :
    ∃ ending, (∀ state, ending ≠ .done state) ∧
      runSteps parseUnixUs sha other fuel { store with tables := S version } = (S version, ending) := by
  cases hjournal : validateJournal sha other store with
  | error error => exact ⟨.failed error, nofun, runSteps_of_invalid hjournal fuel (S version)⟩
  | ok u =>
    obtain ⟨refusing, hstart, hlt, hagain, hrefuses⟩ := refused_beyond h.trajectory hbound hversion
    obtain ⟨ending, hending, hloop⟩ := loop_stuck hstart hlt hagain hrefuses fuel
      (startState (runState other store))
    refine ⟨ending, hending, ?_⟩
    rw [runSteps_of_valid hjournal h.version_le, stepsFrom, hloop, finish_of_ne hending]

/-- From a database within the bound, a run that succeeds on the catalog ends as it does there. -/
theorem Migrates.resumes (h : Migrates parseUnixUs sha input store S) {store' : Store}
    (hrun : runStoreToCurrentWithJournal parseUnixUs sha input store = (store', .ok ())) {version : ℕ}
    (hstart : storedVersion store ≤ version) (hversion : version ≤ versionCurrent)
    (hbound : version ≤ restartBound (storedVersion store)) :
    runStoreToCurrentWithJournal parseUnixUs sha input { store with tables := S version } = (store', .ok ()) := by
  have hjournal := (migrates_of_run hrun).1
  have hlater := h.runSteps_within hjournal hstart hversion hbound versionCurrent
  have hfirst := h.runSteps_within hjournal (le_refl _) h.version_le (version_within_bound h.version_le) versionCurrent
  rw [h.first_eq] at hfirst
  obtain ⟨db, state, hsteps, -⟩ := run_ok_iff.mp hrun
  have hdone : versionCurrent ≤ (runProgress input store versionCurrent).1 := by
    rw [hfirst, Prod.mk.injEq] at hsteps
    cases hending : (runProgress input store versionCurrent).2 with
    | done state' => exact progress_of_done hending
    | failed error =>
      rw [hending] at hsteps
      cases hsteps.2
    | interrupted =>
      rw [hending] at hsteps
      cases hsteps.2
  refine run_congr (S version) ?_ hrun
  rw [hlater, hfirst, Nat.max_eq_right (hversion.trans hdone), Nat.max_eq_right (h.version_le.trans hdone)]

/-! ## Any number of interrupted runs -/

/-- The run is not accepted, or commits no step beyond the bound. -/
def RunWithinBound (sha : Sha256) (store : Store) (run : RunInput × ℕ) : Prop :=
  Accepts sha run.1 store →
    min versionCurrent (storedVersion store + run.2) ≤ restartBound (storedVersion store)

theorem Migrates.interrupts_stuck (h : Migrates parseUnixUs sha input store S) (runs : List (RunInput × ℕ))
    {version : ℕ} (hversion : version ≤ versionCurrent) (hbound : restartBound (storedVersion store) < version) :
    runs.foldl (interrupt parseUnixUs sha) { store with tables := S version } =
      { store with tables := S version } := by
  induction runs with
  | nil => rfl
  | cons run runs ih =>
    obtain ⟨ending, -, hsteps⟩ := h.stuck run.1 hversion hbound run.2
    rw [List.foldl_cons, interrupt, hsteps]
    exact ih

theorem Migrates.interrupts (h : Migrates parseUnixUs sha input store S) (runs : List (RunInput × ℕ))
    {version : ℕ} (hstart : storedVersion store ≤ version) (hversion : version ≤ versionCurrent)
    (hbound : version ≤ restartBound (storedVersion store)) :
    ∃ version', storedVersion store ≤ version' ∧ version' ≤ versionCurrent ∧
      runs.foldl (interrupt parseUnixUs sha) { store with tables := S version } =
        { store with tables := S version' } ∧
      (version' ≤ restartBound (storedVersion store) ↔ ∀ run ∈ runs, RunWithinBound sha store run) := by
  induction runs generalizing version with
  | nil => exact ⟨version, hstart, hversion, rfl, iff_of_true hbound (List.forall_mem_nil _)⟩
  | cons run runs ih =>
    obtain ⟨next, hnext, hnextVersion, hinterrupt, haccepted, hrejected⟩ := h.interrupt_within run hstart hversion hbound
    rw [List.foldl_cons, hinterrupt, List.forall_mem_cons]
    rcases Nat.lt_or_ge (restartBound (storedVersion store)) next with hbeyond | hwithin
    · refine ⟨next, hnext, hnextVersion, h.interrupts_stuck runs hnextVersion hbeyond,
        iff_of_false (Nat.not_le.mpr hbeyond) fun hruns => ?_⟩
      by_cases haccepts : Accepts sha run.1 store
      · have hle := hruns.1 haccepts
        rw [haccepted haccepts] at hbeyond
        exact absurd (Nat.max_le.mpr ⟨hbound, hle⟩) (Nat.not_le.mpr hbeyond)
      · exact absurd (hrejected haccepts) (Nat.not_le.mpr hbeyond)
    · obtain ⟨version', hstart', hversion', hfold, hiff⟩ := ih hnext hnextVersion hwithin
      have hrun : RunWithinBound sha store run := fun haccepts => by
        rw [haccepted haccepts] at hwithin
        exact (Nat.le_max_right ..).trans hwithin
      exact ⟨version', hstart', hversion', hfold, hiff.trans (and_iff_right hrun).symm⟩

/-- Runs that are interrupted leave the migration to be finished exactly when none of them gets beyond the
    last shape of the header table that the repeated steps know. -/
theorem restarted_migration {store' : Store}
    (hrun : runStoreToCurrentWithJournal parseUnixUs sha input store = (store', .ok ()))
    (runs : List (RunInput × ℕ)) :
    runStoreToCurrentWithJournal parseUnixUs sha input (runs.foldl (interrupt parseUnixUs sha) store) =
        (store', .ok ()) ↔
      ∀ run ∈ runs, RunWithinBound sha store run := by
  obtain ⟨hjournal, S, h⟩ := migrates_of_run hrun
  obtain ⟨version, hstart, hversion, hfold, hiff⟩ := h.interrupts runs (le_refl _) h.version_le
    (version_within_bound h.version_le)
  rw [h.first_eq] at hfold
  rw [hfold, ← hiff]
  constructor
  · intro hok
    by_contra hbeyond
    obtain ⟨tables, state, hsteps, -⟩ := run_ok_iff.mp hok
    obtain ⟨ending, hending, hstuck⟩ := h.stuck input hversion (Nat.not_le.mp hbeyond) versionCurrent
    rw [hstuck, Prod.mk.injEq] at hsteps
    exact hending state hsteps.2
  · exact h.resumes hrun hstart hversion

end

/-! ## A first start -/

/-- A new catalog. -/
def emptyCatalog : Store := ⟨fun _ => none, none, none⟩

/-- A start without a journal. -/
def firstStart : RunInput := ⟨some none, true⟩

theorem first_start_migrates :
    runStoreToCurrentWithJournal (fun _ => none) sha256 firstStart emptyCatalog =
      ((runStoreToCurrentWithJournal (fun _ => none) sha256 firstStart emptyCatalog).1, .ok ()) :=
  Prod.ext rfl rfl

/-- A first start that is interrupted when the header table is there can be repeated. -/
theorem restarted_migration_first_start :
    runStoreToCurrentWithJournal (fun _ => none) sha256 firstStart
        ([(firstStart, 3)].foldl (interrupt (fun _ => none) sha256) emptyCatalog) =
      ((runStoreToCurrentWithJournal (fun _ => none) sha256 firstStart emptyCatalog).1, .ok ()) :=
  (restarted_migration first_start_migrates [(firstStart, 3)]).mpr fun run hrun _ => by
    rw [List.mem_singleton.mp hrun]
    decide

/-- A first start that is interrupted when the table has sender domains is never finished, though an
    uninterrupted one is. -/
theorem migration_not_restartable :
    (runStoreToCurrentWithJournal (fun _ => none) sha256 firstStart emptyCatalog).2 = .ok () ∧
      (runStoreToCurrentWithJournal (fun _ => none) sha256 firstStart
        ([(firstStart, 6)].foldl (interrupt (fun _ => none) sha256) emptyCatalog)).2 ≠ .ok () := by
  refine ⟨rfl, fun h => ?_⟩
  cases h

end
end Wyrebox.Schema
