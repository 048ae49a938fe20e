import Wyrebox.CatalogSchema
import Wyrebox.JournalResume

set_option autoImplicit false

/-!
# Schema migration

A run applies the steps from the stored version to the current one, each in a transaction of its own, and
then saves the version. A run that is interrupted has applied some of the steps and saved nothing.
-/
namespace Wyrebox.Schema
open Relational JournalRecord JournalReader JournalScan JournalWriter JournalResume

def versionLegacy0 : ℕ := 0
def versionFirst : ℕ := 1
def versionCurrent : ℕ := 12

inductive CheckpointPolicy where
  | preserve
  | invalidate
  deriving DecidableEq, Repr

/-- `WyreboxSchemaMigrationStep`. -/
structure MigrationStep where
  sourceVersion : ℕ
  targetVersion : ℕ
  name : String
  storeOperation : Operation
  requiresCheckpoint : Bool
  checkpointPolicy : CheckpointPolicy
  deriving DecidableEq, Repr

def migrationSteps : List MigrationStep :=
  [⟨versionLegacy0, versionFirst, "legacy-bootstrap", .legacyBootstrap, true, .invalidate⟩,
    ⟨versionFirst, 2, "add-message-attribute-tables", .addMessageAttributeTables, false, .invalidate⟩,
    ⟨2, 3, "add-message-header-table", .addMessageHeaderTable, false, .invalidate⟩,
    ⟨3, 4, "add-derived-view-memberships", .addDerivedViewMemberships, false, .invalidate⟩,
    ⟨4, 5, "scope-derived-views-by-account", .scopeDerivedViewsByAccount, true, .invalidate⟩,
    ⟨5, 6, "add-message-header-sender-domain", .addMessageHeaderSenderDomain, true, .invalidate⟩,
    ⟨6, 7, "add-message-header-date-unix-us", .addMessageHeaderDateUnixUs, true, .invalidate⟩,
    ⟨7, 8, "add-object-reachability-view", .addObjectReachabilityView, false, .preserve⟩,
    ⟨8, 9, "add-message-header-provenance-spans", .addMessageHeaderProvenanceSpans, true, .invalidate⟩,
    ⟨9, 10, "add-message-fact-extractions", .addMessageFactExtractions, false, .preserve⟩,
    ⟨10, 11, "add-derived-view-refresh-state", .addDerivedViewRefreshState, false, .preserve⟩,
    ⟨11, versionCurrent, "add-mailbox-membership-journal-item-and-tombstones",
      .addMailboxMembershipJournalItemAndTombstones, false, .preserve⟩]

/-- `WyreboxSchemaMigrationMetadataState`. -/
structure MetadataState where
  schemaVersionPresent : Bool
  schemaVersion : ℕ
  checkpointPreconditionSatisfied : Bool
  materializationCheckpointPresent : Bool
  materializationCheckpointJournalOffset : ℕ
  materializationCheckpointSequence : ℕ
  deriving DecidableEq, Repr

def MetadataState.empty : MetadataState := ⟨false, 0, false, false, 0, 0⟩

inductive MigrationError where
  | unsafeSuffix
  | seek (error : SeekError)
  | sourceNotSupported (version : ℕ)
  | targetNotSupported (version : ℕ)
  | downgrade (target source : ℕ)
  | noPath (source target : ℕ)
  | doesNotAdvance (step : String)
  | overshoots (step : String) (target : ℕ)
  | preconditionNotSatisfied (step : String)
  | checkpointMissing (step : String)
  | store (error : StoreError)
  | sameVersion
  deriving DecidableEq

/-- `wyrebox_schema_migration_validate_materialization_checkpoint`. -/
def validateMaterializationCheckpoint (sha : Sha256) (segment : Option Segment) (state : MetadataState) :
    Except MigrationError Unit :=
  if (scanSafePrefix sha (segment.map Segment.bytes)).unsafeSuffixFound then .error .unsafeSuffix
  else if !state.materializationCheckpointPresent then .ok ()
  else match seekAfterCheckpoint sha (.new segment) state.materializationCheckpointJournalOffset
      state.materializationCheckpointSequence with
    | .error error => .error (.seek error)
    | .ok _ => .ok ()

def applyStepCheckpointPolicy (state : MetadataState) (step : MigrationStep) : MetadataState :=
  if step.checkpointPolicy = .preserve then state
  else { state with
    materializationCheckpointPresent := false
    materializationCheckpointJournalOffset := 0
    materializationCheckpointSequence := 0 }

def findStepForSource (sourceVersion : ℕ) : Option MigrationStep :=
  migrationSteps.find? fun step => step.sourceVersion = sourceVersion

/-- What `apply_step` checks before it touches the store. -/
def checkStep (step : MigrationStep) (state : MetadataState) (available : Bool) : Except MigrationError Unit :=
  if step.requiresCheckpoint && !state.checkpointPreconditionSatisfied then
    .error (.preconditionNotSatisfied step.name)
  else if step.requiresCheckpoint && !available then .error (.checkpointMissing step.name)
  else .ok ()

/-- Where the steps of a run ended. -/
inductive Ending where
  | done (state : MetadataState)
  | failed (error : MigrationError)
  | interrupted
  deriving DecidableEq

section
variable (parseUnixUs : CString → Option ℤ)

/-- `wyrebox_schema_migration_apply_step` and the loop of `metadata_apply_to_version`. The process is
    interrupted when it has committed `fuel` steps. Every step advances the cursor, so as much fuel as the
    target version is enough for all of them. -/
def applyToVersion (source target : ℕ) (available : Bool) :
    ℕ → ℕ → MetadataState → Tables → Tables × Ending
  | fuel, cursor, state, db =>
    if target ≤ cursor then (db, .done state)
    else match findStepForSource cursor with
      | none => (db, .failed (.noPath source target))
      | some step =>
        if step.targetVersion ≤ cursor then (db, .failed (.doesNotAdvance step.name))
        else if target < step.targetVersion then (db, .failed (.overshoots step.name target))
        else match fuel with
          | 0 => (db, .interrupted)
          | fuel + 1 =>
            match checkStep step state available with
            | .error error => (db, .failed error)
            | .ok () =>
              match applyMigrationOperation parseUnixUs step.storeOperation db with
              | .error error => (db, .failed (.store error))
              | .ok db =>
                if step.sourceVersion = step.targetVersion then (db, .failed .sameVersion)
                else applyToVersion source target available fuel step.targetVersion
                  (applyStepCheckpointPolicy state step) db

def sourceVersion (state : MetadataState) : ℕ :=
  if state.schemaVersionPresent then state.schemaVersion else versionLegacy0

/-- The state that the steps start from: without a version there is nothing to wait for. -/
def startState (state : MetadataState) : MetadataState :=
  if state.schemaVersionPresent then state
  else { state with checkpointPreconditionSatisfied := true, materializationCheckpointPresent := true }

/-- `wyrebox_schema_migration_evaluate_to_version_internal`. -/
def evaluateToVersion (fuel target : ℕ) (state : MetadataState) (db : Tables) : Tables × Ending :=
  let source := sourceVersion state
  if versionCurrent < source then (db, .failed (.sourceNotSupported source))
  else if versionCurrent < target then (db, .failed (.targetNotSupported target))
  else if target < source then (db, .failed (.downgrade target source))
  else
    let start := startState state
    match applyToVersion parseUnixUs source target start.materializationCheckpointPresent fuel source start db with
    | (db, .done state) => (db, .done { state with schemaVersionPresent := true, schemaVersion := target })
    | (db, ending) => (db, ending)

/-- A catalog file: its tables, and the rows of `schema_metadata` and `materialization_checkpoint`. -/
structure Store where
  tables : Tables
  schemaVersion : Option ℕ
  materializationCheckpoint : Option Position

/-- The arguments of a run. Without a reader the journal is not looked at; a reader's segment may be missing. -/
structure RunInput where
  journal : Option (Option Segment)
  checkpointPreconditionSatisfied : Bool

/-- `wyrebox_schema_metadata_store_load`. The precondition is not stored. -/
def load (store : Store) : MetadataState where
  schemaVersionPresent := store.schemaVersion.isSome
  schemaVersion := store.schemaVersion.getD 0
  checkpointPreconditionSatisfied := false
  materializationCheckpointPresent := store.materializationCheckpoint.isSome
  materializationCheckpointJournalOffset := store.materializationCheckpoint.elim 0 Position.offset
  materializationCheckpointSequence := store.materializationCheckpoint.elim 0 Position.sequence

/-- `wyrebox_schema_metadata_store_save`. -/
def save (tables : Tables) (state : MetadataState) : Store where
  tables := tables
  schemaVersion := if state.schemaVersionPresent then some state.schemaVersion else none
  materializationCheckpoint :=
    if state.materializationCheckpointPresent then
      some ⟨state.materializationCheckpointJournalOffset, state.materializationCheckpointSequence⟩
    else none

def stateMatchesPersistedMetadata (state persisted : MetadataState) : Bool :=
  state.schemaVersionPresent == persisted.schemaVersionPresent && state.schemaVersion == persisted.schemaVersion &&
    state.materializationCheckpointPresent == persisted.materializationCheckpointPresent &&
      state.materializationCheckpointJournalOffset == persisted.materializationCheckpointJournalOffset &&
        state.materializationCheckpointSequence == persisted.materializationCheckpointSequence

/-- A run up to its save, of which it commits `fuel` steps at most. -/
def runSteps (sha : Sha256) (input : RunInput) (fuel : ℕ) (store : Store) : Tables × Ending :=
  let state := { load store with checkpointPreconditionSatisfied := input.checkpointPreconditionSatisfied }
  match input.journal.elim (.ok ()) fun segment => validateMaterializationCheckpoint sha segment state with
  | .error error => (store.tables, .failed error)
  | .ok () => evaluateToVersion parseUnixUs fuel versionCurrent state store.tables

/-- `wyrebox_schema_migration_run_store_to_current_with_journal`. -/
def runStoreToCurrentWithJournal (sha : Sha256) (input : RunInput) (store : Store) :
    Store × Except MigrationError Unit :=
  match runSteps parseUnixUs sha input versionCurrent store with
  | (tables, .failed error) => ({ store with tables }, .error error)
  -- not reached: the fuel is enough
  | (tables, .interrupted) => ({ store with tables }, .error .sameVersion)
  | (tables, .done state) =>
    if stateMatchesPersistedMetadata state (load store) then ({ store with tables }, .ok ())
    else (save tables state, .ok ())

/-- A run whose process ends when it has committed `committed` steps, or before it saves. -/
def interrupt (sha : Sha256) (store : Store) (run : RunInput × ℕ) : Store :=
  { store with tables := (runSteps parseUnixUs sha run.1 run.2 store).1 }

end
end Wyrebox.Schema
