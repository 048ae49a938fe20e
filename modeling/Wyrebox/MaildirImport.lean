import Wyrebox.Ingestion
import Wyrebox.MailEventStream

set_option autoImplicit false

/-!
# Importing a Maildir

A plan lists what a scan found, with the size and the digest of every message. It is carried out later, while
others may change the directory at any moment and append to the journal.
-/
namespace Wyrebox.MaildirImport
open JournalRecord JournalReader JournalWriter JournalLife PayloadText Event
open Ingestion (IngestError IngestResult entryOf)
open ObjectStore (checksumBytes)

/-! ## The plan -/

/-- `WyreboxMaildirScanEntryKind`. -/
inductive EntryKind where
  | mailbox
  | message
  deriving DecidableEq, Repr

/-- `WyreboxMaildirScanEntry`. -/
structure ScanEntry where
  kind : EntryKind
  mailboxPath : CString
  sourcePath : CString
  maildirFlagSuffix : Option CString
  maildirFlags : ℕ
  deriving DecidableEq

/-- `WyreboxMaildirImportPlanEntry`. -/
structure PlanEntry extends ScanEntry where
  sizeBytes : ℕ
  sha256Digest : Option (List UInt8)
  deriving DecidableEq

/-- What `g_file_get_contents` returns of a path, when the entry with an index is worked on. -/
abbrev Contents := ℕ → CString → Option GBytes

inductive PlanError where
  | unreadable (sourcePath : CString)
  | noEntries
  deriving DecidableEq

section
variable (sha : Sha256)

def maildirImportPlanEntryCopy (contents : CString → Option GBytes) (scanned : ScanEntry) :
    Except PlanError PlanEntry :=
  if scanned.kind ≠ .message then .ok ⟨scanned, 0, none⟩
  else match contents scanned.sourcePath with
    | none => .error (.unreadable scanned.sourcePath)
    | some bytes => .ok ⟨scanned, bytes.data.length, some (checksumBytes sha bytes.data)⟩

/-- The loop of `copy_scan_entries`. -/
def copyLoop (contents : Contents) : ℕ → List ScanEntry → Except PlanError (List PlanEntry)
  | _, [] => .ok []
  | index, scanned :: rest =>
    match maildirImportPlanEntryCopy sha (contents index) scanned with
    | .error error => .error error
    | .ok entry => (copyLoop contents (index + 1) rest).map (entry :: ·)

/-- `wyrebox_maildir_import_plan_new_from_scan_entries`. -/
def newFromScanEntries (contents : Contents) (scanned : List ScanEntry) : Except PlanError (List PlanEntry) :=
  match copyLoop sha contents 0 scanned with
  | .error error => .error error
  | .ok [] => .error .noEntries
  | .ok entries => .ok entries

/-! ## Verification -/

inductive VerifyStatus where
  | ok
  | emptyPlan
  | layoutDrift
  | sizeMismatch
  | digestMismatch
  deriving DecidableEq, Repr

structure VerifyResult where
  status : VerifyStatus
  failurePath : Option CString
  deriving DecidableEq

def verifyScanEntryAgainstManifest (contents : CString → Option GBytes) (scanned : ScanEntry) (entry : PlanEntry) :
    Option VerifyResult :=
  if scanned ≠ entry.toScanEntry then some ⟨.layoutDrift, some entry.sourcePath⟩
  else if entry.kind ≠ .message then none
  else match contents entry.sourcePath with
    | none => some ⟨.layoutDrift, some entry.sourcePath⟩
    | some bytes =>
      if bytes.data.length ≠ entry.sizeBytes then some ⟨.sizeMismatch, some entry.sourcePath⟩
      else if some (checksumBytes sha bytes.data) ≠ entry.sha256Digest then
        some ⟨.digestMismatch, some entry.sourcePath⟩
      else none

/-- The loop over the entries that both lists have, and the check that there are no others. -/
def verifyLoop (contents : Contents) : ℕ → List ScanEntry → List PlanEntry → VerifyResult
  | _, [], [] => ⟨.ok, none⟩
  | _, [], entry :: _ => ⟨.layoutDrift, some entry.sourcePath⟩
  | _, scanned :: _, [] => ⟨.layoutDrift, some scanned.sourcePath⟩
  | index, scanned :: rest, entry :: entries =>
    match verifyScanEntryAgainstManifest sha (contents index) scanned entry with
    | some result => result
    | none => verifyLoop contents (index + 1) rest entries

/-- `wyrebox_maildir_import_plan_dry_run_verify_current`; a scan that fails leaves no result. -/
def dryRunVerifyCurrent (plan : List PlanEntry) (scan : Option (List ScanEntry)) (contents : Contents) :
    Option VerifyResult :=
  if plan = [] then some ⟨.emptyPlan, none⟩
  else scan.map fun scanned => verifyLoop sha contents 0 scanned plan

/-! ## Execution -/

/-- What surrounds one ingest: the appends of others before it, whether the object store took the message,
    the clock and the disk. -/
structure Surroundings where
  others : List (Entry × Disk)
  stored : Bool
  now : UInt64
  disk : Disk

/-- `wyrebox_eml_ingestor_ingest_bytes`, with a journal. -/
def ingestBytes (journal : Journal) (bytes : GBytes) (env : Surroundings) :
    Journal × Except IngestError IngestResult :=
  match Eml.parseBytes bytes with
  | .error error => (journal, .error (.parse error))
  | .ok metadata =>
    if env.stored = false then (journal, .error .store)
    else match entryOf (.ingest bytes) metadata (objectKeyOf sha bytes.data) 0 env.now with
      | .error error => (journal, .error error)
      | .ok entry =>
        match journal.append sha entry env.disk with
        | (journal, .error error) => (journal, .error (.append error))
        | (journal, .ok position) => (journal, .ok ⟨objectKeyOf sha bytes.data, bytes.data.length, position⟩)

def maildirMessageBytesMatchPlan (contents : CString → Option GBytes) (entry : PlanEntry) : Option GBytes :=
  match contents entry.sourcePath with
  | none => none
  | some bytes =>
    if bytes.data.length ≠ entry.sizeBytes then none
    else if some (checksumBytes sha bytes.data) ≠ entry.sha256Digest then none
    else some bytes

inductive ExecutionStatus where
  | ok
  | refused
  | sourceReadFailed
  | ingestFailed
  deriving DecidableEq, Repr

/-- `WyreboxMaildirImportPlanExecutionEntry`. -/
structure ExecutionEntry where
  sourcePath : CString
  mailboxPath : CString
  maildirFlagSuffix : Option CString
  maildirFlags : ℕ
  ingestResult : IngestResult
  deriving DecidableEq

structure ExecutionResult where
  status : ExecutionStatus
  failurePath : Option CString
  entries : List ExecutionEntry
  deriving DecidableEq

/-- `append_execution_entry`. -/
def executionEntry (entry : PlanEntry) (result : IngestResult) : ExecutionEntry :=
  ⟨entry.sourcePath, entry.mailboxPath, entry.maildirFlagSuffix, entry.maildirFlags, result⟩

/-- The loop of `wyrebox_maildir_import_plan_execute`. -/
def executeLoop (contents : Contents) (env : ℕ → Surroundings) :
    ℕ → List PlanEntry → Journal → List ExecutionEntry → Journal × ExecutionResult
  | _, [], journal, done => (journal, ⟨.ok, none, done⟩)
  | index, entry :: entries, journal, done =>
    if entry.kind ≠ .message then executeLoop contents env (index + 1) entries journal done
    else match maildirMessageBytesMatchPlan sha (contents index) entry with
      | none => (journal, ⟨.sourceReadFailed, some entry.sourcePath, done⟩)
      | some bytes =>
        match ingestBytes sha (journal.appendAll sha (env index).others) bytes (env index) with
        | (journal, .error _) => (journal, ⟨.ingestFailed, some entry.sourcePath, done⟩)
        | (journal, .ok result) =>
          executeLoop contents env (index + 1) entries journal (done ++ [executionEntry entry result])

/-- `wyrebox_maildir_import_plan_execute`, by an ingestor that has a journal. -/
def execute (plan : List PlanEntry) (scan : Option (List ScanEntry)) (verified contents : Contents)
    (env : ℕ → Surroundings) (journal : Journal) : Journal × Option ExecutionResult :=
  match dryRunVerifyCurrent sha plan scan verified with
  | none => (journal, none)
  | some verification =>
    if verification.status ≠ .ok then (journal, some ⟨.refused, verification.failurePath, []⟩)
    else
      let (journal, result) := executeLoop sha contents env 0 plan journal []
      (journal, some result)

end

/-! ## What verification finds -/

/-- The message of an entry is still there, with the planned size and digest. -/
def Unaltered (sha : Sha256) (contents : CString → Option GBytes) (entry : PlanEntry) : Prop :=
  entry.kind = .message → ∃ bytes, contents entry.sourcePath = some bytes ∧
    bytes.data.length = entry.sizeBytes ∧ some (checksumBytes sha bytes.data) = entry.sha256Digest

/-- The `i`-th entries of the scan and of the plan are one, whose message is unaltered when it is read. -/
def Agrees (sha : Sha256) (contents : Contents) (index : ℕ) (scanned : List ScanEntry) (plan : List PlanEntry)
    (i : ℕ) : Prop :=
  ∃ entry, plan[i]? = some entry ∧ scanned[i]? = some entry.toScanEntry ∧ Unaltered sha (contents (index + i)) entry

/-- The path of the `i`-th entry of the plan, or of the scan where the plan has ended. -/
def pathAt (scanned : List ScanEntry) (plan : List PlanEntry) (i : ℕ) : Option CString :=
  match plan[i]? with
  | some entry => some entry.sourcePath
  | none => scanned[i]?.map ScanEntry.sourcePath

/-- The `k`-th entries are the first that differ, and the result names them. -/
structure Differs (sha : Sha256) (contents : Contents) (index : ℕ) (scanned : List ScanEntry)
    (plan : List PlanEntry) (k : ℕ) (result : VerifyResult) : Prop where
  status : result.status ≠ .ok
  before : ∀ i < k, Agrees sha contents index scanned plan i
  differs : ¬ Agrees sha contents index scanned plan k
  within : k < scanned.length ∨ k < plan.length
  named : result.failurePath = pathAt scanned plan k

section
variable {sha : Sha256}

lemma verifyScanEntry_cases (contents : CString → Option GBytes) (scanned : ScanEntry) (entry : PlanEntry) :
    (verifyScanEntryAgainstManifest sha contents scanned entry = none ∧ scanned = entry.toScanEntry ∧
      Unaltered sha contents entry) ∨
    (∃ result, verifyScanEntryAgainstManifest sha contents scanned entry = some result ∧ result.status ≠ .ok ∧
      result.failurePath = some entry.sourcePath ∧
      ¬ (scanned = entry.toScanEntry ∧ Unaltered sha contents entry)) := by
  rw [verifyScanEntryAgainstManifest]
  by_cases hscan : scanned = entry.toScanEntry
  · rw [if_neg (not_not.mpr hscan)]
    by_cases hkind : entry.kind = .message
    · rw [if_neg (not_not.mpr hkind)]
      cases hread : contents entry.sourcePath with
      | none =>
        refine .inr ⟨_, rfl, nofun, rfl, fun hsame => ?_⟩
        obtain ⟨bytes, hbytes, -⟩ := hsame.2 hkind
        rw [hread] at hbytes
        cases hbytes
      | some bytes =>
        have hunaltered : Unaltered sha contents entry ↔
            bytes.data.length = entry.sizeBytes ∧ some (checksumBytes sha bytes.data) = entry.sha256Digest := by
          simp only [Unaltered, hkind, hread, Option.some.injEq, exists_eq_left', forall_const]
        simp only
        by_cases hsize : bytes.data.length = entry.sizeBytes
        · rw [if_neg (not_not.mpr hsize)]
          by_cases hdigest : some (checksumBytes sha bytes.data) = entry.sha256Digest
          · rw [if_neg (not_not.mpr hdigest)]
            exact .inl ⟨rfl, hscan, hunaltered.mpr ⟨hsize, hdigest⟩⟩
          · rw [if_pos hdigest]
            exact .inr ⟨_, rfl, nofun, rfl, fun hsame => hdigest (hunaltered.mp hsame.2).2⟩
        · rw [if_pos hsize]
          exact .inr ⟨_, rfl, nofun, rfl, fun hsame => hsize (hunaltered.mp hsame.2).1⟩
    · rw [if_pos hkind]
      exact .inl ⟨rfl, hscan, fun hmessage => absurd hmessage hkind⟩
  · rw [if_pos hscan]
    exact .inr ⟨_, rfl, nofun, rfl, fun hsame => hscan hsame.1⟩

section
variable {contents : Contents} {index : ℕ} {scan : ScanEntry} {scanned : List ScanEntry} {entry : PlanEntry}
  {plan : List PlanEntry}

lemma agrees_zero : Agrees sha contents index (scan :: scanned) (entry :: plan) 0 ↔
    scan = entry.toScanEntry ∧ Unaltered sha (contents index) entry := by
  simp [Agrees]

lemma agrees_succ (i : ℕ) : Agrees sha contents index (scan :: scanned) (entry :: plan) (i + 1) ↔
    Agrees sha contents (index + 1) scanned plan i := by
  simp only [Agrees, List.getElem?_cons_succ, show index + (i + 1) = index + 1 + i by omega]

/-- The entries compared are equal up to the first pair that is not, and the path of that pair is reported. -/
theorem verifyLoop_cases (contents : Contents) (index : ℕ) (scanned : List ScanEntry) (plan : List PlanEntry) :
    (verifyLoop sha contents index scanned plan = ⟨.ok, none⟩ ∧ scanned.length = plan.length ∧
      ∀ i < plan.length, Agrees sha contents index scanned plan i) ∨
    ∃ k, Differs sha contents index scanned plan k (verifyLoop sha contents index scanned plan) := by
  induction scanned generalizing index plan with
  | nil =>
    cases plan with
    | nil => exact .inl ⟨rfl, rfl, nofun⟩
    | cons entry plan => exact .inr ⟨0, nofun, nofun, by simp [Agrees], .inr (Nat.succ_pos _), rfl⟩
  | cons scan scanned ih =>
    cases plan with
    | nil => exact .inr ⟨0, nofun, nofun, by simp [Agrees], .inl (Nat.succ_pos _), rfl⟩
    | cons entry plan =>
      rw [verifyLoop]
      rcases verifyScanEntry_cases (contents index) scan entry with
        ⟨hverify, hsame⟩ | ⟨result, hverify, hstatus, hpath, hdiffer⟩
      · rw [hverify]
        have hcons : ∀ k, (∀ i < k, Agrees sha contents (index + 1) scanned plan i) →
            ∀ i < k + 1, Agrees sha contents index (scan :: scanned) (entry :: plan) i := by
          intro k hall i hi
          cases i with
          | zero => exact agrees_zero.mpr hsame
          | succ i => exact (agrees_succ i).mpr (hall i (Nat.lt_of_succ_lt_succ hi))
        rcases ih (index + 1) plan with ⟨hrest, hlength, hall⟩ | ⟨k, hrest⟩
        · exact .inl ⟨hrest, congrArg (· + 1) hlength, hcons _ hall⟩
        · refine .inr ⟨k + 1, hrest.status, hcons k hrest.before, fun hagrees => ?_, ?_, hrest.named⟩
          · exact hrest.differs ((agrees_succ k).mp hagrees)
          · exact hrest.within.imp Nat.succ_lt_succ Nat.succ_lt_succ
      · rw [hverify]
        exact .inr ⟨0, hstatus, nofun, fun hagrees => hdiffer (agrees_zero.mp hagrees), .inl (Nat.succ_pos _), hpath⟩

/-- Verification succeeds where the scan is that of the plan and every message is as planned; else it reports the
    first entry that is not. -/
theorem verification_exact {plan : List PlanEntry} {scan : Option (List ScanEntry)} {contents : Contents}
    {result : VerifyResult} (h : dryRunVerifyCurrent sha plan scan contents = some result) :
    (plan = [] ∧ result = ⟨.emptyPlan, none⟩) ∨
    ∃ scanned, scan = some scanned ∧
      ((result = ⟨.ok, none⟩ ∧ scanned.length = plan.length ∧
        ∀ i < plan.length, Agrees sha contents 0 scanned plan i) ∨
      ∃ k, Differs sha contents 0 scanned plan k result) := by
  rw [dryRunVerifyCurrent] at h
  split at h
  · rename_i hempty
    cases h
    exact .inl ⟨hempty, rfl⟩
  · obtain ⟨scanned, hscan, rfl⟩ := Option.map_eq_some_iff.mp h
    exact .inr ⟨scanned, hscan, verifyLoop_cases contents 0 scanned plan⟩

end
end

/-! ## What is imported -/

def messages (plan : List PlanEntry) : List PlanEntry := plan.filter fun entry => entry.kind = .message

/-- The plan knows a message as it was when the plan was made. -/
def Planned (sha : Sha256) (planned : Contents) (entry : PlanEntry) : Prop :=
  entry.kind = .message → ∃ index original, planned index entry.sourcePath = some original ∧
    entry.sizeBytes = original.data.length ∧ entry.sha256Digest = some (checksumBytes sha original.data)

/-- The journal's entries `es` hold the delivery of a planned message: its source is what it was when planned, up
    to the digest, and the result names the object and the record. -/
structure Imported (sha : Sha256) (planned : Contents) (es : List Entry) (entry : PlanEntry)
    (executed : ExecutionEntry) : Prop where
  place : executed = executionEntry entry executed.ingestResult
  original : ∃ index original, planned index entry.sourcePath = some original ∧
    executed.ingestResult.objectKey = objectKeyOf sha original.data ∧
    executed.ingestResult.sizeBytes = original.data.length
  record : ∃ bytes metadata now delivered before after, Eml.parseBytes bytes = .ok metadata ∧
    executed.ingestResult.objectKey = objectKeyOf sha bytes.data ∧
    executed.ingestResult.sizeBytes = bytes.data.length ∧
    entryOf (.ingest bytes) metadata (objectKeyOf sha bytes.data) 0 now = .ok delivered ∧
    es = before ++ delivered :: after ∧ executed.ingestResult.position = ⟨totalSize before, before.length + 1⟩

/-- The results are those of the first messages of the plan, each with its own record, in order. -/
structure Imports (sha : Sha256) (planned : Contents) (es : List Entry) (done : List PlanEntry)
    (entries : List ExecutionEntry) : Prop where
  each : List.Forall₂ (Imported sha planned es) done entries
  apart : entries.Pairwise fun a b => a.ingestResult.position.sequence < b.ingestResult.position.sequence

/-- The messages `todo` were imported up to the `k`-th, where the import stopped if it did not succeed. -/
structure Stops (todo : List PlanEntry) (k : ℕ) (result : ExecutionResult) : Prop where
  within : k ≤ todo.length
  started : result.status ≠ .refused
  finished : result.status = .ok → k = todo.length
  failed : result.status ≠ .ok → ∃ entry, todo[k]? = some entry ∧ result.failurePath = some entry.sourcePath

/-! ## One message -/

section
variable {sha : Sha256} {planned : Contents} {journal : Journal} {es : List Entry} {torn : Option Entry}

theorem appendAll_grows (h : Represents sha journal es torn) (attempts : List (Entry × Disk)) :
    ∃ fs torn', Represents sha (journal.appendAll sha attempts) (es ++ fs) torn' := by
  induction attempts generalizing journal es torn with
  | nil => exact ⟨[], torn, by rwa [List.append_nil]⟩
  | cons attempt attempts ih =>
    rw [Journal.appendAll]
    rcases MailEventStream.append_represents h attempt.1 attempt.2 with ⟨j, happ, hrep⟩ | ⟨j, error, torn', happ, hrep⟩
    · obtain ⟨fs, torn', hall⟩ := ih hrep
      rw [happ]
      exact ⟨attempt.1 :: fs, torn', by rwa [List.append_assoc] at hall⟩
    · rw [happ]
      exact ih hrep

/-- What one ingest does to a journal of the entries `es`. -/
theorem ingestBytes_cases (h : Represents sha journal es torn) (bytes : GBytes) (env : Surroundings) :
    (∃ j metadata delivered, ingestBytes sha journal bytes env = (j, .ok
        ⟨objectKeyOf sha bytes.data, bytes.data.length, totalSize es, es.length + 1⟩) ∧
      Eml.parseBytes bytes = .ok metadata ∧
      entryOf (.ingest bytes) metadata (objectKeyOf sha bytes.data) 0 env.now = .ok delivered ∧
      Represents sha j (es ++ [delivered]) none) ∨
    (∃ j error torn', ingestBytes sha journal bytes env = (j, .error error) ∧ Represents sha j es torn') := by
  rw [ingestBytes]
  cases hparse : Eml.parseBytes bytes with
  | error error => exact .inr ⟨journal, _, torn, rfl, h⟩
  | ok metadata =>
    cases hstored : env.stored with
    | false => exact .inr ⟨journal, .store, torn, rfl, h⟩
    | true =>
      simp only [Bool.true_eq_false, if_false]
      cases hentry : entryOf (.ingest bytes) metadata (objectKeyOf sha bytes.data) 0 env.now with
      | error error => exact .inr ⟨journal, error, torn, rfl, h⟩
      | ok delivered =>
        rcases MailEventStream.append_represents h delivered env.disk with ⟨j, happ, hrep⟩ | ⟨j, error, torn', happ, hrep⟩
        · simp only [happ]
          exact .inl ⟨j, metadata, delivered, rfl, rfl, hentry, hrep⟩
        · simp only [happ]
          exact .inr ⟨j, _, torn', rfl, hrep⟩

lemma matchPlan_eq_some {contents : CString → Option GBytes} {entry : PlanEntry} {bytes : GBytes}
    (h : maildirMessageBytesMatchPlan sha contents entry = some bytes) :
    bytes.data.length = entry.sizeBytes ∧ some (checksumBytes sha bytes.data) = entry.sha256Digest := by
  rw [maildirMessageBytesMatchPlan] at h
  split at h
  · cases h
  · split at h
    · cases h
    · split at h
      · cases h
      · rename_i hsize hdigest
        cases h
        exact ⟨not_not.mp hsize, not_not.mp hdigest⟩

theorem copyLoop_planned {index : ℕ} {scanned : List ScanEntry} {plan : List PlanEntry}
    (h : copyLoop sha planned index scanned = .ok plan) : ∀ entry ∈ plan, Planned sha planned entry := by
  induction scanned generalizing index plan with
  | nil =>
    cases h
    simp
  | cons scanned rest ih =>
    rw [copyLoop] at h
    cases hcopy : maildirImportPlanEntryCopy sha (planned index) scanned with
    | error error =>
      rw [hcopy] at h
      cases h
    | ok entry =>
      simp only [hcopy] at h
      cases hrest : copyLoop sha planned (index + 1) rest with
      | error error =>
        rw [hrest] at h
        cases h
      | ok entries =>
        rw [hrest] at h
        cases h
        refine List.forall_mem_cons.mpr ⟨fun hmessage => ?_, ih hrest⟩
        rw [maildirImportPlanEntryCopy] at hcopy
        split at hcopy
        · rename_i hkind
          cases hcopy
          exact absurd hmessage hkind
        · split at hcopy
          · cases hcopy
          · rename_i original hread
            cases hcopy
            exact ⟨index, original, hread, rfl, rfl⟩

theorem newFromScanEntries_planned {scanned : List ScanEntry} {plan : List PlanEntry}
    (h : newFromScanEntries sha planned scanned = .ok plan) : ∀ entry ∈ plan, Planned sha planned entry := by
  rw [newFromScanEntries] at h
  split at h
  · cases h
  · cases h
  · rename_i entries _ hloop
    cases h
    exact copyLoop_planned hloop

lemma Imported.mono {entry : PlanEntry} {executed : ExecutionEntry} (h : Imported sha planned es entry executed)
    (fs : List Entry) : Imported sha planned (es ++ fs) entry executed where
  place := h.place
  original := h.original
  record := by
    obtain ⟨bytes, metadata, now, delivered, before, after, hparse, hkey, hsize, hentry, hes, hposition⟩ := h.record
    exact ⟨bytes, metadata, now, delivered, before, after ++ fs, hparse, hkey, hsize, hentry,
      by rw [hes, List.append_assoc, List.cons_append], hposition⟩

/-- A message that is read as planned and taken by the journal is imported. -/
theorem imported_of_ingested {entry : PlanEntry} {bytes : GBytes} {metadata : Eml.EmlMetadata} {now : UInt64}
    {delivered : Entry} {contents : CString → Option GBytes} (hplanned : Planned sha planned entry)
    (hkind : entry.kind = .message) (hread : maildirMessageBytesMatchPlan sha contents entry = some bytes)
    (hparse : Eml.parseBytes bytes = .ok metadata)
    (hentry : entryOf (.ingest bytes) metadata (objectKeyOf sha bytes.data) 0 now = .ok delivered) :
    Imported sha planned (es ++ [delivered]) entry (executionEntry entry
      ⟨objectKeyOf sha bytes.data, bytes.data.length, totalSize es, es.length + 1⟩) where
  place := rfl
  original := by
    obtain ⟨index, original, hfound, hsize, hdigest⟩ := hplanned hkind
    obtain ⟨hlength, hchecksum⟩ := matchPlan_eq_some hread
    rw [hdigest, Option.some.injEq] at hchecksum
    refine ⟨index, original, hfound, ?_, hlength.trans hsize⟩
    ext1
    exact congrArg (ObjectStore.keyPrefix ++ ·) hchecksum
  record := ⟨bytes, metadata, now, delivered, es, [], hparse, rfl, rfl, hentry, rfl, rfl⟩

lemma Imports.mono {done : List PlanEntry} {entries : List ExecutionEntry} (h : Imports sha planned es done entries)
    (fs : List Entry) : Imports sha planned (es ++ fs) done entries where
  each := h.each.imp fun _ _ himported => himported.mono fs
  apart := h.apart

lemma Imports.concat {done : List PlanEntry} {entries : List ExecutionEntry} {entry : PlanEntry}
    {executed : ExecutionEntry} (h : Imports sha planned es done entries)
    (himported : Imported sha planned es entry executed)
    (hlast : ∀ earlier ∈ entries,
      earlier.ingestResult.position.sequence < executed.ingestResult.position.sequence) :
    Imports sha planned es (done ++ [entry]) (entries ++ [executed]) where
  each := List.rel_append h.each (.cons himported .nil)
  apart := List.pairwise_append.mpr ⟨h.apart, List.pairwise_singleton _ _, fun earlier hmem later hlater => by
    rw [List.mem_singleton.mp hlater]
    exact hlast earlier hmem⟩

/-! ## The whole plan -/

theorem executeLoop_imports {contents : Contents} {env : ℕ → Surroundings} {index : ℕ} {plan done : List PlanEntry}
    {entries : List ExecutionEntry} (h : Represents sha journal es torn)
    (hplan : ∀ entry ∈ plan, Planned sha planned entry) (hdone : Imports sha planned es done entries)
    (hbelow : ∀ earlier ∈ entries, earlier.ingestResult.position.sequence ≤ es.length) :
    ∃ fs torn' k, Represents sha (executeLoop sha contents env index plan journal entries).1 (es ++ fs) torn' ∧
      Stops (messages plan) k (executeLoop sha contents env index plan journal entries).2 ∧
      Imports sha planned (es ++ fs) (done ++ (messages plan).take k)
        (executeLoop sha contents env index plan journal entries).2.entries := by
  induction plan generalizing index journal es torn done entries with
  | nil =>
    refine ⟨[], torn, 0, by rwa [List.append_nil],
      ⟨le_rfl, by simp [executeLoop], fun _ => rfl, fun hne => absurd rfl hne⟩, ?_⟩
    change Imports sha planned (es ++ []) (done ++ []) entries
    rw [List.append_nil, List.append_nil]
    exact hdone
  | cons entry plan ih =>
    obtain ⟨hentry, hrest⟩ := List.forall_mem_cons.mp hplan
    rw [executeLoop]
    by_cases hkind : entry.kind = .message
    · have hmessages : messages (entry :: plan) = entry :: messages plan := by
        rw [messages, List.filter_cons_of_pos (by simpa using hkind)]
        rfl
      rw [if_neg (not_not.mpr hkind), hmessages]
      cases hread : maildirMessageBytesMatchPlan sha (contents index) entry with
      | none =>
        refine ⟨[], torn, 0, by rwa [List.append_nil],
          ⟨Nat.zero_le _, by simp, fun hok => ?_, fun _ => ⟨entry, rfl, rfl⟩⟩, ?_⟩
        · cases hok
        · rw [List.append_nil, List.take_zero, List.append_nil]
          exact hdone
      | some bytes =>
        obtain ⟨gs, torn', hgrown⟩ := appendAll_grows h (env index).others
        simp only
        rcases ingestBytes_cases hgrown bytes (env index) with
          ⟨j, metadata, delivered, hingest, hparse, hmade, hrep⟩ | ⟨j, error, torn'', hingest, hrep⟩
        · rw [hingest]
          simp only
          have himported := @imported_of_ingested sha planned (es ++ gs) entry bytes metadata _ delivered _ hentry
            hkind hread hparse hmade
          have hgrew : (es ++ gs).length = es.length + gs.length := List.length_append
          have hnext := ((hdone.mono gs).mono [delivered]).concat himported fun earlier hmem => by
            have := hbelow earlier hmem
            change earlier.ingestResult.position.sequence < (es ++ gs).length + 1
            omega
          obtain ⟨fs, torn'', k, hend, hstops, himports⟩ := @ih _ _ _ (index + 1) _ _ hrep hrest hnext (by
            intro earlier hmem
            rw [List.length_append, List.length_singleton]
            rcases List.mem_append.mp hmem with hold | hnew
            · have := hbelow earlier hold
              omega
            · rw [List.mem_singleton.mp hnew]
              exact le_rfl)
          refine ⟨gs ++ [delivered] ++ fs, torn'', k + 1, ?_, ?_, ?_⟩
          · simpa only [List.append_assoc] using hend
          · exact ⟨Nat.succ_le_succ hstops.within, hstops.started, fun hok => congrArg (· + 1) (hstops.finished hok),
              hstops.failed⟩
          · simpa only [List.append_assoc, List.take_succ_cons, List.singleton_append] using himports
        · rw [hingest]
          refine ⟨gs, torn'', 0, hrep, ⟨Nat.zero_le _, by simp, fun hok => ?_, fun _ => ⟨entry, rfl, rfl⟩⟩, ?_⟩
          · cases hok
          · rw [List.take_zero, List.append_nil]
            exact hdone.mono gs
    · have hmessages : messages (entry :: plan) = messages plan := by
        rw [messages, List.filter_cons_of_neg (by simpa using hkind)]
        rfl
      rw [if_pos hkind, hmessages]
      exact ih h hrest hdone hbelow

end

/-! A mailbox with one message, imported into a new journal. -/

def constantSha : Sha256 := ⟨fun _ => List.replicate 32 7, fun _ => List.length_replicate⟩

lemma sampleMessage_size : (ascii "Subject: x\r\n\r\nhi").length ≤ 2 ^ 63 - 1 := by decide

def sampleMessage : GBytes := ⟨ascii "Subject: x\r\n\r\nhi", sampleMessage_size⟩

def sampleScan : List ScanEntry :=
  [⟨.mailbox, .empty, .literal ".", none, 0⟩, ⟨.message, .empty, .literal "cur/1:2,S", some (.literal "S"), 1⟩]

def sampleContents : Contents := fun _ _ => some sampleMessage

def samplePlan : List PlanEntry :=
  [⟨⟨.mailbox, .empty, .literal ".", none, 0⟩, 0, none⟩,
    ⟨⟨.message, .empty, .literal "cur/1:2,S", some (.literal "S"), 1⟩, 16,
      some (checksumBytes constantSha sampleMessage.data)⟩]

def sampleSurroundings : ℕ → Surroundings := fun _ => ⟨[], true, 5, .synced⟩

def sampleResult : ExecutionResult :=
  ⟨.ok, none, [⟨.literal "cur/1:2,S", .empty, some (.literal "S"), 1,
    ⟨objectKeyOf constantSha sampleMessage.data, 16, 0, 1⟩⟩]⟩

lemma samplePlan_made : newFromScanEntries constantSha sampleContents sampleScan = .ok samplePlan := rfl

/-- The message is gone. -/
lemma sample_unreadable : dryRunVerifyCurrent constantSha samplePlan (some sampleScan) (fun _ _ => none) =
    some ⟨.layoutDrift, some (.literal "cur/1:2,S")⟩ := by
  decide +kernel

theorem verification_exact_sample :
    (samplePlan = [] ∧ VerifyResult.mk .layoutDrift (some (.literal "cur/1:2,S")) = ⟨.emptyPlan, none⟩) ∨
    ∃ scanned, some sampleScan = some scanned ∧
      ((VerifyResult.mk .layoutDrift (some (.literal "cur/1:2,S")) = ⟨.ok, none⟩ ∧
        scanned.length = samplePlan.length ∧
        ∀ i < samplePlan.length, Agrees constantSha (fun _ _ => none) 0 scanned samplePlan i) ∨
      ∃ k, Differs constantSha (fun _ _ => none) 0 scanned samplePlan k
        ⟨.layoutDrift, some (.literal "cur/1:2,S")⟩) :=
  verification_exact sample_unreadable

lemma sampleResult_executed : (execute constantSha samplePlan (some sampleScan) sampleContents sampleContents
    sampleSurroundings MailEventStream.newJournal).2 = some sampleResult := by
  decide +kernel

lemma newJournal_represents : Represents constantSha MailEventStream.newJournal [] none :=
  ⟨⟨0, rfl⟩, rfl, fun _ => rfl, rfl⟩

end Wyrebox.MaildirImport
