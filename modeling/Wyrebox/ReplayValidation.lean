import Wyrebox.JournalReader
import Wyrebox.MessageAppendedPayload
import Wyrebox.MessageDeliveredPayload
import Wyrebox.ObjectStore

set_option autoImplicit false

/-!
# Validation of delivery storage

A replay of the journal looks up the raw object of every record that has one. The tolerant mode counts
the records whose object is missing or damaged; the strict mode stops at the first of them.
-/
namespace Wyrebox.ReplayValidation
open JournalRecord JournalReader ObjectStore Event

/-! ## The object check -/

/-- `g_file_get_contents` on an object file. `notFound` is `G_FILE_ERROR_NOENT`. -/
inductive FileContents where
  | found (bytes : List UInt8)
  | notFound (reason : List UInt8)
  | failed (reason : List UInt8)
  deriving DecidableEq

/-- The object files, each under the digits of its key. -/
abbrev ObjectFiles : Type := List UInt8 → FileContents

inductive StoreError where
  | invalidArgument (error : GetError)
  | notFound (reason : List UInt8)
  | failed (reason : List UInt8)
  | hashMismatch
  deriving DecidableEq

/-- The texts of `validate_object_key`. -/
def keyMessage : GetError → String
  | .invalidKeyLength => "invalid sha256 object key length"
  | .invalidKeyHex => "invalid sha256 object key hex"
  | _ => "invalid object key"

/-- `wyrebox_local_object_store_get_bytes`. -/
def getObject (sha : Sha256) (files : ObjectFiles) (key : CString) : Except StoreError (List UInt8) :=
  match validateObjectKey key.bytes with
  | .error error => .error (.invalidArgument error)
  | .ok hex =>
    match files hex with
    | .notFound reason => .error (.notFound reason)
    | .failed reason => .error (.failed reason)
    | .found contents => if checksumBytes sha contents = hex then .ok contents else .error .hashMismatch

/-- The files of a file system that does not fail. -/
def filesOf (fs : StoreFs) : ObjectFiles := fun hex =>
  match fs.read (objectPath hex) with
  | none => .notFound []
  | some contents => .found contents

theorem getObject_filesOf {sha : Sha256} {fs : StoreFs} {key : CString} {contents : List UInt8} :
    getObject sha (filesOf fs) key = .ok contents ↔ getBytes sha fs key.bytes = .ok contents := by
  rw [getObject, getBytes]
  cases validateObjectKey key.bytes with
  | error error => simp
  | ok hex =>
    cases hread : fs.read (objectPath hex) with
    | none => simp [filesOf, hread]
    | some stored => by_cases hhash : checksumBytes sha stored = hex <;> simp [filesOf, hread, hhash]

/-- `WyreboxDeliveryObjectCheckResult`, except for `OK`. -/
inductive CheckFailure where
  | missing (reason : List UInt8)
  | sizeMismatch (found : ℕ)
  | hashMismatch
  | invalidKey (reason : String)
  | unreadable (reason : List UInt8)
  deriving DecidableEq

/-- `wyrebox_delivery_object_check`. -/
def objectCheck (sha : Sha256) (files : ObjectFiles) (key : CString) (expectedSize : ℕ) : Except CheckFailure Unit :=
  match getObject sha files key with
  | .error (.notFound reason) => .error (.missing reason)
  | .error .hashMismatch => .error .hashMismatch
  | .error (.invalidArgument error) => .error (.invalidKey (keyMessage error))
  | .error (.failed reason) => .error (.unreadable reason)
  | .ok contents => if contents.length ≠ expectedSize then .error (.sizeMismatch contents.length) else .ok ()

/-! ## Records -/

/-- `WyreboxDeliveryReplayValidatorError`. -/
inductive ErrorCode where
  | invalidRecord
  | missingObject
  | sizeMismatch
  | hashMismatch
  | objectUnreadable
  deriving DecidableEq, Repr

/-- The first two have domains of their own: a journal error and a `G_IO_ERROR_INVALID_DATA`. -/
inductive ReplayError where
  | journal (error : ReadError)
  | undecodable (eventName : String) (sequence : ℕ) (reason : String)
  | missingObject (eventName : String) (sequence : ℕ) (key : CString) (reason : List UInt8)
  | sizeMismatch (eventName : String) (sequence : ℕ) (key : CString) (expected found : ℕ)
  | hashMismatch (eventName : String) (sequence : ℕ) (key : CString)
  | invalidRecord (eventName : String) (sequence : ℕ) (key : CString) (reason : String)
  | objectUnreadable (eventName : String) (sequence : ℕ) (key : CString) (reason : List UInt8)
  deriving DecidableEq

def ReplayError.code : ReplayError → Option ErrorCode
  | .journal _ | .undecodable .. => none
  | .missingObject .. => some .missingObject
  | .sizeMismatch .. => some .sizeMismatch
  | .hashMismatch .. => some .hashMismatch
  | .invalidRecord .. => some .invalidRecord
  | .objectUnreadable .. => some .objectUnreadable

def atSequence (eventName : String) (sequence : ℕ) : List UInt8 :=
  ascii (eventName ++ " journal record at sequence " ++ toString sequence)

def ReplayError.message : ReplayError → List UInt8
  | .journal error => ascii error.message
  | .undecodable eventName sequence reason =>
    ascii "failed to decode " ++ atSequence eventName sequence ++ ascii (": " ++ reason)
  | .missingObject eventName sequence key reason =>
    atSequence eventName sequence ++ ascii " references unavailable raw object " ++ key.bytes ++ ascii ": " ++ reason
  | .sizeMismatch eventName sequence key expected found =>
    atSequence eventName sequence ++ ascii ": raw object " ++ key.bytes ++
      ascii (" has mismatched size: expected " ++ toString expected ++ ", got " ++ toString found)
  | .hashMismatch eventName sequence key =>
    atSequence eventName sequence ++ ascii " references raw object " ++ key.bytes ++ ascii " with SHA-256 mismatch"
  | .invalidRecord eventName sequence key reason =>
    atSequence eventName sequence ++ ascii " references invalid raw object key " ++ key.bytes ++ ascii (": " ++ reason)
  | .objectUnreadable eventName sequence key reason =>
    atSequence eventName sequence ++ ascii " failed to read raw object " ++ key.bytes ++ ascii ": " ++ reason

/-- `is_counted_object_failure`. -/
def isCountedObjectFailure (error : ReplayError) : Bool :=
  error.code = some .missingObject || error.code = some .sizeMismatch || error.code = some .hashMismatch

section
variable (sha : Sha256) (files : ObjectFiles)

def validateObjectReference (eventName : String) (sequence : ℕ) (key : CString) (sizeBytes : ℕ) :
    Except ReplayError Unit :=
  match objectCheck sha files key sizeBytes with
  | .ok () => .ok ()
  | .error (.missing reason) => .error (.missingObject eventName sequence key reason)
  | .error (.sizeMismatch found) => .error (.sizeMismatch eventName sequence key sizeBytes found)
  | .error .hashMismatch => .error (.hashMismatch eventName sequence key)
  | .error (.invalidKey reason) => .error (.invalidRecord eventName sequence key reason)
  | .error (.unreadable reason) => .error (.objectUnreadable eventName sequence key reason)

def validateMessageDeliveredRecord (record : Record) : Except ReplayError Unit :=
  match MessageDeliveredPayload.decodePayload record.payload with
  | .error error => .error (.undecodable "MessageDelivered" record.sequence error.message)
  | .ok decoded =>
    validateObjectReference sha files "MessageDelivered" record.sequence decoded.objectKey decoded.sizeBytes

def validateMessageAppendedRecord (record : Record) : Except ReplayError Unit :=
  match MessageAppendedPayload.decodePayload record.payload with
  | .error error => .error (.undecodable "MessageAppended" record.sequence error.message)
  | .ok decoded =>
    validateObjectReference sha files "MessageAppended" record.sequence decoded.objectKey decoded.sizeBytes

/-- The body of the loop up to its counting. -/
def validateRecord (record : Record) : Except ReplayError Unit :=
  match record.eventType with
  | .messageDelivered => validateMessageDeliveredRecord sha files record
  | .messageAppended => validateMessageAppendedRecord sha files record
  | _ => .ok ()

/-! ## The two modes -/

/-- `WyreboxDeliveryReplayValidatorReport`. -/
structure Report where
  objectFailureCount : ℕ
  firstObjectFailureOffset : ℕ
  firstObjectFailureSequence : ℕ
  firstObjectFailureCode : ErrorCode
  deriving DecidableEq, Repr

def Report.initial : Report := ⟨0, 0, 0, .invalidRecord⟩

def Report.count (report : Report) (record : Record) (code : ErrorCode) : Report :=
  { (if report.objectFailureCount = 0 then
      { report with
        firstObjectFailureOffset := record.offset
        firstObjectFailureSequence := record.sequence
        firstObjectFailureCode := code }
    else report) with
    objectFailureCount := (report.objectFailureCount + 1) % 2 ^ 64 }

/-- The loop of `validate_records`. The strict mode has no report. -/
def validateRecords : ℕ → Reader → Option Report → Except ReplayError (Option Report)
  | 0, _, report => .ok report
  | fuel + 1, reader, report =>
    match readNext sha reader with
    | .error error => .error (.journal error)
    | .ok none => .ok report
    | .ok (some (record, reader)) =>
      match validateRecord sha files record with
      | .ok () => validateRecords fuel reader report
      | .error error =>
        match report with
        | none => .error error
        | some counted =>
          if isCountedObjectFailure error then
            validateRecords fuel reader (error.code.map (counted.count record))
          else .error error

/-- Every record takes at least one byte, so the fuel suffices. -/
def fuelFor (reader : Reader) : ℕ := reader.fileSize - reader.offset + 1

/-- `wyrebox_delivery_replay_validator_validate_all`. -/
def validateAll (reader : Reader) : Except ReplayError Unit :=
  (validateRecords sha files (fuelFor reader) reader none).map fun _ => ()

/-- `wyrebox_delivery_replay_validator_validate_all_report`. -/
def validateAllReport (reader : Reader) : Except ReplayError Report :=
  (validateRecords sha files (fuelFor reader) reader (some .initial)).map (·.getD .initial)

end

/-! ## The classes of records -/

/-- The record has a raw object with this key and size. -/
inductive References (record : Record) : String → CString → ℕ → Prop where
  | delivered {payload : MessageDelivered} (htype : record.eventType = .messageDelivered)
      (hdecoded : MessageDeliveredPayload.decodePayload record.payload = .ok payload) :
      References record "MessageDelivered" payload.objectKey payload.sizeBytes
  | appended {payload : MessageAppended} (htype : record.eventType = .messageAppended)
      (hdecoded : MessageAppendedPayload.decodePayload record.payload = .ok payload) :
      References record "MessageAppended" payload.objectKey payload.sizeBytes

inductive Undecodable (record : Record) : String → String → Prop where
  | delivered {error : MessageDeliveredPayload.DecodeError} (htype : record.eventType = .messageDelivered)
      (hdecoded : MessageDeliveredPayload.decodePayload record.payload = .error error) :
      Undecodable record "MessageDelivered" error.message
  | appended {error : MessageAppendedPayload.PayloadError} (htype : record.eventType = .messageAppended)
      (hdecoded : MessageAppendedPayload.decodePayload record.payload = .error error) :
      Undecodable record "MessageAppended" error.message

/-- The object of the record is missing, or has the wrong size or hash. -/
inductive Failure (sha : Sha256) (files : ObjectFiles) (record : Record) : ErrorCode → Prop where
  | missing {name : String} {key : CString} {size : ℕ} {hex reason : List UInt8}
      (href : References record name key size) (hkey : validateObjectKey key.bytes = .ok hex)
      (hfile : files hex = .notFound reason) : Failure sha files record .missingObject
  | wrongHash {name : String} {key : CString} {size : ℕ} {hex contents : List UInt8}
      (href : References record name key size) (hkey : validateObjectKey key.bytes = .ok hex)
      (hfile : files hex = .found contents) (hhash : checksumBytes sha contents ≠ hex) :
      Failure sha files record .hashMismatch
  | wrongSize {name : String} {key : CString} {size : ℕ} {hex contents : List UInt8}
      (href : References record name key size) (hkey : validateObjectKey key.bytes = .ok hex)
      (hfile : files hex = .found contents) (hhash : checksumBytes sha contents = hex)
      (hsize : contents.length ≠ size) : Failure sha files record .sizeMismatch

/-- Any other defect of a record, with the error that reports it. -/
inductive Fatal (files : ObjectFiles) (record : Record) : ReplayError → Prop where
  | undecodable {name reason : String} (h : Undecodable record name reason) :
      Fatal files record (.undecodable name record.sequence reason)
  | invalidKey {name : String} {key : CString} {size : ℕ} {error : GetError}
      (href : References record name key size) (hkey : validateObjectKey key.bytes = .error error) :
      Fatal files record (.invalidRecord name record.sequence key (keyMessage error))
  | unreadable {name : String} {key : CString} {size : ℕ} {hex reason : List UInt8}
      (href : References record name key size) (hkey : validateObjectKey key.bytes = .ok hex)
      (hfile : files hex = .failed reason) : Fatal files record (.objectUnreadable name record.sequence key reason)

section
variable {sha : Sha256} {files : ObjectFiles} {record : Record}

theorem validateRecord_of_references {name : String} {key : CString} {size : ℕ} (h : References record name key size) :
    validateRecord sha files record = validateObjectReference sha files name record.sequence key size := by
  cases h with
  | delivered htype hdecoded => simp [validateRecord, htype, validateMessageDeliveredRecord, hdecoded]
  | appended htype hdecoded => simp [validateRecord, htype, validateMessageAppendedRecord, hdecoded]

theorem validateRecord_of_undecodable {name reason : String} (h : Undecodable record name reason) :
    validateRecord sha files record = .error (.undecodable name record.sequence reason) := by
  cases h with
  | delivered htype hdecoded => simp [validateRecord, htype, validateMessageDeliveredRecord, hdecoded]
  | appended htype hdecoded => simp [validateRecord, htype, validateMessageAppendedRecord, hdecoded]

/-- A record that is not of the two kinds passes. -/
theorem record_cases (sha : Sha256) (files : ObjectFiles) (record : Record) :
    (∃ name key size, References record name key size) ∨ (∃ name reason, Undecodable record name reason) ∨
      validateRecord sha files record = .ok () := by
  by_cases hdelivered : record.eventType = .messageDelivered
  · cases hdecoded : MessageDeliveredPayload.decodePayload record.payload with
    | ok payload => exact .inl ⟨_, _, _, .delivered hdelivered hdecoded⟩
    | error error => exact .inr (.inl ⟨_, _, .delivered hdelivered hdecoded⟩)
  · by_cases happended : record.eventType = .messageAppended
    · cases hdecoded : MessageAppendedPayload.decodePayload record.payload with
      | ok payload => exact .inl ⟨_, _, _, .appended happended hdecoded⟩
      | error error => exact .inr (.inl ⟨_, _, .appended happended hdecoded⟩)
    · right
      right
      rw [validateRecord]
      split
      · exact absurd ‹_› hdelivered
      · exact absurd ‹_› happended
      · rfl

/-- The order of the checks: the key, the file, its hash, its size. -/
theorem objectCheck_of_key {key : CString} {hex : List UInt8} {size : ℕ} (hkey : validateObjectKey key.bytes = .ok hex) :
    objectCheck sha files key size =
      match files hex with
      | .notFound reason => .error (.missing reason)
      | .failed reason => .error (.unreadable reason)
      | .found contents =>
        if checksumBytes sha contents ≠ hex then .error .hashMismatch
        else if contents.length ≠ size then .error (.sizeMismatch contents.length)
        else .ok () := by
  cases hfile : files hex with
  | notFound reason => simp [objectCheck, getObject, hkey, hfile]
  | failed reason => simp [objectCheck, getObject, hkey, hfile]
  | found contents =>
    by_cases hhash : checksumBytes sha contents = hex
    · simp [objectCheck, getObject, hkey, hfile, hhash]
    · simp [objectCheck, getObject, hkey, hfile, hhash]

/-- The three ways a record ends: it passes, its object fails, or it has another defect. -/
inductive Outcome (sha : Sha256) (files : ObjectFiles) (record : Record) : Except ReplayError Unit → Prop where
  | passes : Outcome sha files record (.ok ())
  | fails {error : ReplayError} {code : ErrorCode} (hcode : error.code = some code)
      (hcounted : isCountedObjectFailure error = true) (h : Failure sha files record code) :
      Outcome sha files record (.error error)
  | fatal {error : ReplayError} (hcounted : isCountedObjectFailure error = false) (h : Fatal files record error) :
      Outcome sha files record (.error error)

theorem validateRecord_outcome (sha : Sha256) (files : ObjectFiles) (record : Record) :
    Outcome sha files record (validateRecord sha files record) := by
  rcases record_cases sha files record with ⟨name, key, size, href⟩ | ⟨name, reason, hundecodable⟩ | hpass
  · rw [validateRecord_of_references href, validateObjectReference]
    cases hkey : validateObjectKey key.bytes with
    | error error =>
      have hcheck : objectCheck sha files key size = .error (.invalidKey (keyMessage error)) := by
        simp [objectCheck, getObject, hkey]
      rw [hcheck]
      exact .fatal rfl (.invalidKey href hkey)
    | ok hex =>
      rw [objectCheck_of_key hkey]
      cases hfile : files hex with
      | notFound reason => exact .fails rfl rfl (.missing href hkey hfile)
      | failed reason => exact .fatal rfl (.unreadable href hkey hfile)
      | found contents =>
        by_cases hhash : checksumBytes sha contents = hex
        · by_cases hsize : contents.length = size
          · simp only [hhash, hsize, ne_eq, not_true_eq_false, if_false]
            exact .passes
          · simp only [hhash, hsize, ne_eq, not_true_eq_false, if_false, not_false_eq_true, if_true]
            exact .fails rfl rfl (.wrongSize href hkey hfile hhash hsize)
        · simp only [hhash, ne_eq, not_false_eq_true, if_true]
          exact .fails rfl rfl (.wrongHash href hkey hfile hhash)
  · rw [validateRecord_of_undecodable hundecodable]
    exact .fatal rfl (.undecodable hundecodable)
  · rw [hpass]
    exact .passes

theorem error_of_failure {code : ErrorCode} (h : Failure sha files record code) :
    ∃ error, validateRecord sha files record = .error error ∧ error.code = some code ∧
      isCountedObjectFailure error = true := by
  cases h with
  | missing href hkey hfile =>
    rw [validateRecord_of_references href, validateObjectReference, objectCheck_of_key hkey, hfile]
    exact ⟨_, rfl, rfl, rfl⟩
  | wrongHash href hkey hfile hhash =>
    rw [validateRecord_of_references href, validateObjectReference, objectCheck_of_key hkey, hfile]
    simp only [hhash, ne_eq, not_false_eq_true, if_true]
    exact ⟨_, rfl, rfl, rfl⟩
  | wrongSize href hkey hfile hhash hsize =>
    rw [validateRecord_of_references href, validateObjectReference, objectCheck_of_key hkey, hfile]
    simp only [hhash, hsize, ne_eq, not_true_eq_false, if_false, not_false_eq_true, if_true]
    exact ⟨_, rfl, rfl, rfl⟩

theorem error_of_fatal {error : ReplayError} (h : Fatal files record error) :
    validateRecord sha files record = .error error ∧ isCountedObjectFailure error = false := by
  cases h with
  | undecodable h => exact ⟨validateRecord_of_undecodable h, rfl⟩
  | invalidKey href hkey =>
    rw [validateRecord_of_references href, validateObjectReference]
    simp [objectCheck, getObject, hkey, isCountedObjectFailure, ReplayError.code]
  | unreadable href hkey hfile =>
    rw [validateRecord_of_references href, validateObjectReference, objectCheck_of_key hkey, hfile]
    exact ⟨rfl, rfl⟩

/-- The class of a record's failing object. -/
def failureCode (sha : Sha256) (files : ObjectFiles) (record : Record) : Option ErrorCode :=
  match validateRecord sha files record with
  | .ok () => none
  | .error error => if isCountedObjectFailure error then error.code else none

theorem failureCode_eq_some {code : ErrorCode} :
    failureCode sha files record = some code ↔ Failure sha files record code := by
  constructor
  · intro h
    rw [failureCode] at h
    cases hresult : validateRecord sha files record with
    | ok result => simp [hresult] at h
    | error error =>
      have houtcome := validateRecord_outcome sha files record
      rw [hresult] at h houtcome
      cases houtcome with
      | fails hcode hcounted hfailure =>
        simp only [hcounted, if_true, hcode, Option.some.injEq] at h
        exact h ▸ hfailure
      | fatal hcounted hfatal => simp [hcounted] at h
  · intro h
    obtain ⟨error, hresult, hcode, hcounted⟩ := error_of_failure h
    simp [failureCode, hresult, hcounted, hcode]

/-- An object fails in one way only. -/
theorem Failure.unique {code code' : ErrorCode} (h : Failure sha files record code)
    (h' : Failure sha files record code') : code = code' := by
  rw [← failureCode_eq_some] at h h'
  exact Option.some.inj (h.symm.trans h')

instance : Decidable (∃ code, Failure sha files record code) :=
  decidable_of_iff ((failureCode sha files record).isSome = true) <| by
    rw [Option.isSome_iff_exists]
    exact exists_congr fun code => failureCode_eq_some

end

/-! ## The loop as a fold -/

/-- What successive reads from `reader` return: records, and the error of the last call unless that was
    a clean end of file. -/
inductive Reads (sha : Sha256) : Reader → List Record → Option ReadError → Prop where
  | eof {reader : Reader} (h : readNext sha reader = .ok none) : Reads sha reader [] none
  | error {reader : Reader} {error : ReadError} (h : readNext sha reader = .error error) :
      Reads sha reader [] (some error)
  | record {reader next : Reader} {record : Record} {records : List Record} {stop : Option ReadError}
      (h : readNext sha reader = .ok (some (record, next))) (hnext : Reads sha next records stop) :
      Reads sha reader (record :: records) stop

/-- A record that is read moves the reader forward within its file. -/
theorem readNext_moves {sha : Sha256} {reader next : Reader} {record : Record}
    (h : readNext sha reader = .ok (some (record, next))) :
    reader.offset < next.offset ∧ next.offset ≤ next.fileSize ∧ next.fileSize = reader.fileSize := by
  rw [readNext] at h
  split at h
  · simp at h
  · rename_i segment hcontents
    split at h
    · simp at h
    · simp only [Fallible.ite_error_eq_ok] at h
      obtain ⟨hremain, -, -, -, -, -, -, hfit, h⟩ := h
      split at h
      · simp at h
      · obtain ⟨-, h⟩ := Fallible.ite_error_eq_ok.mp h
        simp only [Except.ok.injEq, Option.some.injEq, Prod.mk.injEq] at h
        obtain ⟨-, rfl⟩ := h
        simp only [headerSize, not_or, not_lt] at hremain hfit ⊢
        exact ⟨by omega, by omega, trivial⟩

theorem reads_total (sha : Sha256) (n : ℕ) (reader : Reader) (hn : reader.fileSize - reader.offset ≤ n) :
    ∃ records stop, Reads sha reader records stop ∧ records.length ≤ reader.fileSize - reader.offset := by
  induction n generalizing reader with
  | zero =>
    cases h : readNext sha reader with
    | error error => exact ⟨[], some error, .error h, Nat.zero_le _⟩
    | ok result =>
      cases result with
      | none => exact ⟨[], none, .eof h, Nat.zero_le _⟩
      | some result =>
        obtain ⟨hlt, hle, hsize⟩ := readNext_moves h
        omega
  | succ n ih =>
    cases h : readNext sha reader with
    | error error => exact ⟨[], some error, .error h, Nat.zero_le _⟩
    | ok result =>
      cases result with
      | none => exact ⟨[], none, .eof h, Nat.zero_le _⟩
      | some result =>
        obtain ⟨hlt, hle, hsize⟩ := readNext_moves h
        obtain ⟨records, stop, hreads, hlength⟩ := ih result.2 (by omega)
        exact ⟨result.1 :: records, stop, .record h hreads, by rw [List.length_cons]; omega⟩

section
variable {sha : Sha256} {files : ObjectFiles}

/-- The loop over the records that are read. -/
def validateList (sha : Sha256) (files : ObjectFiles) (stop : Option ReadError) :
    List Record → Option Report → Except ReplayError (Option Report)
  | [], report =>
    match stop with
    | none => .ok report
    | some error => .error (.journal error)
  | record :: records, report =>
    match validateRecord sha files record with
    | .ok () => validateList sha files stop records report
    | .error error =>
      match report with
      | none => .error error
      | some counted =>
        if isCountedObjectFailure error then validateList sha files stop records (error.code.map (counted.count record))
        else .error error

theorem validateRecords_eq {reader : Reader} {records : List Record} {stop : Option ReadError}
    (h : Reads sha reader records stop) {fuel : ℕ} (hfuel : records.length < fuel) (report : Option Report) :
    validateRecords sha files fuel reader report = validateList sha files stop records report := by
  induction h generalizing fuel report with
  | eof h =>
    cases fuel with
    | zero => exact absurd hfuel (Nat.not_lt_zero _)
    | succ fuel => simp [validateRecords, h, validateList]
  | error h =>
    cases fuel with
    | zero => exact absurd hfuel (Nat.not_lt_zero _)
    | succ fuel => simp [validateRecords, h, validateList]
  | record h hnext ih =>
    cases fuel with
    | zero => exact absurd hfuel (Nat.not_lt_zero _)
    | succ fuel =>
      rw [List.length_cons] at hfuel
      simp only [validateRecords, h, validateList, ih (Nat.lt_of_succ_lt_succ hfuel)]

/-- The records whose objects fail, with their classes. -/
def failures (sha : Sha256) (files : ObjectFiles) (records : List Record) : List (Record × ErrorCode) :=
  records.filterMap fun record => (failureCode sha files record).map (Prod.mk record)

def Report.countAll (report : Report) (failing : List (Record × ErrorCode)) : Report :=
  failing.foldl (fun report failing => report.count failing.1 failing.2) report

/-- The first defect that is not counted, or the error that ends the journal. -/
inductive Stops (files : ObjectFiles) (stop : Option ReadError) : List Record → ReplayError → Prop where
  | journal {records : List Record} {error : ReadError} (hsound : ∀ record ∈ records, ∀ error, ¬Fatal files record error)
      (hstop : stop = some error) : Stops files stop records (.journal error)
  | record {pre post : List Record} {record : Record} {error : ReplayError}
      (hsound : ∀ record ∈ pre, ∀ error, ¬Fatal files record error) (hfatal : Fatal files record error) :
      Stops files stop (pre ++ record :: post) error

theorem Stops.cons {stop : Option ReadError} {records : List Record} {record : Record} {error : ReplayError}
    (hsound : ∀ error, ¬Fatal files record error) (h : Stops files stop records error) :
    Stops files stop (record :: records) error := by
  cases h with
  | journal hrest hstop => exact .journal (List.forall_mem_cons.mpr ⟨hsound, hrest⟩) hstop
  | record hrest hfatal =>
    rw [← List.cons_append]
    exact .record (List.forall_mem_cons.mpr ⟨hsound, hrest⟩) hfatal

/-- The tolerant mode: the report counts every failing object, unless something stops it. -/
theorem validateList_tolerant (stop : Option ReadError) (records : List Record) (report : Report) :
    (∃ error, validateList sha files stop records (some report) = .error error ∧ Stops files stop records error) ∨
      validateList sha files stop records (some report) = .ok (some (report.countAll (failures sha files records))) ∧
        stop = none ∧ ∀ record ∈ records, ∀ error, ¬Fatal files record error := by
  induction records generalizing report with
  | nil =>
    cases stop with
    | none => exact .inr ⟨rfl, rfl, by simp⟩
    | some error => exact .inl ⟨_, rfl, .journal (by simp) rfl⟩
  | cons record records ih =>
    have houtcome := validateRecord_outcome sha files record
    have hsound : ∀ {result}, validateRecord sha files record = result → (∀ error, result = .error error →
        isCountedObjectFailure error = true) → ∀ error, ¬Fatal files record error := by
      intro result hresult hcounted error hfatal
      obtain ⟨herror, hnot⟩ := @error_of_fatal sha files record error hfatal
      exact Bool.false_ne_true (hnot.symm.trans (hcounted error (hresult.symm.trans herror)))
    cases hresult : validateRecord sha files record with
    | ok result =>
      have hrecord := hsound hresult (by simp)
      have hcode : failureCode sha files record = none := by rw [failureCode, hresult]
      simp only [validateList, hresult, failures, List.filterMap_cons, hcode, Option.map_none]
      rcases ih report with ⟨error, herror, hstops⟩ | ⟨hok, hstop, hrest⟩
      · exact .inl ⟨error, herror, hstops.cons hrecord⟩
      · exact .inr ⟨hok, hstop, List.forall_mem_cons.mpr ⟨hrecord, hrest⟩⟩
    | error error =>
      rw [hresult] at houtcome
      cases houtcome with
      | fails hcode hcounted hfailure =>
        have hrecord := hsound hresult (by simpa using hcounted)
        have hclass := failureCode_eq_some.mpr hfailure
        simp only [validateList, hresult, hcounted, if_true, hcode, Option.map_some, failures, List.filterMap_cons,
          hclass, Report.countAll, List.foldl_cons]
        rcases ih (report.count record _) with ⟨error, herror, hstops⟩ | ⟨hok, hstop, hrest⟩
        · exact .inl ⟨error, herror, hstops.cons hrecord⟩
        · exact .inr ⟨hok, hstop, List.forall_mem_cons.mpr ⟨hrecord, hrest⟩⟩
      | fatal hcounted hfatal =>
        have hpre : ∀ earlier ∈ ([] : List Record), ∀ error, ¬Fatal files earlier error := by simp
        refine .inl ⟨error, ?_, .record hpre hfatal⟩
        simp [validateList, hresult, hcounted]

/-- The strict mode passes when every record does. -/
theorem validateList_strict (stop : Option ReadError) (records : List Record) :
    (validateList sha files stop records none).map (fun _ => ()) = .ok () ↔
      stop = none ∧ ∀ record ∈ records, validateRecord sha files record = .ok () := by
  induction records with
  | nil =>
    cases stop with
    | none => simp [validateList, Except.map]
    | some error => simp [validateList, Except.map]
  | cons record records ih =>
    cases hresult : validateRecord sha files record with
    | ok result => simp [validateList, hresult, ih]
    | error error => simp [validateList, hresult, Except.map]

theorem validateRecord_ok_iff {record : Record} : validateRecord sha files record = .ok () ↔
    (∀ code, ¬Failure sha files record code) ∧ ∀ error, ¬Fatal files record error := by
  have houtcome := validateRecord_outcome sha files record
  constructor
  · intro hok
    constructor
    · intro code hfailure
      obtain ⟨error, herror, -⟩ := error_of_failure hfailure
      rw [hok] at herror
      cases herror
    · intro error hfatal
      have herror := (@error_of_fatal sha files record error hfatal).1
      rw [hok] at herror
      cases herror
  · rintro ⟨hfailure, hfatal⟩
    generalize validateRecord sha files record = result at houtcome
    cases houtcome with
    | passes => rfl
    | fails _ _ h => exact absurd h (hfailure _)
    | fatal _ h => exact absurd h (hfatal _)

/-! ## The report -/

theorem failures_length (records : List Record) :
    (failures sha files records).length = records.countP fun record => ∃ code, Failure sha files record code := by
  induction records with
  | nil => rfl
  | cons record records ih =>
    rw [failures] at ih
    rw [failures, List.filterMap_cons, List.countP_cons]
    cases hcode : failureCode sha files record with
    | none =>
      have hnone : ¬∃ code, Failure sha files record code := by
        rintro ⟨code, hfailure⟩
        rw [← failureCode_eq_some, hcode] at hfailure
        cases hfailure
      simpa [hnone] using ih
    | some code =>
      have hsome : ∃ code, Failure sha files record code := ⟨code, failureCode_eq_some.mp hcode⟩
      simpa [hsome] using ih

theorem countAll_eq (report : Report) (failing : List (Record × ErrorCode)) (hpos : 0 < report.objectFailureCount)
    (hbound : report.objectFailureCount + failing.length < 2 ^ 64) : report.countAll failing =
      { report with objectFailureCount := report.objectFailureCount + failing.length } := by
  induction failing generalizing report with
  | nil => rfl
  | cons first failing ih =>
    rw [List.length_cons] at hbound
    have hcount : report.count first.1 first.2 =
        { report with objectFailureCount := report.objectFailureCount + 1 } := by
      rw [Report.count, if_neg (by omega), Nat.mod_eq_of_lt (by omega)]
    have hrest := ih (report.count first.1 first.2) (by rw [hcount]; simp) (by rw [hcount]; simp only; omega)
    rw [hcount] at hrest
    rw [Report.countAll, List.foldl_cons, hcount, ← Report.countAll, hrest, List.length_cons]
    simp only [Report.mk.injEq, and_true]
    omega

/-- The first of the failing objects gives its place and class to the report. -/
theorem countAll_initial (record : Record) (code : ErrorCode) (failing : List (Record × ErrorCode))
    (hbound : failing.length + 1 < 2 ^ 64) : Report.initial.countAll ((record, code) :: failing) =
      ⟨failing.length + 1, record.offset, record.sequence, code⟩ := by
  have hcount : Report.initial.count record code = ⟨1, record.offset, record.sequence, code⟩ := by
    simp [Report.count, Report.initial]
  have hrest := countAll_eq (Report.initial.count record code) failing (by rw [hcount]; simp)
    (by rw [hcount]; simp only; omega)
  rw [hcount] at hrest
  rw [Report.countAll, List.foldl_cons, hcount, ← Report.countAll, hrest]
  simp only [Report.mk.injEq, and_true]
  omega

/-- The report says how many objects fail, and where and how the first of them does. -/
structure Report.Describes (sha : Sha256) (files : ObjectFiles) (records : List Record) (report : Report) : Prop where
  count : report.objectFailureCount = records.countP fun record => ∃ code, Failure sha files record code
  first : ∀ (pre post : List Record) (record : Record) (code : ErrorCode), records = pre ++ record :: post →
    (∀ earlier ∈ pre, ∀ code, ¬Failure sha files earlier code) → Failure sha files record code →
    report.firstObjectFailureOffset = record.offset ∧ report.firstObjectFailureSequence = record.sequence ∧
      report.firstObjectFailureCode = code
  none : (∀ record ∈ records, ∀ code, ¬Failure sha files record code) → report = .initial

theorem failures_eq_nil {records : List Record} (h : ∀ record ∈ records, ∀ code, ¬Failure sha files record code) :
    failures sha files records = [] := by
  rw [failures, List.filterMap_eq_nil_iff]
  intro record hrecord
  cases hcode : failureCode sha files record with
  | none => rfl
  | some code => exact absurd (failureCode_eq_some.mp hcode) (h record hrecord code)

theorem countAll_describes (records : List Record) (hbound : records.length < 2 ^ 64) :
    (Report.initial.countAll (failures sha files records)).Describes sha files records := by
  have hlength := @failures_length sha files records
  have hle : (failures sha files records).length ≤ records.length := List.length_filterMap_le _ _
  refine ⟨?_, ?_, fun h => by rw [failures_eq_nil h]; rfl⟩
  · rw [← hlength]
    cases hfailing : failures sha files records with
    | nil => rfl
    | cons first failing =>
      rw [hfailing, List.length_cons] at hle
      rw [countAll_initial _ _ _ (by omega), List.length_cons]
  · intro pre post record code hrecords hpre hfailure
    have hsplit : failures sha files records = (record, code) :: failures sha files post := by
      have hcode := failureCode_eq_some.mpr hfailure
      have hnil : failures sha files pre = [] := failures_eq_nil hpre
      rw [failures] at hnil
      rw [hrecords, failures, List.filterMap_append, hnil, List.nil_append, List.filterMap_cons, hcode]
      rfl
    rw [hsplit, List.length_cons] at hle
    rw [hsplit, countAll_initial _ _ _ (by omega)]
    exact ⟨rfl, rfl, rfl⟩

/-- The journal of a segment has too few records to wrap the counter. -/
theorem newWithLimit_fileSize (segment : Option Segment) (limit : ℕ) :
    (Reader.newWithLimit segment limit).fileSize < 2 ^ 63 := by
  cases segment with
  | none => simp [Reader.newWithLimit]
  | some segment =>
    have h := segment.size_le
    rw [maxOffset] at h
    simp only [Reader.newWithLimit]
    omega

end

/-! ## Main result -/

/-- Both modes over a whole journal. -/
theorem validation_report (sha : Sha256) (files : ObjectFiles) (segment : Option Segment) (limit : ℕ) :
    ∃ records stop, Reads sha (.newWithLimit segment limit) records stop ∧
      ((∃ error, validateAllReport sha files (.newWithLimit segment limit) = .error error ∧
          Stops files stop records error) ∨
        ∃ report, validateAllReport sha files (.newWithLimit segment limit) = .ok report ∧ stop = none ∧
          (∀ record ∈ records, ∀ error, ¬Fatal files record error) ∧ report.Describes sha files records) ∧
      (validateAll sha files (.newWithLimit segment limit) = .ok () ↔
        ∃ report, validateAllReport sha files (.newWithLimit segment limit) = .ok report ∧
          report.objectFailureCount = 0) := by
  obtain ⟨records, stop, hreads, hlength⟩ := reads_total sha _ (.newWithLimit segment limit) le_rfl
  have hsize := newWithLimit_fileSize segment limit
  have hfuel : records.length < fuelFor (.newWithLimit segment limit) := by
    rw [fuelFor]
    omega
  have hdescribes : (Report.initial.countAll (failures sha files records)).Describes sha files records :=
    countAll_describes records (by omega)
  have hstrict : validateAll sha files (.newWithLimit segment limit) = .ok () ↔
      stop = none ∧ ∀ record ∈ records, validateRecord sha files record = .ok () := by
    rw [validateAll, validateRecords_eq hreads hfuel, validateList_strict]
  have htolerant : validateAllReport sha files (.newWithLimit segment limit) =
      (validateList sha files stop records (some .initial)).map (·.getD .initial) := by
    rw [validateAllReport, validateRecords_eq hreads hfuel]
  refine ⟨records, stop, hreads, ?_⟩
  rcases validateList_tolerant stop records .initial with ⟨error, herror, hstops⟩ | ⟨hok, hstop, hsound⟩
  · rw [herror] at htolerant
    rw [htolerant, hstrict]
    refine ⟨.inl ⟨error, rfl, hstops⟩, fun ⟨hstop, hall⟩ => ?_, fun ⟨_, h, _⟩ => by cases h⟩
    -- what stops the tolerant mode stops the strict one
    cases hstops with
    | journal _ h => rw [hstop] at h; cases h
    | record _ hfatal => exact absurd hfatal ((validateRecord_ok_iff.mp (hall _ (by simp))).2 _)
  · rw [hok] at htolerant
    change _ = Except.ok (Report.initial.countAll (failures sha files records)) at htolerant
    rw [htolerant, hstrict]
    refine ⟨.inr ⟨_, rfl, hstop, hsound, hdescribes⟩, ?_, ?_⟩
    · rintro ⟨-, hall⟩
      have hnil := failures_eq_nil fun record hrecord => (validateRecord_ok_iff.mp (hall record hrecord)).1
      exact ⟨_, rfl, by rw [hnil]; rfl⟩
    · rintro ⟨report, hreport, hzero⟩
      cases hreport
      rw [hdescribes.count, List.countP_eq_zero] at hzero
      refine ⟨hstop, fun record hrecord => validateRecord_ok_iff.mpr ⟨fun code hfailure => ?_, hsound record hrecord⟩⟩
      exact hzero record hrecord (decide_eq_true ⟨code, hfailure⟩)

end Wyrebox.ReplayValidation
