import Mathlib.Tactic.IntervalCases
import Wyrebox.Event
import Wyrebox.PayloadText

set_option autoImplicit false

/-!
# The MessageAppended payload

Encoder and decoder check the same conditions, the encoder before it writes and the decoder after it
has read everything.
-/
namespace Wyrebox.MessageAppendedPayload
open LittleEndian Codec JournalRecord PayloadText Event Fallible

def magic : List UInt8 := ascii "WYREMAP1"
def magicLength : ℕ := 8
def headerSize : ℕ := 80

/-- A `G_IO_ERROR_INVALID_ARGUMENT` of the encoder or a `G_IO_ERROR_INVALID_DATA` of the decoder. -/
inductive PayloadError where
  | required (field : String)
  | uidRequired
  | invalidObjectKey
  | malformedSpan (field : String)
  | invalidName (field : String)
  | duplicateName (field : String)
  | stringTooLarge
  | tooManyNames
  | arrayTooLarge
  | truncated
  | invalidMagic
  | unknownSpanFlags
  | embeddedNul
  | nullName
  | malformedLength
  deriving DecidableEq, Repr

def PayloadError.message : PayloadError → String
  | .required field => "MessageAppended payload " ++ field ++ " is required"
  | .uidRequired => "MessageAppended payload uidvalidity and uid are required"
  | .invalidObjectKey => "MessageAppended payload object_key must be sha256:64 lowercase hex characters"
  | .malformedSpan field => "MessageAppended payload " ++ field ++ " span is malformed"
  | .invalidName field => "MessageAppended payload " ++ field ++ " contains an invalid value"
  | .duplicateName field => "MessageAppended payload " ++ field ++ " contains duplicate values"
  | .stringTooLarge => "MessageAppended payload string is too large"
  | .tooManyNames => "MessageAppended payload has too many flags or keywords"
  | .arrayTooLarge => "adding to array would overflow"
  | .truncated => "MessageAppended payload is truncated"
  | .invalidMagic => "invalid MessageAppended payload magic"
  | .unknownSpanFlags => "MessageAppended payload has unknown span flags"
  | .embeddedNul => "MessageAppended payload string contains embedded NUL"
  | .nullName => "MessageAppended payload flag or keyword is null"
  | .malformedLength => "MessageAppended payload length is malformed"

/-- `WyreboxMessageAppendedPayload`, before anything is known of it. -/
structure Fields where
  accountId : Option CString
  mailboxId : Option CString
  uidvalidity : ℕ
  uid : ℕ
  objectKey : Option CString
  sizeBytes : ℕ
  internalDateUnixUs : ℕ
  metadata : Metadata
  systemFlags : List CString
  userKeywords : List CString
  deriving DecidableEq

/-! ## Validation -/

def systemFlagNames : List CString :=
  [.literal "\\Seen", .literal "\\Answered", .literal "\\Flagged", .literal "\\Deleted", .literal "\\Draft"]

def isSystemFlag (value : CString) : Bool := value ∈ systemFlagNames

/-- `g_ascii_iscntrl` or `g_ascii_isspace`. -/
def isCntrlOrSpace (b : UInt8) : Bool := b ≤ 32 || b == 127

def isUserKeyword (value : CString) : Bool :=
  !value.bytes.isEmpty && value.bytes.head? != some 92 && value.bytes.all fun b => !isCntrlOrSpace b

def validateRequiredString (field : String) : Option CString → Except PayloadError CString
  | none => .error (.required field)
  | some value => if value.bytes.isEmpty then .error (.required field) else .ok value

def validateObjectKey : Option CString → Except PayloadError CString
  | none => .error .invalidObjectKey
  | some key => if isSha256ObjectKey key then .ok key else .error .invalidObjectKey

def validateSpan (field : String) (span : Span) : Except PayloadError Unit :=
  if (span.valid ∧ span.stop < span.start) ∨ (¬span.valid ∧ (span.start ≠ 0 ∨ span.stop ≠ 0)) then
    .error (.malformedSpan field)
  else .ok ()

/-- The loop of `validate_names`, with the names already passed. -/
def validateNames (field : String) (isValid : CString → Bool) : List CString → List CString → Except PayloadError Unit
  | _, [] => .ok ()
  | passed, value :: values =>
    if !isValid value then .error (.invalidName field)
    else if value ∈ passed then .error (.duplicateName field)
    else validateNames field isValid (passed ++ [value]) values

/-- `validate_payload`. -/
def validatePayload (fields : Fields) : Except PayloadError MessageAppended := do
  let accountId ← validateRequiredString "account_id" fields.accountId
  let mailboxId ← validateRequiredString "mailbox_id" fields.mailboxId
  if fields.uidvalidity = 0 ∨ fields.uid = 0 then .error .uidRequired
  else do
    let objectKey ← validateObjectKey fields.objectKey
    validateSpan "message_id" fields.metadata.messageIdSpan
    validateSpan "subject" fields.metadata.subjectSpan
    validateNames "system_flags" isSystemFlag [] fields.systemFlags
    validateNames "user_keywords" isUserKeyword [] fields.userKeywords
    .ok
      { accountId, mailboxId
        uidvalidity := fields.uidvalidity
        uid := fields.uid
        objectKey
        sizeBytes := fields.sizeBytes
        internalDateUnixUs := fields.internalDateUnixUs
        metadata := fields.metadata
        systemFlags := fields.systemFlags
        userKeywords := fields.userKeywords }

/-! ## Encoding -/

/-- The strings before the two lists, in order. -/
def stringFields (fields : Fields) : List (Option CString) :=
  [fields.accountId, fields.mailboxId, fields.objectKey, fields.metadata.messageId, fields.metadata.subject,
    fields.metadata.fromAddr, fields.metadata.toAddr, fields.metadata.cc, fields.metadata.bcc, fields.metadata.date]

def spanFlags (metadata : Metadata) : ℕ :=
  (if metadata.messageIdSpan.valid then 1 else 0) + if metadata.subjectSpan.valid then 2 else 0

def header (fields : Fields) : List UInt8 :=
  magic ++ (encode 8 fields.uidvalidity ++ (encode 8 fields.uid ++ (encode 8 fields.sizeBytes ++
    (encode 8 fields.internalDateUnixUs ++ (encode 4 fields.metadata.duplicateMessageIdCount ++
      (encode 4 (spanFlags fields.metadata) ++ (encode 8 fields.metadata.messageIdSpan.start ++
        (encode 8 fields.metadata.messageIdSpan.stop ++ (encode 8 fields.metadata.subjectSpan.start ++
          encode 8 fields.metadata.subjectSpan.stop)))))))))

def layout (fields : Fields) : List UInt8 :=
  header fields ++ ((stringFields fields).flatMap encodeNullable ++
    (encodeStrings fields.systemFlags ++ encodeStrings fields.userKeywords))

/-- The check of `append_nullable_string`. -/
def checkString : Option CString → Except PayloadError Unit
  | none => .ok ()
  | some value => if nullString ≤ value.bytes.length then .error .stringTooLarge else .ok ()

def checkStrings : List (Option CString) → Except PayloadError Unit
  | [] => .ok ()
  | value :: values => do
    checkString value
    checkStrings values

/-- The checks of `append_strv`. -/
def checkStrv (values : List CString) : Except PayloadError Unit :=
  if nullString ≤ values.length then .error .tooManyNames else checkStrings (values.map some)

/-- `wyrebox_message_appended_payload_encode`. A `GByteArray` ends the process rather than grow past
    `G_MAXUINT` bytes. -/
def encodePayload (fields : Fields) : Except PayloadError GBytes := do
  let _ ← validatePayload fields
  checkStrings (stringFields fields)
  checkStrv fields.systemFlags
  checkStrv fields.userKeywords
  if h : (layout fields).length < 2 ^ 32 then .ok ⟨layout fields, by omega⟩ else .error .arrayTooLarge

/-! ## Decoding -/

def decodeFields : Decoder PayloadError Fields := do
  ensure (fun rest => headerSize ≤ rest.length) .truncated
  let found ← octets magicLength .truncated
  if found ≠ magic then throw .invalidMagic
  else do
    let uidvalidity ← unsigned 8 .truncated
    let uid ← unsigned 8 .truncated
    let sizeBytes ← unsigned 8 .truncated
    let internalDateUnixUs ← unsigned 8 .truncated
    let duplicateMessageIdCount ← unsigned 4 .truncated
    let flags ← unsigned 4 .truncated
    -- any bit but the lowest two
    if 4 ≤ flags then throw .unknownSpanFlags
    else do
      let messageIdSpanStart ← unsigned 8 .truncated
      let messageIdSpanEnd ← unsigned 8 .truncated
      let subjectSpanStart ← unsigned 8 .truncated
      let subjectSpanEnd ← unsigned 8 .truncated
      let accountId ← nullable .truncated .embeddedNul
      let mailboxId ← nullable .truncated .embeddedNul
      let objectKey ← nullable .truncated .embeddedNul
      let messageId ← nullable .truncated .embeddedNul
      let subject ← nullable .truncated .embeddedNul
      let fromAddr ← nullable .truncated .embeddedNul
      let toAddr ← nullable .truncated .embeddedNul
      let cc ← nullable .truncated .embeddedNul
      let bcc ← nullable .truncated .embeddedNul
      let date ← nullable .truncated .embeddedNul
      let systemFlags ← strings .truncated .embeddedNul .nullName
      let userKeywords ← strings .truncated .embeddedNul .nullName
      pure
        { accountId, mailboxId, uidvalidity, uid, objectKey, sizeBytes, internalDateUnixUs
          metadata :=
            { messageId, subject, fromAddr, toAddr, cc, bcc, date, duplicateMessageIdCount
              messageIdSpan := ⟨flags % 2 == 1, messageIdSpanStart, messageIdSpanEnd⟩
              subjectSpan := ⟨flags / 2 == 1, subjectSpanStart, subjectSpanEnd⟩ }
          systemFlags, userKeywords }

/-- `wyrebox_message_appended_payload_decode`. -/
def decodePayload (data : List UInt8) : Except PayloadError MessageAppended := do
  let (fields, rest) ← decodeFields data
  if !rest.isEmpty then .error .malformedLength else validatePayload fields

/-! ## The round trip -/

/-- The numbers are in the range of their C types. -/
structure Fits (fields : Fields) : Prop where
  uids : fields.uidvalidity < 2 ^ 64 ∧ fields.uid < 2 ^ 64
  sizeBytes : fields.sizeBytes < 2 ^ 64
  internalDateUnixUs : fields.internalDateUnixUs < 2 ^ 64
  duplicateMessageIdCount : fields.metadata.duplicateMessageIdCount < 2 ^ 32
  messageIdSpan : fields.metadata.messageIdSpan.start < 2 ^ 64 ∧ fields.metadata.messageIdSpan.stop < 2 ^ 64
  subjectSpan : fields.metadata.subjectSpan.start < 2 ^ 64 ∧ fields.metadata.subjectSpan.stop < 2 ^ 64

theorem checkStrings_ok {values : List (Option CString)} (h : checkStrings values = .ok ()) :
    ∀ value ∈ values, Encodable value := by
  induction values with
  | nil => simp
  | cons value values ih =>
    simp only [checkStrings, bind_eq_ok] at h
    obtain ⟨_, hvalue, hvalues⟩ := h
    rw [List.forall_mem_cons]
    refine ⟨?_, ih hvalues⟩
    rintro s rfl
    simp only [checkString, ite_error_eq_ok, not_le] at hvalue
    exact hvalue.1

theorem checkStrv_ok {values : List CString} (h : checkStrv values = .ok ()) :
    values.length < nullString ∧ ∀ s ∈ values, s.bytes.length < nullString := by
  simp only [checkStrv, ite_error_eq_ok, not_le] at h
  exact ⟨h.1, fun s hs => checkStrings_ok h.2 (some s) (List.mem_map_of_mem hs) s rfl⟩

/-- What an encoded payload tells of its fields. -/
structure Encoded (fields : Fields) (bytes : GBytes) : Prop where
  valid : ∃ payload, validatePayload fields = .ok payload
  strings : ∀ value ∈ stringFields fields, Encodable value
  systemFlags : fields.systemFlags.length < nullString ∧ ∀ s ∈ fields.systemFlags, s.bytes.length < nullString
  userKeywords : fields.userKeywords.length < nullString ∧ ∀ s ∈ fields.userKeywords, s.bytes.length < nullString
  data : bytes.data = layout fields

theorem encoded_of_ok {fields : Fields} {bytes : GBytes} (h : encodePayload fields = .ok bytes) :
    Encoded fields bytes := by
  simp only [encodePayload, bind_eq_ok] at h
  obtain ⟨payload, hvalid, _, hstrings, _, hflags, _, hkeywords, hdata⟩ := h
  refine ⟨⟨payload, hvalid⟩, checkStrings_ok hstrings, checkStrv_ok hflags, checkStrv_ok hkeywords, ?_⟩
  split at hdata
  · rw [Except.ok.injEq] at hdata
    rw [← hdata]
  · simp at hdata

theorem spanFlags_lt (metadata : Metadata) : spanFlags metadata < 4 := by
  rw [spanFlags]
  split <;> split <;> decide

theorem span_of_flags (metadata : Metadata) :
    (⟨spanFlags metadata % 2 == 1, metadata.messageIdSpan.start, metadata.messageIdSpan.stop⟩ : Span) =
        metadata.messageIdSpan ∧
      (⟨spanFlags metadata / 2 == 1, metadata.subjectSpan.start, metadata.subjectSpan.stop⟩ : Span) =
        metadata.subjectSpan := by
  obtain ⟨_, _, _, _, _, _, _, _, ⟨valid, start, stop⟩, ⟨valid', start', stop'⟩⟩ := metadata
  cases valid <;> cases valid' <;> simp [spanFlags]

theorem spanFlags_of_flags {flags : ℕ} (h : flags < 4) :
    (if (flags % 2 == 1) = true then 1 else 0) + (if (flags / 2 == 1) = true then 2 else 0) = flags := by
  interval_cases flags <;> rfl

/-- What the payload can spell. -/
structure Readable (fields : Fields) : Prop where
  fits : Fits fields
  strings : ∀ value ∈ stringFields fields, Encodable value
  systemFlags : fields.systemFlags.length < 2 ^ 32 ∧ ∀ s ∈ fields.systemFlags, s.bytes.length < nullString
  userKeywords : fields.userKeywords.length < 2 ^ 32 ∧ ∀ s ∈ fields.userKeywords, s.bytes.length < nullString

theorem Encoded.readable {fields : Fields} {bytes : GBytes} (h : Encoded fields bytes) (hfits : Fits fields) :
    Readable fields := by
  have hflags := h.systemFlags.1
  have hkeywords := h.userKeywords.1
  rw [nullString] at hflags hkeywords
  exact ⟨hfits, h.strings, ⟨by omega, h.systemFlags.2⟩, ⟨by omega, h.userKeywords.2⟩⟩

theorem reads_decodeFields {fields : Fields} (h : Readable fields) : Reads decodeFields (layout fields) fields := by
  have hstrings := h.strings
  simp only [stringFields, List.forall_mem_cons, List.not_mem_nil, false_imp_iff, forall_const, and_true] at hstrings
  obtain ⟨haccount, hmailbox, hkey, hmessageId, hsubject, hfrom, hto, hcc, hbcc, hdate⟩ := hstrings
  have hflags := spanFlags_lt fields.metadata
  refine Reads.ensure ?_ ?_
  · simp only [layout, header, stringFields, List.flatMap_cons, List.flatMap_nil, List.append_assoc, List.nil_append]
    refine (reads_octets _ (by decide)).bind ?_
    rw [if_neg (not_not.mpr rfl)]
    refine (reads_unsigned _ h.fits.uids.1).bind ?_
    refine (reads_unsigned _ h.fits.uids.2).bind ?_
    refine (reads_unsigned _ h.fits.sizeBytes).bind ?_
    refine (reads_unsigned _ h.fits.internalDateUnixUs).bind ?_
    refine (reads_unsigned _ h.fits.duplicateMessageIdCount).bind ?_
    refine (reads_unsigned _ (by omega)).bind ?_
    rw [if_neg (by omega)]
    refine (reads_unsigned _ h.fits.messageIdSpan.1).bind ?_
    refine (reads_unsigned _ h.fits.messageIdSpan.2).bind ?_
    refine (reads_unsigned _ h.fits.subjectSpan.1).bind ?_
    refine (reads_unsigned _ h.fits.subjectSpan.2).bind ?_
    refine (reads_nullable haccount).bind ?_
    refine (reads_nullable hmailbox).bind ?_
    refine (reads_nullable hkey).bind ?_
    refine (reads_nullable hmessageId).bind ?_
    refine (reads_nullable hsubject).bind ?_
    refine (reads_nullable hfrom).bind ?_
    refine (reads_nullable hto).bind ?_
    refine (reads_nullable hcc).bind ?_
    refine (reads_nullable hbcc).bind ?_
    refine (reads_nullable hdate).bind ?_
    refine (reads_strings h.systemFlags.1 h.systemFlags.2).bind ?_
    refine (reads_strings h.userKeywords.1 h.userKeywords.2).bind_last ?_
    obtain ⟨hmessageIdSpan, hsubjectSpan⟩ := span_of_flags fields.metadata
    rw [hmessageIdSpan, hsubjectSpan]
    exact Reads.pure fields
  · intro tail
    rw [decide_eq_true_eq]
    have hmagic : magic.length = 8 := by decide
    simp only [layout, header, List.length_append, encode_length, hmagic, headerSize]
    omega

theorem spells_decodeFields : Spells decodeFields Readable layout := by
  intro bytes fields rest h
  simp only [decodeFields, bind_run, ensure_run, guard_run, pure_run] at h
  obtain ⟨_, _, ⟨-, rfl⟩, found, _, hfound, hmagic, uidvalidity, _, huidvalidity, uid, _, huid, sizeBytes, _, hsize,
    internalDateUnixUs, _, hinternal, duplicates, _, hduplicates, flags, _, hflags, hknown, start, _, hstart, stop,
    _, hstop, start', _, hstart', stop', _, hstop', accountId, _, haccountIdRun, mailboxId, _, hmailboxIdRun,
    objectKey, _, hobjectKeyRun, messageId, _, hmessageIdRun, subject, _, hsubjectRun, fromAddr, _, hfromRun,
    toAddr, _, htoRun, cc, _, hccRun, bcc, _, hbccRun, date, _, hdateRun, systemFlags, _, hsystemFlagsRun,
    userKeywords, _, huserKeywordsRun, rfl, rfl⟩ := h
  obtain ⟨-, rfl⟩ := spells_octets _ _ hfound
  obtain ⟨huidvalidity, rfl⟩ := spells_unsigned _ _ huidvalidity
  obtain ⟨huid, rfl⟩ := spells_unsigned _ _ huid
  obtain ⟨hsize, rfl⟩ := spells_unsigned _ _ hsize
  obtain ⟨hinternal, rfl⟩ := spells_unsigned _ _ hinternal
  obtain ⟨hduplicates, rfl⟩ := spells_unsigned _ _ hduplicates
  obtain ⟨-, rfl⟩ := spells_unsigned _ _ hflags
  obtain ⟨hstart, rfl⟩ := spells_unsigned _ _ hstart
  obtain ⟨hstop, rfl⟩ := spells_unsigned _ _ hstop
  obtain ⟨hstart', rfl⟩ := spells_unsigned _ _ hstart'
  obtain ⟨hstop', rfl⟩ := spells_unsigned _ _ hstop'
  obtain ⟨haccountId, rfl⟩ := spells_nullable haccountIdRun
  obtain ⟨hmailboxId, rfl⟩ := spells_nullable hmailboxIdRun
  obtain ⟨hobjectKey, rfl⟩ := spells_nullable hobjectKeyRun
  obtain ⟨hmessageId, rfl⟩ := spells_nullable hmessageIdRun
  obtain ⟨hsubject, rfl⟩ := spells_nullable hsubjectRun
  obtain ⟨hfrom, rfl⟩ := spells_nullable hfromRun
  obtain ⟨hto, rfl⟩ := spells_nullable htoRun
  obtain ⟨hcc, rfl⟩ := spells_nullable hccRun
  obtain ⟨hbcc, rfl⟩ := spells_nullable hbccRun
  obtain ⟨hdate, rfl⟩ := spells_nullable hdateRun
  obtain ⟨hsystemFlags, rfl⟩ := spells_strings hsystemFlagsRun
  obtain ⟨huserKeywords, rfl⟩ := spells_strings huserKeywordsRun
  rw [not_not] at hmagic
  have hspans := spanFlags_of_flags (Nat.not_le.mp hknown)
  refine ⟨⟨⟨⟨by omega, by omega⟩, by omega, by omega, by simp only; omega, ⟨by simp only; omega, by simp only; omega⟩,
    ⟨by simp only; omega, by simp only; omega⟩⟩, ?_, hsystemFlags, huserKeywords⟩, ?_⟩
  · simp only [stringFields, List.forall_mem_cons, List.not_mem_nil, false_imp_iff, forall_const, and_true]
    exact ⟨haccountId, hmailboxId, hobjectKey, hmessageId, hsubject, hfrom, hto, hcc, hbcc, hdate⟩
  · simp only [layout, header, stringFields, spanFlags, hspans, hmagic, id_eq, List.flatMap_cons, List.flatMap_nil,
      List.append_assoc, List.nil_append]

/-- Every payload that the encoder makes decodes to its fields. -/
theorem decode_encode {fields : Fields} {bytes : GBytes} (h : encodePayload fields = .ok bytes) (hfits : Fits fields) :
    ∃ payload, validatePayload fields = .ok payload ∧ decodePayload bytes.data = .ok payload := by
  have hencoded := encoded_of_ok h
  obtain ⟨payload, hvalid⟩ := hencoded.valid
  refine ⟨payload, hvalid, ?_⟩
  rw [hencoded.data, decodePayload, (reads_decodeFields (hencoded.readable hfits)).run]
  exact hvalid

end Wyrebox.MessageAppendedPayload
