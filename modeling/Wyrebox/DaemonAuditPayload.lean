import Wyrebox.FactsExtractedPayload

set_option autoImplicit false

/-!
# The DaemonAuditRecorded payload

The record of a request that the daemon has carried out. Requests that change facts are recorded in the first
version of the payload, queries in the second, which has room for a query's names and its error.
-/
namespace Wyrebox.DaemonAuditPayload
open LittleEndian Codec JournalRecord PayloadText Event Fallible

def magic : Bool → List UInt8
  | false => ascii "WYREDAU1"
  | true => ascii "WYREDAU2"

def magicLength : ℕ := 8

def headerSize : Bool → ℕ
  | false => 34
  | true => 42

/-- `WyreboxDaemonAuditOperation`. -/
inductive Operation where
  | singleFactMutation
  | factBatchImport
  | duckdbQueryTemplate
  | wirelogPredicateQuery
  deriving DecidableEq, Repr

def Operation.code : Operation → ℕ
  | .singleFactMutation => 0
  | .factBatchImport => 1
  | .duckdbQueryTemplate => 2
  | .wirelogPredicateQuery => 3

/-- `WyreboxDaemonAuditOutcome`. -/
inductive Outcome where
  | success
  | failure
  deriving DecidableEq, Repr

def Outcome.code : Outcome → ℕ
  | .success => 0
  | .failure => 1

/-- `WyreboxDaemonAuditPayload`. The decoder casts any byte to the two enumerations. -/
structure Fields where
  operation : ℕ
  outcome : ℕ
  requestId : Option CString
  correlationId : Option CString
  callerIdentity : Option CString
  accountIdentity : Option CString
  toolIdentity : Option CString
  scopeId : Option CString
  mutationCount : ℕ
  predicateId : Option CString
  finalJournalOffset : ℕ
  finalJournalSequence : ℕ
  queryId : Option CString
  templateId : Option CString
  errorDomain : Option CString
  errorCode : ℤ
  errorClass : Option CString
  errorMessage : Option CString
  deriving DecidableEq

inductive PayloadError where
  | required (field : String)
  | rule (text : String)
  | allocation
  deriving DecidableEq, Repr

def PayloadError.message : PayloadError → String
  | .required field => "DaemonAuditRecorded payload " ++ field ++ " is required"
  | .rule text => "DaemonAuditRecorded " ++ text
  | .allocation => "failed to allocate"

def truncated : PayloadError := .rule "payload is truncated"
def embeddedNul : PayloadError := .rule "payload string contains embedded NUL"

/-! ## Checks -/

def reject (c : Prop) [Decidable c] (error : PayloadError) : Except PayloadError Unit :=
  if c then .error error else .ok ()

def onlyIf (c : Prop) [Decidable c] (check : Except PayloadError Unit) : Except PayloadError Unit :=
  if c then check else .ok ()

def validateRequiredString (field : String) (value : Option CString) : Except PayloadError Unit :=
  reject (value.getD .empty = .empty) (.required field)

/-- `payload_uses_v2`. -/
def usesV2 (operation : ℕ) : Bool :=
  operation == Operation.duckdbQueryTemplate.code || operation == Operation.wirelogPredicateQuery.code

def validateOperation (operation : ℕ) : Except PayloadError Unit :=
  reject (¬(operation = Operation.singleFactMutation.code ∨ operation = Operation.factBatchImport.code ∨
    operation = Operation.duckdbQueryTemplate.code ∨ operation = Operation.wirelogPredicateQuery.code))
    (.rule "payload operation is invalid")

def validateOutcome (outcome : ℕ) (text : String) : Except PayloadError Unit :=
  reject (¬(outcome = Outcome.success.code ∨ outcome = Outcome.failure.code)) (.rule text)

/-- What `validate_payload` asks of a query. -/
def validateQuery (fields : Fields) : Except PayloadError Unit := do
  validateOutcome fields.outcome "query audit outcome is invalid"
  validateRequiredString "query_id" fields.queryId
  validateRequiredString "template_id" fields.templateId
  onlyIf (fields.outcome = Outcome.failure.code) do
    validateRequiredString "error_domain" fields.errorDomain
    validateRequiredString "error_class" fields.errorClass
    validateRequiredString "error_message" fields.errorMessage

/-- `validate_payload`. -/
def validatePayload (fields : Fields) : Except PayloadError Unit := do
  validateOperation fields.operation
  validateOutcome fields.outcome "payload outcome is invalid"
  validateRequiredString "request_id" fields.requestId
  validateRequiredString "caller_identity" fields.callerIdentity
  validateRequiredString "account_identity" fields.accountIdentity
  validateRequiredString "scope_id" fields.scopeId
  onlyIf (fields.operation = Operation.singleFactMutation.code)
    (validateRequiredString "predicate_id" fields.predicateId)
  onlyIf (usesV2 fields.operation = true) (validateQuery fields)
  reject (usesV2 fields.operation = false ∧ fields.mutationCount = 0) (.rule "mutation_count is required")
  reject (fields.operation = Operation.singleFactMutation.code ∧ fields.mutationCount ≠ 1)
    (.rule "single fact mutation count must be one")
  reject (usesV2 fields.operation = false ∧ fields.finalJournalSequence = 0)
    (.rule "final journal sequence is required")

/-! ## The bytes -/

/-- What the bytes of a payload say: its version, the numbers, the 64 bits of the error code, the strings. -/
structure Wire where
  isV2 : Bool
  operation : ℕ
  outcome : ℕ
  mutationCount : ℕ
  finalJournalOffset : ℕ
  finalJournalSequence : ℕ
  errorBits : ℕ
  strings : List (Option CString)
  deriving DecidableEq

def stringCount : Bool → ℕ
  | false => 7
  | true => 12

/-- The strings of both versions in their order, then those of the second. -/
def stringFields (fields : Fields) : List (Option CString) :=
  [fields.requestId, fields.correlationId, fields.callerIdentity, fields.accountIdentity, fields.toolIdentity,
    fields.scopeId, fields.predicateId, fields.queryId, fields.templateId, fields.errorDomain, fields.errorClass,
    fields.errorMessage]

/-- The error code goes through `gint64` into 64 bits. -/
def wireOf (fields : Fields) : Wire :=
  let isV2 := usesV2 fields.operation
  { isV2
    operation := fields.operation
    outcome := fields.outcome
    mutationCount := fields.mutationCount
    finalJournalOffset := fields.finalJournalOffset
    finalJournalSequence := fields.finalJournalSequence
    errorBits := if isV2 then (fields.errorCode % 2 ^ 64).toNat else 0
    strings := (stringFields fields).take (stringCount isV2) }

/-- A `gint` keeps the low 32 bits. -/
def gintOf (errorBits : ℕ) : ℤ :=
  if errorBits % 2 ^ 32 < 2 ^ 31 then errorBits % 2 ^ 32 else (errorBits : ℤ) % 2 ^ 32 - 2 ^ 32

/-- What the first version lacks stays zero. -/
def fieldsOf (wire : Wire) : Fields :=
  let string (n : ℕ) : Option CString := wire.strings.getD n none
  { operation := wire.operation
    outcome := wire.outcome
    requestId := string 0
    correlationId := string 1
    callerIdentity := string 2
    accountIdentity := string 3
    toolIdentity := string 4
    scopeId := string 5
    mutationCount := wire.mutationCount
    predicateId := string 6
    finalJournalOffset := wire.finalJournalOffset
    finalJournalSequence := wire.finalJournalSequence
    queryId := string 7
    templateId := string 8
    errorDomain := string 9
    errorCode := gintOf wire.errorBits
    errorClass := string 10
    errorMessage := string 11 }

def errorWordLayout (isV2 : Bool) (errorBits : ℕ) : List UInt8 := if isV2 then encode 8 errorBits else []

def bodyLayout (wire : Wire) : List UInt8 :=
  encode 1 wire.operation ++ (encode 1 wire.outcome ++ (encode 8 wire.mutationCount ++
    (encode 8 wire.finalJournalOffset ++ (encode 8 wire.finalJournalSequence ++
      (errorWordLayout wire.isV2 wire.errorBits ++ wire.strings.flatMap encodeNullable)))))

def layout (wire : Wire) : List UInt8 := magic wire.isV2 ++ bodyLayout wire

def checkedAddSize (total value : ℕ) : Except PayloadError ℕ :=
  if maxSize - total < value then .error (.rule "payload length overflows memory") else .ok (total + value)

def checkedAddString (total : ℕ) : Option CString → Except PayloadError ℕ
  | none => checkedAddSize total 4
  | some value => do
    let total ← checkedAddSize total 4
    if nullString ≤ value.bytes.length then .error (.rule "payload string is too large")
    else checkedAddSize total value.bytes.length

def checkedAddStrings (total : ℕ) : List (Option CString) → Except PayloadError ℕ
  | [] => .ok total
  | value :: values => do
    let total ← checkedAddString total value
    checkedAddStrings total values

/-- `wyrebox_daemon_audit_payload_encode`. No allocation is larger than `PTRDIFF_MAX`. -/
def encodePayload (fields : Fields) : Except PayloadError GBytes := do
  validatePayload fields
  let _ ← checkedAddStrings (headerSize (usesV2 fields.operation)) (wireOf fields).strings
  let data := layout (wireOf fields)
  if h : data.length ≤ 2 ^ 63 - 1 then .ok ⟨data, h⟩ else .error .allocation

/-- A version is taken only with enough bytes for its header. -/
def version : Decoder PayloadError Bool := fun rest =>
  if headerSize false ≤ rest.length ∧ rest.take magicLength = magic false then .ok (false, rest.drop magicLength)
  else if headerSize true ≤ rest.length ∧ rest.take magicLength = magic true then
    .ok (true, rest.drop magicLength)
  else if rest.length < headerSize false then .error truncated
  else .error (.rule "payload magic is unsupported")

def errorWord (isV2 : Bool) : Decoder PayloadError ℕ := if isV2 then unsigned 8 truncated else pure 0

def decodeBody (isV2 : Bool) : Decoder PayloadError Wire := do
  let operation ← unsigned 1 truncated
  let outcome ← unsigned 1 truncated
  let mutationCount ← unsigned 8 truncated
  let finalJournalOffset ← unsigned 8 truncated
  let finalJournalSequence ← unsigned 8 truncated
  let errorBits ← errorWord isV2
  let strings ← times (nullable truncated embeddedNul) (stringCount isV2)
  pure
    { isV2, operation, outcome, mutationCount, finalJournalOffset, finalJournalSequence, errorBits, strings }

def decodeWire : Decoder PayloadError Wire := version >>= decodeBody

def accept (wire : Wire) : Except PayloadError Fields := do
  validatePayload (fieldsOf wire)
  .ok (fieldsOf wire)

/-- `wyrebox_daemon_audit_payload_decode`. -/
def decodePayload (data : List UInt8) : Except PayloadError Fields :=
  whole decodeWire (.rule "payload has trailing bytes") accept data

/-! ## What the decoder accepts -/

/-- A payload as it lies in bytes. -/
structure Spelled (wire : Wire) : Prop where
  codes : wire.operation < 2 ^ 8 ∧ wire.outcome < 2 ^ 8
  mutationCount : wire.mutationCount < 2 ^ 64
  position : wire.finalJournalOffset < 2 ^ 64 ∧ wire.finalJournalSequence < 2 ^ 64
  errorBits : wire.errorBits < 2 ^ 64 ∧ (wire.isV2 = false → wire.errorBits = 0)
  strings : wire.strings.length = stringCount wire.isV2 ∧ ∀ value ∈ wire.strings, Encodable value

lemma magic_length (isV2 : Bool) : (magic isV2).length = magicLength := by cases isV2 <;> decide

lemma errorWordLayout_length (isV2 : Bool) (errorBits : ℕ) :
    (errorWordLayout isV2 errorBits).length = headerSize isV2 - headerSize false := by
  cases isV2 <;> simp [errorWordLayout, headerSize]

lemma bodyLayout_length (wire : Wire) : (bodyLayout wire).length + magicLength =
    headerSize wire.isV2 + (wire.strings.flatMap encodeNullable).length := by
  have hword := errorWordLayout_length wire.isV2 wire.errorBits
  have hheader : headerSize false = 34 ∧ headerSize false ≤ headerSize wire.isV2 := by cases wire.isV2 <;> decide
  simp only [bodyLayout, List.length_append, encode_length, hword, magicLength]
  omega

theorem layout_length (wire : Wire) : (layout wire).length =
    headerSize wire.isV2 + (wire.strings.flatMap encodeNullable).length := by
  rw [layout, List.length_append, magic_length, ← bodyLayout_length, Nat.add_comm]

theorem codes_errorWord (isV2 : Bool) : Codes (errorWord isV2)
    (fun errorBits => errorBits < 2 ^ 64 ∧ (isV2 = false → errorBits = 0)) (errorWordLayout isV2) := by
  cases isV2 with
  | false =>
    refine ⟨?_, ?_⟩
    · intro bytes value rest h
      obtain ⟨rfl, rfl⟩ := pure_run.mp h
      exact ⟨⟨by omega, fun _ => rfl⟩, rfl⟩
    · rintro value ⟨-, hzero⟩
      obtain rfl := hzero rfl
      exact Reads.pure 0
  | true =>
    refine ⟨?_, ?_⟩
    · intro bytes value rest h
      obtain ⟨hlt, rfl⟩ := spells_unsigned _ _ h
      exact ⟨⟨by omega, fun hfalse => by cases hfalse⟩, rfl⟩
    · rintro value ⟨hlt, -⟩
      exact reads_unsigned truncated (by omega)

theorem codes_nullable : Codes (nullable truncated embeddedNul) PayloadText.Encodable encodeNullable :=
  ⟨spells_nullable, reads_nullable⟩

/-- The version of bytes that are long enough for it. -/
theorem version_eq_ok {bytes rest : List UInt8} {isV2 : Bool} :
    version bytes = .ok (isV2, rest) ↔ bytes = magic isV2 ++ rest ∧ headerSize isV2 ≤ bytes.length := by
  have hsplit : ∀ v : Bool, bytes.take magicLength = magic v ∧ rest = bytes.drop magicLength ↔
      bytes = magic v ++ rest := by
    intro v
    constructor
    · rintro ⟨htake, rfl⟩
      rw [← htake, List.take_append_drop]
    · rintro rfl
      rw [← magic_length v, List.take_left, List.drop_left]
      exact ⟨rfl, rfl⟩
  have hdistinct : magic false ≠ magic true := by decide
  rw [← hsplit, version]
  split
  · rename_i hfalse
    rw [Except.ok.injEq, Prod.mk.injEq]
    constructor
    · rintro ⟨rfl, rfl⟩
      exact ⟨⟨hfalse.2, rfl⟩, hfalse.1⟩
    · rintro ⟨⟨htake, rfl⟩, -⟩
      cases isV2 with
      | false => exact ⟨rfl, rfl⟩
      | true => exact absurd (hfalse.2.symm.trans htake) hdistinct
  · rename_i hfalse
    split
    · rename_i htrue
      rw [Except.ok.injEq, Prod.mk.injEq]
      constructor
      · rintro ⟨rfl, rfl⟩
        exact ⟨⟨htrue.2, rfl⟩, htrue.1⟩
      · rintro ⟨⟨htake, rfl⟩, -⟩
        cases isV2 with
        | false => exact absurd (htake.symm.trans htrue.2) hdistinct
        | true => exact ⟨rfl, rfl⟩
    · rename_i htrue
      have hnone : ¬((bytes.take magicLength = magic isV2 ∧ rest = bytes.drop magicLength) ∧
          headerSize isV2 ≤ bytes.length) := by
        rintro ⟨⟨htake, -⟩, hlength⟩
        cases isV2 with
        | false => exact hfalse ⟨hlength, htake⟩
        | true => exact htrue ⟨hlength, htake⟩
      refine iff_of_false (fun h => ?_) hnone
      split at h <;> cases h

theorem codes_decodeBody (isV2 : Bool) :
    Codes (decodeBody isV2) (fun wire => Spelled wire ∧ wire.isV2 = isV2) bodyLayout where
  spells := by
    intro bytes wire rest h
    simp only [decodeBody, bind_run, pure_run] at h
    obtain ⟨operation, _, hoperation, outcome, _, houtcome, count, _, hcount, offset, _, hoffset, sequence, _,
      hsequence, errorBits, _, herror, strings, _, hstrings, rfl, rfl⟩ := h
    obtain ⟨hoperation, rfl⟩ := spells_unsigned _ _ hoperation
    obtain ⟨houtcome, rfl⟩ := spells_unsigned _ _ houtcome
    obtain ⟨hcount, rfl⟩ := spells_unsigned _ _ hcount
    obtain ⟨hoffset, rfl⟩ := spells_unsigned _ _ hoffset
    obtain ⟨hsequence, rfl⟩ := spells_unsigned _ _ hsequence
    obtain ⟨herrorBits, rfl⟩ := (codes_errorWord isV2).spells herror
    obtain ⟨hall, rfl⟩ := spells_times codes_nullable.spells _ hstrings
    refine ⟨⟨⟨⟨by omega, by omega⟩, by simp only; omega, ⟨by omega, by omega⟩, herrorBits, hall⟩, rfl⟩, ?_⟩
    simp only [bodyLayout, List.append_assoc]
  reads := by
    rintro wire ⟨h, rfl⟩
    obtain ⟨hoperation, houtcome⟩ := h.codes
    obtain ⟨hoffset, hsequence⟩ := h.position
    have hcount := h.mutationCount
    refine (reads_unsigned _ (by omega)).bind ((reads_unsigned _ (by omega)).bind ?_)
    refine (reads_unsigned _ (by omega)).bind ((reads_unsigned _ (by omega)).bind ?_)
    refine (reads_unsigned _ (by omega)).bind (((codes_errorWord _).reads h.errorBits).bind ?_)
    rw [← h.strings.1]
    exact (reads_times fun value hvalue => codes_nullable.reads (h.strings.2 value hvalue)).bind_pure

theorem codes_decodeWire : Codes decodeWire Spelled layout where
  spells := by
    intro bytes wire rest h
    rw [decodeWire, bind_run] at h
    obtain ⟨isV2, _, hversion, hbody⟩ := h
    obtain ⟨rfl, -⟩ := version_eq_ok.mp hversion
    obtain ⟨⟨hspelled, rfl⟩, rfl⟩ := (codes_decodeBody isV2).spells hbody
    exact ⟨hspelled, by rw [layout, List.append_assoc]⟩
  reads := by
    intro wire h tail
    have hlength := layout_length wire
    have hversion : version (layout wire ++ tail) = .ok (wire.isV2, bodyLayout wire ++ tail) := by
      refine version_eq_ok.mpr ⟨by rw [layout, List.append_assoc], ?_⟩
      rw [List.length_append]
      omega
    exact bind_run.mpr ⟨_, _, hversion, (codes_decodeBody _).reads ⟨h, rfl⟩ tail⟩

theorem decodePayload_eq_ok {data : List UInt8} {fields : Fields} : decodePayload data = .ok fields ↔
    ∃ wire, Spelled wire ∧ validatePayload fields = .ok () ∧ fieldsOf wire = fields ∧ data = layout wire := by
  rw [decodePayload, whole_eq_ok codes_decodeWire]
  simp only [accept, bind_eq_ok, Except.ok.injEq]
  constructor
  · rintro ⟨wire, hspelled, ⟨_, hvalid, rfl⟩, rfl⟩
    exact ⟨wire, hspelled, hvalid, rfl, rfl⟩
  · rintro ⟨wire, hspelled, hvalid, rfl, rfl⟩
    exact ⟨wire, hspelled, ⟨_, hvalid, rfl⟩, rfl⟩

/-! ## What the encoder writes -/

/-- The numbers are in the range of their C types. -/
structure Fits (fields : Fields) : Prop where
  mutationCount : fields.mutationCount < 2 ^ 64
  position : fields.finalJournalOffset < 2 ^ 64 ∧ fields.finalJournalSequence < 2 ^ 64
  errorCode : -2 ^ 31 ≤ fields.errorCode ∧ fields.errorCode < 2 ^ 31

/-- What a payload keeps of its fields: the first version has no place for a query. -/
def kept (fields : Fields) : Fields :=
  if usesV2 fields.operation then fields
  else
    { fields with
      queryId := none, templateId := none, errorDomain := none, errorCode := 0, errorClass := none
      errorMessage := none }

section
variable {fields : Fields} {wire : Wire} {bytes : GBytes} {data : List UInt8}

lemma reject_eq_ok {c : Prop} [Decidable c] {error : PayloadError} {u : Unit} : reject c error = .ok u ↔ ¬c := by
  rw [reject, ite_error_eq_ok]
  exact and_iff_left rfl

lemma validateRequiredString_eq_ok {field : String} {value : Option CString} {u : Unit} :
    validateRequiredString field value = .ok u ↔ ∃ s, value = some s ∧ s ≠ .empty := by
  rw [validateRequiredString, reject_eq_ok]
  cases value with
  | none => simp
  | some s => simp

/-- A payload that passes is of one of the four operations and one of the two outcomes. -/
theorem codes_of_valid (h : validatePayload fields = .ok ()) :
    (∃ operation : Operation, fields.operation = operation.code) ∧
      ∃ outcome : Outcome, fields.outcome = outcome.code := by
  simp only [validatePayload, bind_eq_ok, validateOperation, validateOutcome, reject_eq_ok, not_not] at h
  obtain ⟨_, hoperation, _, houtcome, -⟩ := h
  refine ⟨?_, houtcome.elim (fun h => ⟨_, h⟩) fun h => ⟨_, h⟩⟩
  rcases hoperation with h | h | h | h <;> exact ⟨_, h⟩

lemma usesV2_code (operation : Operation) : usesV2 operation.code = true ↔
    operation = .duckdbQueryTemplate ∨ operation = .wirelogPredicateQuery := by
  cases operation <;> decide

theorem validatePayload_kept (fields : Fields) : validatePayload (kept fields) = validatePayload fields := by
  rw [kept]
  split
  · rfl
  · rename_i hquery
    rw [Bool.not_eq_true] at hquery
    simp only [validatePayload, hquery, Bool.false_eq_true, onlyIf, if_false]

lemma gintOf_toNat {errorCode : ℤ} (h : -2 ^ 31 ≤ errorCode ∧ errorCode < 2 ^ 31) :
    gintOf (errorCode % 2 ^ 64).toNat = errorCode := by
  rw [gintOf, Int.toNat_of_nonneg (Int.emod_nonneg _ (by decide))]
  split <;> omega

theorem fieldsOf_wireOf (hfits : Fits fields) : fieldsOf (wireOf fields) = kept fields := by
  have herror := gintOf_toNat hfits.errorCode
  have hzero : gintOf 0 = 0 := by decide
  cases hquery : usesV2 fields.operation with
  | false => simp [fieldsOf, wireOf, kept, hquery, stringFields, stringCount, hzero]
  | true =>
    simp only [fieldsOf, wireOf, kept, hquery, stringFields, stringCount, if_true, herror]
    rfl

lemma encodeNullable_length (value : Option CString) :
    (encodeNullable value).length = 4 + (value.getD .empty).bytes.length := by
  cases value with
  | none => rw [encodeNullable, encode_length]; rfl
  | some s => rw [encodeNullable, List.length_append, encode_length]; rfl

lemma checkedAddString_eq_ok {total total' : ℕ} {value : Option CString} (htotal : total ≤ maxSize) :
    checkedAddString total value = .ok total' ↔
      Encodable value ∧ total' = total + (encodeNullable value).length ∧ total' ≤ maxSize := by
  rw [encodeNullable_length]
  cases value with
  | none =>
    simp only [checkedAddString, checkedAddSize, ite_error_eq_ok, Except.ok.injEq, PayloadText.Encodable, reduceCtorEq,
      false_imp_iff, implies_true, true_and, Option.getD_none]
    have hempty : CString.empty.bytes.length = 0 := rfl
    omega
  | some s =>
    simp only [checkedAddString, checkedAddSize, bind_eq_ok, ite_error_eq_ok, Except.ok.injEq, PayloadText.Encodable,
      Option.some.injEq, forall_eq', Option.getD_some]
    constructor
    · rintro ⟨_, ⟨hfits, rfl⟩, hlen, hfits', rfl⟩
      omega
    · rintro ⟨hlen, rfl, hle⟩
      exact ⟨_, ⟨by omega, rfl⟩, by omega, by omega, by omega⟩

theorem checkedAddStrings_eq_ok {total total' : ℕ} {values : List (Option CString)} (htotal : total ≤ maxSize) :
    checkedAddStrings total values = .ok total' ↔ (∀ value ∈ values, Encodable value) ∧
      total' = total + (values.flatMap encodeNullable).length ∧ total' ≤ maxSize := by
  induction values generalizing total with
  | nil =>
    simp only [checkedAddStrings, Except.ok.injEq, List.not_mem_nil, false_imp_iff, implies_true, true_and,
      List.flatMap_nil, List.length_nil]
    omega
  | cons value values ih =>
    simp only [checkedAddStrings, bind_eq_ok, checkedAddString_eq_ok htotal, List.forall_mem_cons, List.flatMap_cons,
      List.length_append]
    constructor
    · rintro ⟨next, ⟨hvalue, rfl, hnext⟩, hrest⟩
      obtain ⟨hvalues, rfl, hle⟩ := (ih hnext).mp hrest
      exact ⟨⟨hvalue, hvalues⟩, by omega, hle⟩
    · rintro ⟨⟨hvalue, hvalues⟩, rfl, hle⟩
      exact ⟨_, ⟨hvalue, rfl, by omega⟩, (ih (by omega)).mpr ⟨hvalues, by omega, hle⟩⟩

theorem encodePayload_eq_ok : encodePayload fields = .ok bytes ↔ validatePayload fields = .ok () ∧
    (∀ value ∈ (wireOf fields).strings, Encodable value) ∧ bytes.data = layout (wireOf fields) ∧
    (layout (wireOf fields)).length < 2 ^ 63 := by
  have hlength := layout_length (wireOf fields)
  have hversion : (wireOf fields).isV2 = usesV2 fields.operation := rfl
  have hheader : headerSize (usesV2 fields.operation) ≤ 42 := by cases usesV2 fields.operation <;> decide
  have hmax : maxSize = 2 ^ 64 - 1 := rfl
  rw [hversion] at hlength
  have htotal : headerSize (usesV2 fields.operation) ≤ maxSize := by omega
  simp only [encodePayload, bind_eq_ok, checkedAddStrings_eq_ok htotal]
  constructor
  · rintro ⟨_, hvalid, total, ⟨hstrings, rfl, -⟩, hdata⟩
    split at hdata
    · rename_i hmemory
      cases hdata
      exact ⟨hvalid, hstrings, rfl, by omega⟩
    · cases hdata
  · rintro ⟨hvalid, hstrings, hdata, hlt⟩
    refine ⟨(), hvalid, _, ⟨hstrings, rfl, by omega⟩, ?_⟩
    rw [dif_pos (by omega)]
    obtain ⟨data, hsize⟩ := bytes
    cases hdata
    rfl

theorem spelled_wireOf (hfits : Fits fields) (hvalid : validatePayload fields = .ok ())
    (hstrings : ∀ value ∈ (wireOf fields).strings, Encodable value) : Spelled (wireOf fields) where
  codes := by
    obtain ⟨⟨operation, hoperation⟩, outcome, houtcome⟩ := codes_of_valid hvalid
    change fields.operation < 2 ^ 8 ∧ fields.outcome < 2 ^ 8
    rw [hoperation, houtcome]
    cases operation <;> cases outcome <;> decide
  mutationCount := hfits.mutationCount
  position := hfits.position
  errorBits := by
    simp only [wireOf]
    split
    · exact ⟨by omega, fun hfalse => by simp_all⟩
    · exact ⟨by omega, fun _ => rfl⟩
  strings := by
    refine ⟨?_, hstrings⟩
    change ((stringFields fields).take _).length = _
    cases h : usesV2 fields.operation <;> simp [wireOf, h, stringFields, stringCount]

end

/-! ## Both together -/

/-- What stands before the strings. -/
def header (wire : Wire) : List UInt8 :=
  magic wire.isV2 ++ (encode 1 wire.operation ++ (encode 1 wire.outcome ++ (encode 8 wire.mutationCount ++
    (encode 8 wire.finalJournalOffset ++ (encode 8 wire.finalJournalSequence ++
      errorWordLayout wire.isV2 wire.errorBits)))))

lemma layout_eq (wire : Wire) : layout wire = header wire ++ wire.strings.flatMap encodeNullable := by
  simp only [layout, bodyLayout, header, List.append_assoc]

lemma header_length (wire : Wire) : (header wire).length = headerSize wire.isV2 := by
  have h := layout_length wire
  rw [layout_eq, List.length_append] at h
  omega

lemma magic_injective : Function.Injective magic := by
  intro v v' h
  cases v <;> cases v' <;> first | rfl | exact absurd h (by decide)

lemma wireOf_errorBits (fields : Fields) : (wireOf fields).errorBits =
    if usesV2 fields.operation = true then (fields.errorCode % 2 ^ 64).toNat else 0 := rfl

lemma gintOf_range (errorBits : ℕ) : -2 ^ 31 ≤ gintOf errorBits ∧ gintOf errorBits < 2 ^ 31 := by
  rw [gintOf]
  split <;> omega

/-- The strings of a payload of either version come back from its fields. -/
theorem stringFields_fieldsOf {wire : Wire} (h : wire.strings.length = stringCount wire.isV2) :
    (stringFields (fieldsOf wire)).take (stringCount wire.isV2) = wire.strings := by
  have hcount : stringCount wire.isV2 ≤ 12 := by cases wire.isV2 <;> decide
  refine List.ext_getElem ?_ fun i hi hi' => ?_
  · rw [List.length_take, h]
    exact Nat.min_eq_left hcount
  · rw [List.getElem_take]
    have hlt : i < 12 := by omega
    interval_cases i <;> simp [stringFields, fieldsOf, List.getD_eq_getElem?_getD, hi']

/-- Bytes that begin as the encoder would begin them are the encoder's. -/
theorem wireOf_fieldsOf {wire : Wire} (h : Spelled wire) (hheader : header (wireOf (fieldsOf wire)) <+: layout wire) :
    wireOf (fieldsOf wire) = wire := by
  have hversion : usesV2 wire.operation = wire.isV2 := by
    have hmagic : magic (usesV2 wire.operation) <+: layout wire := (List.prefix_append _ _).trans hheader
    refine magic_injective ?_
    have hlayout : magic wire.isV2 <+: layout wire := List.prefix_append _ _
    refine (List.prefix_of_prefix_length_le hmagic hlayout ?_).eq_of_length ?_ <;>
      simp only [magic_length, le_refl]
  have hsame : header (wireOf (fieldsOf wire)) = header wire := by
    rw [layout_eq] at hheader
    have hlength : (header (wireOf (fieldsOf wire))).length = (header wire).length := by
      rw [header_length, header_length]
      exact congrArg headerSize hversion
    exact (List.prefix_of_prefix_length_le hheader (List.prefix_append _ _) hlength.le).eq_of_length hlength
  have herror : errorWordLayout (usesV2 wire.operation) (wireOf (fieldsOf wire)).errorBits =
      errorWordLayout wire.isV2 wire.errorBits := by
    have hmagic : magic (wireOf (fieldsOf wire)).isV2 = magic wire.isV2 := congrArg magic hversion
    simp only [header, hmagic] at hsame
    iterate 6 replace hsame := List.append_cancel_left hsame
    exact hsame
  have hbits : (wireOf (fieldsOf wire)).errorBits = wire.errorBits := by
    have hvalue := wireOf_errorBits (fieldsOf wire)
    change _ = if usesV2 wire.operation = true then _ else _ at hvalue
    rw [hversion] at herror hvalue
    cases hv2 : wire.isV2 with
    | false => rw [hvalue, hv2, h.errorBits.2 hv2, if_neg Bool.false_ne_true]
    | true =>
      rw [hv2, errorWordLayout, if_pos rfl, errorWordLayout, if_pos rfl] at herror
      rw [hv2, if_pos rfl] at hvalue
      refine encode_inj ?_ (by have := h.errorBits.1; omega) herror
      rw [hvalue]
      omega
  have hstrings : (wireOf (fieldsOf wire)).strings = wire.strings := by
    have hfields := stringFields_fieldsOf h.strings.1
    rw [← hversion] at hfields
    exact hfields
  obtain ⟨isV2, operation, outcome, mutationCount, offset, sequence, errorBits, strings⟩ := wire
  rw [Wire.mk.injEq]
  exact ⟨hversion, rfl, rfl, rfl, rfl, rfl, hbits, hstrings⟩

/-- A query has a name, which the first version cannot give. -/
theorem isV2_of_query {wire : Wire} (h : Spelled wire) (hvalid : validatePayload (fieldsOf wire) = .ok ())
    (hquery : usesV2 wire.operation = true) : wire.isV2 = true := by
  by_contra hv1
  rw [Bool.not_eq_true] at hv1
  have hcount : wire.strings.length = 7 := by rw [h.strings.1, hv1]; rfl
  have hoperation : usesV2 (fieldsOf wire).operation = true := hquery
  simp only [validatePayload, bind_eq_ok, onlyIf, if_pos hoperation, validateQuery,
    validateRequiredString_eq_ok] at hvalid
  obtain ⟨_, -, _, -, _, -, _, -, _, -, _, -, _, -, _, ⟨_, -, _, ⟨s, hs, -⟩, -⟩, -⟩ := hvalid
  have hnone : (fieldsOf wire).queryId = none := by
    change wire.strings.getD 7 none = none
    rw [List.getD_eq_getElem?_getD, List.getElem?_eq_none (by omega)]
    rfl
  rw [hnone] at hs
  cases hs

theorem fits_of_spelled {wire : Wire} (h : Spelled wire) : Fits (fieldsOf wire) :=
  ⟨h.mutationCount, h.position, gintOf_range wire.errorBits⟩

/-- An encoded payload comes back with all that its version has room for. Bytes that are decoded are the encoder's
    own exactly when they begin as it would begin them; a query is only ever found in the second version, and
    nothing that is cut short or goes on is taken. -/
theorem audit_exact :
    (∀ {fields bytes}, Fits fields → encodePayload fields = .ok bytes →
      decodePayload bytes.data = .ok (kept fields)) ∧
    (∀ {bytes : GBytes} {fields}, decodePayload bytes.data = .ok fields → bytes.data.length < 2 ^ 63 →
      (encodePayload fields = .ok bytes ↔ header (wireOf fields) <+: bytes.data)) ∧
    (∀ {data fields}, decodePayload data = .ok fields → Fits fields ∧
      (usesV2 fields.operation = true → magic true <+: data) ∧
      (∀ tail, tail ≠ [] → decodePayload (data ++ tail) = .error (.rule "payload has trailing bytes")) ∧
      ∀ n, n < data.length → ∃ error, decodePayload (data.take n) = .error error) := by
  refine ⟨?_, ?_, ?_⟩
  · intro fields bytes hfits h
    obtain ⟨hvalid, hstrings, hdata, -⟩ := encodePayload_eq_ok.mp h
    exact decodePayload_eq_ok.mpr ⟨wireOf fields, spelled_wireOf hfits hvalid hstrings,
      (validatePayload_kept fields).trans hvalid, fieldsOf_wireOf hfits, hdata⟩
  · intro bytes fields h hlength
    obtain ⟨wire, hspelled, hvalid, rfl, hdata⟩ := decodePayload_eq_ok.mp h
    rw [encodePayload_eq_ok]
    constructor
    · rintro ⟨-, -, hown, -⟩
      rw [hown, layout_eq]
      exact List.prefix_append _ _
    · intro hheader
      rw [hdata] at hheader hlength ⊢
      rw [wireOf_fieldsOf hspelled hheader]
      exact ⟨hvalid, hspelled.strings.2, rfl, hlength⟩
  · intro data fields h
    obtain ⟨wire, hspelled, hvalid, rfl, rfl⟩ := decodePayload_eq_ok.mp h
    refine ⟨fits_of_spelled hspelled, fun hquery => ?_, fun tail hne => whole_append codes_decodeWire h hne,
      fun n hn => whole_take codes_decodeWire h hn⟩
    rw [layout, isV2_of_query hspelled hvalid hquery]
    exact List.prefix_append _ _

end Wyrebox.DaemonAuditPayload
