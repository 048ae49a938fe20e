import Wyrebox.DerivedViewPayload
import Wyrebox.FactRecords

set_option autoImplicit false

/-!
# The FactsExtracted payload

The facts of one message. They carry no time of their own: a reader gives all of them the time of the
extraction, and puts them through the checks of a new fact, which the writer does not.
-/
namespace Wyrebox.FactsExtractedPayload
open LittleEndian Codec JournalRecord PayloadText Event Fallible
open FactRecords (FactError recordInit)
open DerivedViewPayload (requiredText Spellable codes_requiredText)
open MutationPayload (encodeTexts encodeText_length)

def magic : List UInt8 := ascii "WYREFEX1"
def magicLength : ℕ := 8
def headerSize : ℕ := 20

/-- `WyreboxFactRecord`, as far as the encoder reads it. -/
structure FactFields where
  predicate : Option CString
  args : Option (List CString)
  source : Option CString
  confidencePpm : ℕ
  deriving DecidableEq

/-- `WyreboxFactsExtractedPayload`, before anything is known of it. -/
structure Fields where
  accountId : Option CString
  messageId : Option CString
  extractedAtUnixUs : ℕ
  facts : List FactFields
  deriving DecidableEq

inductive PayloadError where
  | accountOrMessage
  | string
  | firstArgument (messageId : CString)
  | header
  | truncated
  | malformedString
  | malformedFact (error : FactError)
  | malformedLength
  | allocation
  deriving DecidableEq

def PayloadError.message : PayloadError → List UInt8
  | .accountOrMessage => ascii "FactsExtracted payload needs an account and a message"
  | .string => ascii "FactsExtracted payload strings must be non-empty and fit 32 bits"
  | .firstArgument messageId =>
    ascii "FactsExtracted payload fact must name message " ++ messageId.bytes ++ ascii " as its first argument"
  | .header => ascii "FactsExtracted payload is truncated or has invalid magic"
  | .truncated => ascii "FactsExtracted payload is truncated"
  | .malformedString => ascii "FactsExtracted payload string is empty or contains NUL"
  | .malformedFact error => ascii "FactsExtracted payload fact is malformed: " ++ ascii error.message
  | .malformedLength => ascii "FactsExtracted payload length is malformed"
  | .allocation => ascii "adding to array would overflow"

/-! ## Encoding -/

/-- `write_string`. -/
def writeString (value : CString) : Except PayloadError (List UInt8) :=
  if value.bytes.isEmpty ∨ 2 ^ 32 - 1 < value.bytes.length then .error .string else .ok (encodeText value)

def writeStrings : List CString → Except PayloadError (List UInt8)
  | [] => .ok []
  | value :: values => do
    let head ← writeString value
    let tail ← writeStrings values
    .ok (head ++ tail)

/-- `validate_fact` of a fact that is not decoded yet. -/
def validateFact (messageId : CString) (fact : FactFields) : Except PayloadError (CString × CString × List CString) :=
  match fact.predicate, fact.source, fact.args with
  | some predicate, some source, some args =>
    if args.head? = some messageId then .ok (predicate, source, args) else .error (.firstArgument messageId)
  | _, _, _ => .error (.firstArgument messageId)

/-- `g_strv_length` counts in a `guint`. -/
def writeFact (messageId : CString) (fact : FactFields) : Except PayloadError (List UInt8) := do
  let (predicate, source, args) ← validateFact messageId fact
  let predicate ← writeString predicate
  let source ← writeString source
  let values ← writeStrings args
  .ok (predicate ++ (source ++ (encode 4 fact.confidencePpm ++ (encode 4 args.length ++ values))))

def writeFacts (messageId : CString) : List FactFields → Except PayloadError (List UInt8)
  | [] => .ok []
  | fact :: facts => do
    let head ← writeFact messageId fact
    let tail ← writeFacts messageId facts
    .ok (head ++ tail)

def requiredId : Option CString → Except PayloadError CString
  | none => .error .accountOrMessage
  | some id => if id.bytes.isEmpty then .error .accountOrMessage else .ok id

lemma maxUint_le : 2 ^ 32 - 1 ≤ 2 ^ 63 - 1 := by decide

/-- `wyrebox_facts_extracted_payload_encode`. A `GByteArray` counts its bytes in a `guint`. -/
def encodePayload (fields : Fields) : Except PayloadError GBytes := do
  let accountId ← requiredId fields.accountId
  let messageId ← requiredId fields.messageId
  let account ← writeString accountId
  let message ← writeString messageId
  let facts ← writeFacts messageId fields.facts
  let data := magic ++ (encode 8 fields.extractedAtUnixUs ++ (encode 4 fields.facts.length ++
    (account ++ (message ++ facts))))
  if h : data.length ≤ 2 ^ 32 - 1 then .ok ⟨data, h.trans maxUint_le⟩ else .error .allocation

/-! ## Decoding -/

/-- `read_string`. -/
def readString : Decoder PayloadError CString := requiredText .truncated .malformedString .malformedString

/-- `read_fact` and the check behind it. -/
def readFact (extractedAtUnixUs : ℕ) (messageId : CString) : Decoder PayloadError FactRecord := do
  let predicate ← readString
  let source ← readString
  let confidencePpm ← unsigned 4 .truncated
  let count ← unsigned 4 .truncated
  let args ← times readString count
  match recordInit predicate args source confidencePpm extractedAtUnixUs with
  | .error error => throw (.malformedFact error)
  | .ok fact => if fact.args.head? ≠ some messageId then throw (.firstArgument messageId) else pure fact

def decodeFields : Decoder PayloadError FactsExtracted := do
  ensure (fun rest => headerSize ≤ rest.length) .header
  let found ← octets magicLength .header
  if found ≠ magic then throw .header
  else do
    let extractedAtUnixUs ← unsigned 8 .header
    let count ← unsigned 4 .header
    let accountId ← readString
    let messageId ← readString
    let facts ← times (readFact extractedAtUnixUs messageId) count
    pure { accountId, messageId, extractedAtUnixUs, facts }

/-- `wyrebox_facts_extracted_payload_decode`. -/
def decodePayload (data : List UInt8) : Except PayloadError FactsExtracted :=
  whole decodeFields .malformedLength .ok data

/-! ## What the decoder accepts -/

def factLayout (fact : FactRecord) : List UInt8 :=
  encodeText fact.predicate ++ (encodeText fact.source ++ (encode 4 fact.confidencePpm ++
    (encode 4 fact.args.length ++ encodeTexts fact.args)))

def layout (payload : FactsExtracted) : List UInt8 :=
  magic ++ (encode 8 payload.extractedAtUnixUs ++ (encode 4 payload.facts.length ++
    (encodeText payload.accountId ++ (encodeText payload.messageId ++ payload.facts.flatMap factLayout))))

/-- The checks of a new fact. -/
def Sound (fact : FactRecord) : Prop :=
  recordInit fact.predicate fact.args fact.source fact.confidencePpm fact.createdAtUnixUs = .ok fact

instance (fact : FactRecord) : Decidable (Sound fact) := inferInstanceAs (Decidable (_ = _))

/-- A fact of the message `messageId`, as it lies in a payload. -/
structure FactSpelled (extractedAtUnixUs : ℕ) (messageId : CString) (fact : FactRecord) : Prop where
  createdAtUnixUs : fact.createdAtUnixUs = extractedAtUnixUs
  firstArgument : fact.args.head? = some messageId
  predicate : Spellable fact.predicate
  source : Spellable fact.source
  args : ∀ arg ∈ fact.args, Spellable arg
  numbers : fact.confidencePpm < 2 ^ 32 ∧ fact.args.length < 2 ^ 32

/-- What the payload can spell. -/
structure Spelled (payload : FactsExtracted) : Prop where
  accountId : Spellable payload.accountId
  messageId : Spellable payload.messageId
  numbers : payload.extractedAtUnixUs < 2 ^ 64 ∧ payload.facts.length < 2 ^ 32
  facts : ∀ fact ∈ payload.facts, FactSpelled payload.extractedAtUnixUs payload.messageId fact

theorem recordInit_eq {predicate source : CString} {args : List CString} {confidencePpm createdAtUnixUs : ℕ}
    {fact : FactRecord} (h : recordInit predicate args source confidencePpm createdAtUnixUs = .ok fact) :
    fact = ⟨predicate, args, source, confidencePpm, createdAtUnixUs⟩ := by
  simp only [recordInit, bind_eq_ok, ite_error_eq_ok, Except.ok.injEq] at h
  obtain ⟨_, -, _, -, _, -, -, -, hfact⟩ := h
  exact hfact.symm

theorem codes_readString : Codes readString Spellable encodeText := codes_requiredText

theorem codes_readFact (extractedAtUnixUs : ℕ) (messageId : CString) : Codes (readFact extractedAtUnixUs messageId)
    (fun fact => FactSpelled extractedAtUnixUs messageId fact ∧ Sound fact) factLayout where
  spells := by
    intro bytes fact rest h
    simp only [readFact, bind_run] at h
    obtain ⟨predicate, _, hfound, source, _, horigin, confidencePpm, _, hconfidence, count, _, hcount, args, _,
      hargs, h⟩ := h
    obtain ⟨hpredicate, rfl⟩ := codes_readString.spells hfound
    obtain ⟨hsource, rfl⟩ := codes_readString.spells horigin
    obtain ⟨hconfidence, rfl⟩ := spells_unsigned _ _ hconfidence
    obtain ⟨hcount, rfl⟩ := spells_unsigned _ _ hcount
    obtain ⟨⟨rfl, hall⟩, rfl⟩ := spells_times codes_readString.spells _ hargs
    cases hinit : recordInit predicate args source confidencePpm extractedAtUnixUs with
    | error error =>
      rw [hinit] at h
      cases h
    | ok made =>
      simp only [hinit, guard_run, pure_run, not_not] at h
      obtain ⟨hfirst, rfl, rfl⟩ := h
      obtain rfl := recordInit_eq hinit
      refine ⟨⟨⟨rfl, hfirst, hpredicate, hsource, hall, ⟨by omega, by omega⟩⟩, hinit⟩, ?_⟩
      simp only [factLayout, encodeTexts, List.append_assoc]
  reads := by
    rintro ⟨predicate, args, source, confidencePpm, createdAtUnixUs⟩ ⟨hspelled, hsound⟩
    obtain ⟨rfl, hfirst, hpredicate, hsource, hargs, hconfidence, hcount⟩ := hspelled
    refine (codes_readString.reads hpredicate).bind ((codes_readString.reads hsource).bind ?_)
    refine (reads_unsigned _ (by omega)).bind ((reads_unsigned _ (by omega)).bind ?_)
    refine (reads_times fun arg hmem => codes_readString.reads (hargs arg hmem)).bind_last ?_
    simp only [Sound] at hsound
    simp only [hsound]
    rw [if_neg (not_not.mpr hfirst)]
    exact Reads.pure _

theorem codes_decodeFields : Codes decodeFields (fun payload => Spelled payload ∧ ∀ fact ∈ payload.facts, Sound fact)
    layout where
  spells := by
    intro bytes payload rest h
    simp only [decodeFields, bind_run, ensure_run, guard_run, pure_run] at h
    obtain ⟨_, _, ⟨-, rfl⟩, found, _, hfound, hmagic, time, _, htime, count, _, hcount, accountId, _, haccountId,
      messageId, _, hmessageId, facts, _, hfacts, rfl, rfl⟩ := h
    obtain ⟨-, rfl⟩ := spells_octets _ _ hfound
    obtain ⟨htime, rfl⟩ := spells_unsigned _ _ htime
    obtain ⟨hcount, rfl⟩ := spells_unsigned _ _ hcount
    obtain ⟨haccount, rfl⟩ := codes_readString.spells haccountId
    obtain ⟨hmessage, rfl⟩ := codes_readString.spells hmessageId
    obtain ⟨⟨rfl, hall⟩, rfl⟩ := spells_times (codes_readFact time messageId).spells _ hfacts
    rw [not_not] at hmagic
    refine ⟨⟨⟨haccount, hmessage, ⟨by omega, by omega⟩, fun fact hmem => (hall fact hmem).1⟩,
      fun fact hmem => (hall fact hmem).2⟩, ?_⟩
    simp only [layout, hmagic, id_eq, List.append_assoc]
  reads := by
    rintro payload ⟨hspelled, hsound⟩
    refine Reads.ensure ?_ ?_
    · refine (reads_octets _ (by decide)).bind ?_
      rw [if_neg (not_not.mpr rfl)]
      refine (reads_unsigned _ (by have := hspelled.numbers.1; omega)).bind ?_
      refine (reads_unsigned _ (by have := hspelled.numbers.2; omega)).bind ?_
      refine (codes_readString.reads hspelled.accountId).bind ((codes_readString.reads hspelled.messageId).bind ?_)
      exact (reads_times fun fact hmem =>
        (codes_readFact _ _).reads ⟨hspelled.facts fact hmem, hsound fact hmem⟩).bind_pure
    · intro tail
      have hmagic : magic.length = 8 := by decide
      rw [decide_eq_true_eq]
      simp only [layout, List.length_append, encode_length, hmagic, headerSize]
      omega

/-! ## What the encoder writes -/

def factFieldsOf (fact : FactRecord) : FactFields where
  predicate := some fact.predicate
  args := some fact.args
  source := some fact.source
  confidencePpm := fact.confidencePpm

def fieldsOf (payload : FactsExtracted) : Fields where
  accountId := some payload.accountId
  messageId := some payload.messageId
  extractedAtUnixUs := payload.extractedAtUnixUs
  facts := payload.facts.map factFieldsOf

/-- The numbers are in the range of their C types. -/
structure Fits (fields : Fields) : Prop where
  extractedAtUnixUs : fields.extractedAtUnixUs < 2 ^ 64
  confidencePpm : ∀ fact ∈ fields.facts, fact.confidencePpm < 2 ^ 32

theorem writeString_eq_ok {value : CString} {bytes : List UInt8} :
    writeString value = .ok bytes ↔ Spellable value ∧ bytes = encodeText value := by
  simp only [writeString, ite_error_eq_ok, not_or, List.isEmpty_iff, Except.ok.injEq, Spellable]
  constructor
  · rintro ⟨⟨hne, hlen⟩, rfl⟩
    exact ⟨⟨hne, by omega⟩, rfl⟩
  · rintro ⟨⟨hne, hlen⟩, rfl⟩
    exact ⟨⟨hne, by omega⟩, rfl⟩

theorem writeStrings_eq_ok {values : List CString} {bytes : List UInt8} :
    writeStrings values = .ok bytes ↔ (∀ value ∈ values, Spellable value) ∧ bytes = encodeTexts values := by
  induction values generalizing bytes with
  | nil =>
    simp only [writeStrings, Except.ok.injEq, List.not_mem_nil, false_imp_iff, implies_true, true_and]
    exact eq_comm
  | cons value values ih =>
    simp only [writeStrings, bind_eq_ok, writeString_eq_ok, ih, Except.ok.injEq, List.forall_mem_cons,
      MutationPayload.encodeTexts_cons]
    constructor
    · rintro ⟨_, ⟨hvalue, rfl⟩, _, ⟨hvalues, rfl⟩, rfl⟩
      exact ⟨⟨hvalue, hvalues⟩, rfl⟩
    · rintro ⟨⟨hvalue, hvalues⟩, rfl⟩
      exact ⟨_, ⟨hvalue, rfl⟩, _, ⟨hvalues, rfl⟩, rfl⟩

/-- The fact that a reader at the time `extractedAtUnixUs` makes of one. -/
theorem writeFact_eq_ok {messageId : CString} {fact : FactFields} {bytes : List UInt8} (time : ℕ) :
    writeFact messageId fact = .ok bytes ↔ ∃ record, factFieldsOf record = fact ∧ record.createdAtUnixUs = time ∧
      record.args.head? = some messageId ∧ Spellable record.predicate ∧ Spellable record.source ∧
      (∀ arg ∈ record.args, Spellable arg) ∧ bytes = factLayout record := by
  constructor
  · intro h
    simp only [writeFact, bind_eq_ok, writeString_eq_ok, writeStrings_eq_ok, Except.ok.injEq] at h
    obtain ⟨⟨predicate, source, args⟩, hvalid, _, ⟨hpredicate, rfl⟩, _, ⟨hsource, rfl⟩, _, ⟨hargs, rfl⟩, rfl⟩ := h
    obtain ⟨found, values, origin, confidencePpm⟩ := fact
    simp only [validateFact] at hvalid
    split at hvalid
    · split at hvalid
      · rename_i hfirst
        cases hvalid
        exact ⟨⟨predicate, args, source, confidencePpm, time⟩, rfl, rfl, hfirst, hpredicate, hsource, hargs, rfl⟩
      · cases hvalid
    · cases hvalid
  · rintro ⟨record, rfl, -, hfirst, hpredicate, hsource, hargs, rfl⟩
    simp only [writeFact, validateFact, factFieldsOf, hfirst, if_true, bind_eq_ok, writeString_eq_ok,
      writeStrings_eq_ok, Except.ok.injEq, exists_eq_left']
    exact ⟨_, ⟨hpredicate, rfl⟩, _, ⟨hsource, rfl⟩, _, ⟨hargs, rfl⟩, rfl⟩

theorem writeFacts_eq_ok {messageId : CString} {facts : List FactFields} {bytes : List UInt8} (time : ℕ) :
    writeFacts messageId facts = .ok bytes ↔ ∃ records : List FactRecord, records.map factFieldsOf = facts ∧
      (∀ record ∈ records, record.createdAtUnixUs = time ∧ record.args.head? = some messageId ∧
        Spellable record.predicate ∧ Spellable record.source ∧ ∀ arg ∈ record.args, Spellable arg) ∧
      bytes = records.flatMap factLayout := by
  induction facts generalizing bytes with
  | nil =>
    simp only [writeFacts, Except.ok.injEq, List.map_eq_nil_iff, exists_eq_left, List.not_mem_nil, false_imp_iff,
      implies_true, true_and]
    exact eq_comm
  | cons fact facts ih =>
    simp only [writeFacts, bind_eq_ok, writeFact_eq_ok time, ih, Except.ok.injEq]
    constructor
    · rintro ⟨_, ⟨record, rfl, htime, hfirst, hpredicate, hsource, hargs, rfl⟩, _, ⟨records, rfl, hall, rfl⟩, rfl⟩
      refine ⟨record :: records, rfl, ?_, rfl⟩
      exact List.forall_mem_cons.mpr ⟨⟨htime, hfirst, hpredicate, hsource, hargs⟩, hall⟩
    · rintro ⟨records, hmap, hall, rfl⟩
      obtain ⟨record, rest, rfl, rfl, rfl⟩ := List.map_eq_cons_iff.mp hmap
      obtain ⟨⟨htime, hfirst, hpredicate, hsource, hargs⟩, hrest⟩ := List.forall_mem_cons.mp hall
      exact ⟨_, ⟨record, rfl, htime, hfirst, hpredicate, hsource, hargs, rfl⟩, _, ⟨rest, rfl, hrest, rfl⟩, rfl⟩

theorem requiredId_eq_ok {id : Option CString} {s : CString} :
    requiredId id = .ok s ↔ id = some s ∧ s.bytes ≠ [] := by
  cases id with
  | none => simp [requiredId]
  | some t =>
    simp only [requiredId, ite_error_eq_ok, List.isEmpty_iff, Except.ok.injEq, Option.some.injEq]
    constructor
    · rintro ⟨hne, rfl⟩
      exact ⟨rfl, hne⟩
    · rintro ⟨rfl, hne⟩
      exact ⟨hne, rfl⟩

lemma length_le_encodeTexts (values : List CString) : values.length ≤ (encodeTexts values).length := by
  have h := MutationPayload.length_le_encodeTexts values
  omega

lemma length_le_flatMap_factLayout (facts : List FactRecord) : facts.length ≤ (facts.flatMap factLayout).length := by
  induction facts with
  | nil => exact le_refl 0
  | cons fact facts ih =>
    rw [List.length_cons, List.flatMap_cons, List.length_append, factLayout, List.length_append, encodeText_length]
    omega

lemma factLayout_length_le {fact : FactRecord} {facts : List FactRecord} (h : fact ∈ facts) :
    (factLayout fact).length ≤ (facts.flatMap factLayout).length := by
  obtain ⟨before, after, rfl⟩ := List.append_of_mem h
  rw [List.flatMap_append, List.flatMap_cons, List.length_append, List.length_append]
  omega

/-- The encoder spells a payload whose facts the decoder need not take. -/
theorem encodePayload_eq_ok {fields : Fields} {bytes : GBytes} (hfits : Fits fields) :
    encodePayload fields = .ok bytes ↔ ∃ payload, fieldsOf payload = fields ∧ Spelled payload ∧
      bytes.data = layout payload ∧ (layout payload).length < 2 ^ 32 := by
  obtain ⟨account, message, time, facts⟩ := fields
  simp only [encodePayload, bind_eq_ok, requiredId_eq_ok, writeString_eq_ok, writeFacts_eq_ok time]
  constructor
  · rintro ⟨accountId, ⟨rfl, -⟩, messageId, ⟨rfl, -⟩, _, ⟨haccount, rfl⟩, _, ⟨hmessage, rfl⟩, _,
      ⟨records, rfl, hall, rfl⟩, hdata⟩
    split at hdata
    · rename_i hmemory
      cases hdata
      rw [List.length_map] at hmemory ⊢
      have hlayout : (layout ⟨accountId, messageId, time, records⟩).length ≤ 2 ^ 32 - 1 := hmemory
      have hpart : (records.flatMap factLayout).length ≤ 2 ^ 32 - 1 := by
        simp only [layout, List.length_append] at hlayout
        omega
      refine ⟨⟨accountId, messageId, time, records⟩, rfl, ⟨haccount, hmessage, ⟨hfits.extractedAtUnixUs, ?_⟩, ?_⟩,
        rfl, by omega⟩
      · have hcount := length_le_flatMap_factLayout records
        simp only
        omega
      · intro record hmem
        obtain ⟨htime, hfirst, hpredicate, hsource, hargs⟩ := hall record hmem
        refine ⟨htime, hfirst, hpredicate, hsource, hargs, hfits.confidencePpm _ (List.mem_map_of_mem hmem), ?_⟩
        have hargsLength := length_le_encodeTexts record.args
        have hle := factLayout_length_le hmem
        simp only [factLayout, List.length_append] at hle
        omega
    · cases hdata
  · rintro ⟨payload, hfields, hspelled, hdata, hlength⟩
    cases hfields
    refine ⟨_, ⟨rfl, hspelled.accountId.1⟩, _, ⟨rfl, hspelled.messageId.1⟩, _, ⟨hspelled.accountId, rfl⟩, _,
      ⟨hspelled.messageId, rfl⟩, _, ⟨payload.facts, rfl, ?_, rfl⟩, ?_⟩
    · intro record hmem
      have hrecord := hspelled.facts record hmem
      exact ⟨hrecord.createdAtUnixUs, hrecord.firstArgument, hrecord.predicate, hrecord.source, hrecord.args⟩
    · rw [List.length_map]
      have hmemory : (layout payload).length ≤ 2 ^ 32 - 1 := by omega
      rw [dif_pos (by exact hmemory)]
      obtain ⟨data, hsize⟩ := bytes
      cases hdata
      rfl

/-! ## Both together -/

section
variable {α ε : Type} {P : α → Prop} {spell : α → List UInt8}

/-- No spelling is the beginning of another. -/
def PrefixFree (P : α → Prop) (spell : α → List UInt8) : Prop :=
  ∀ {value value' rest rest'}, P value → P value' → spell value ++ rest = spell value' ++ rest' →
    value = value' ∧ rest = rest'

theorem prefixFree_of_codes {d : Decoder ε α} (h : Codes d P spell) : PrefixFree P spell := by
  intro value value' rest rest' hvalue hvalue' hsame
  have hread := h.reads hvalue rest
  rw [hsame, h.reads hvalue' rest', Except.ok.injEq, Prod.mk.injEq] at hread
  exact ⟨hread.1.symm, hread.2.symm⟩

theorem prefixFree_encode (width : ℕ) : PrefixFree (· < 256 ^ width) (encode width) := by
  intro value value' rest rest' hvalue hvalue' hsame
  obtain ⟨hspelling, hrest⟩ := List.append_inj hsame (by simp)
  exact ⟨encode_inj hvalue hvalue' hspelling, hrest⟩

theorem PrefixFree.flatMap (h : PrefixFree P spell) (n : ℕ) :
    PrefixFree (fun values : List α => values.length = n ∧ ∀ value ∈ values, P value) (·.flatMap spell) := by
  intro values values' rest rest' hvalues hvalues' hsame
  induction n generalizing values values' with
  | zero =>
    obtain rfl := List.length_eq_zero_iff.mp hvalues.1
    obtain rfl := List.length_eq_zero_iff.mp hvalues'.1
    exact ⟨rfl, hsame⟩
  | succ n ih =>
    obtain ⟨value, values, rfl⟩ := List.exists_cons_of_length_eq_add_one hvalues.1
    obtain ⟨value', values', rfl⟩ := List.exists_cons_of_length_eq_add_one hvalues'.1
    simp only [List.length_cons, Nat.add_right_cancel_iff, List.forall_mem_cons] at hvalues hvalues'
    simp only [List.flatMap_cons, List.append_assoc] at hsame
    obtain ⟨rfl, hmore⟩ := h hvalues.2.1 hvalues'.2.1 hsame
    obtain ⟨rfl, hrest⟩ := ih ⟨hvalues.1, hvalues.2.2⟩ ⟨hvalues'.1, hvalues'.2.2⟩ hmore
    exact ⟨rfl, hrest⟩

end

theorem prefixFree_factLayout (extractedAtUnixUs : ℕ) (messageId : CString) :
    PrefixFree (FactSpelled extractedAtUnixUs messageId) factLayout := by
  have hstring : PrefixFree Spellable encodeText := prefixFree_of_codes codes_readString
  rintro ⟨predicate, args, source, confidencePpm, time⟩ ⟨predicate', args', source', confidencePpm', time'⟩ rest rest' h h'
    hsame
  simp only [factLayout, List.append_assoc] at hsame
  obtain ⟨hpredicate, hsame⟩ := hstring h.predicate h'.predicate hsame
  obtain ⟨hsource, hsame⟩ := hstring h.source h'.source hsame
  obtain ⟨hconfidence, hsame⟩ := prefixFree_encode 4 h.numbers.1 h'.numbers.1 hsame
  obtain ⟨hcount, hsame⟩ := prefixFree_encode 4 h.numbers.2 h'.numbers.2 hsame
  obtain ⟨hargs, hrest⟩ := hstring.flatMap _ ⟨rfl, h.args⟩ ⟨hcount.symm, h'.args⟩ hsame
  have htime := h.createdAtUnixUs.trans h'.createdAtUnixUs.symm
  simp only at hpredicate hsource hconfidence hargs htime
  rw [hpredicate, hsource, hconfidence, hargs, htime]
  exact ⟨rfl, hrest⟩

theorem layout_injective {payload payload' : FactsExtracted} (h : Spelled payload) (h' : Spelled payload')
    (hsame : layout payload = layout payload') : payload = payload' := by
  have hstring : PrefixFree Spellable encodeText := prefixFree_of_codes codes_readString
  obtain ⟨accountId, messageId, time, facts⟩ := payload
  obtain ⟨accountId', messageId', time', facts'⟩ := payload'
  obtain ⟨htime, hsame⟩ := prefixFree_encode 8 h.numbers.1 h'.numbers.1 (List.append_cancel_left hsame)
  obtain ⟨hcount, hsame⟩ := prefixFree_encode 4 h.numbers.2 h'.numbers.2 hsame
  obtain ⟨haccount, hsame⟩ := hstring h.accountId h'.accountId hsame
  obtain ⟨hmessage, hsame⟩ := hstring h.messageId h'.messageId hsame
  simp only at htime hcount haccount hmessage
  subst htime haccount hmessage
  rw [← List.append_nil (facts.flatMap factLayout), ← List.append_nil (facts'.flatMap factLayout)] at hsame
  have hfact : PrefixFree (FactSpelled time messageId) factLayout := prefixFree_factLayout time messageId
  obtain ⟨hfacts, -⟩ := hfact.flatMap _ ⟨rfl, h.facts⟩ ⟨hcount.symm, h'.facts⟩ hsame
  exact congrArg (FactsExtracted.mk accountId messageId time) hfacts

/-- The facts of a payload are told apart by what the encoder reads of them. -/
theorem map_factFieldsOf_injective {time : ℕ} {records records' : List FactRecord}
    (h : ∀ record ∈ records, record.createdAtUnixUs = time) (h' : ∀ record ∈ records', record.createdAtUnixUs = time)
    (hsame : records.map factFieldsOf = records'.map factFieldsOf) : records = records' := by
  induction records generalizing records' with
  | nil => exact (List.map_eq_nil_iff.mp hsame.symm).symm
  | cons record records ih =>
    obtain ⟨record', rest, rfl, hrecord, hrest⟩ := List.map_eq_cons_iff.mp hsame.symm
    rw [List.forall_mem_cons] at h h'
    rw [ih h.2 h'.2 hrest.symm]
    obtain ⟨predicate, args, source, confidencePpm, created⟩ := record
    obtain ⟨predicate', args', source', confidencePpm', created'⟩ := record'
    simp only [factFieldsOf, FactFields.mk.injEq, Option.some.injEq] at hrecord
    obtain ⟨rfl, rfl, rfl, rfl⟩ := hrecord
    rw [show created = created' from h.1.trans h'.1.symm]

theorem fieldsOf_injective {payload payload' : FactsExtracted} (h : Spelled payload) (h' : Spelled payload')
    (hsame : fieldsOf payload = fieldsOf payload') : payload = payload' := by
  obtain ⟨accountId, messageId, time, facts⟩ := payload
  obtain ⟨accountId', messageId', time', facts'⟩ := payload'
  simp only [fieldsOf, Fields.mk.injEq, Option.some.injEq] at hsame
  obtain ⟨rfl, rfl, rfl, hfacts⟩ := hsame
  have hrecords : facts = facts' := map_factFieldsOf_injective (fun r hr => (h.facts r hr).createdAtUnixUs)
    (fun r hr => (h'.facts r hr).createdAtUnixUs) hfacts
  rw [hrecords]

theorem decodePayload_eq_ok {data : List UInt8} {payload : FactsExtracted} :
    decodePayload data = .ok payload ↔
      Spelled payload ∧ (∀ fact ∈ payload.facts, Sound fact) ∧ data = layout payload := by
  rw [decodePayload, whole_eq_ok codes_decodeFields]
  constructor
  · rintro ⟨value, ⟨hspelled, hsound⟩, hvalue, rfl⟩
    cases hvalue
    exact ⟨hspelled, hsound, rfl⟩
  · rintro ⟨hspelled, hsound, rfl⟩
    exact ⟨payload, ⟨hspelled, hsound⟩, rfl, rfl⟩

lemma fits_fieldsOf {payload : FactsExtracted} (h : Spelled payload) : Fits (fieldsOf payload) := by
  refine ⟨h.numbers.1, fun fact hmem => ?_⟩
  obtain ⟨record, hrecord, rfl⟩ := List.mem_map.mp hmem
  exact (h.facts record hrecord).numbers.1

/-- An encoded payload comes back, with the time of the extraction in every fact, exactly when its facts pass
    the checks of a new fact, and then as it was. Whatever comes back is spelled in one way, and encodes to its
    own bytes as long as they can be counted in 32 bits. -/
theorem extraction_exact :
    (∀ {fields bytes}, Fits fields → encodePayload fields = .ok bytes →
      ∃ payload, fieldsOf payload = fields ∧
        (∀ fact ∈ payload.facts, fact.createdAtUnixUs = payload.extractedAtUnixUs) ∧
        ∀ payload', decodePayload bytes.data = .ok payload' ↔ payload' = payload ∧ ∀ fact ∈ payload.facts, Sound fact) ∧
    (∀ {bytes : GBytes} {payload}, decodePayload bytes.data = .ok payload → bytes.data.length < 2 ^ 32 →
      encodePayload (fieldsOf payload) = .ok bytes) ∧
    (∀ {data payload}, decodePayload data = .ok payload → 2 ^ 32 ≤ data.length →
      ∃ error, encodePayload (fieldsOf payload) = .error error) ∧
    (∀ {data payload}, decodePayload data = .ok payload → data = layout payload ∧
      (∀ fact ∈ payload.facts, Sound fact ∧ fact.args.head? = some payload.messageId) ∧
      (∀ tail, tail ≠ [] → decodePayload (data ++ tail) = .error .malformedLength) ∧
      ∀ n, n < data.length → ∃ error, decodePayload (data.take n) = .error error) := by
  refine ⟨?_, ?_, ?_, ?_⟩
  · intro fields bytes hfields h
    obtain ⟨payload, rfl, hspelled, hdata, -⟩ := (encodePayload_eq_ok hfields).mp h
    refine ⟨payload, rfl, fun fact hmem => (hspelled.facts fact hmem).createdAtUnixUs, fun payload' => ?_⟩
    rw [decodePayload_eq_ok]
    constructor
    · rintro ⟨hspelled', hsound, hdata'⟩
      obtain rfl := layout_injective hspelled' hspelled (hdata'.symm.trans hdata)
      exact ⟨rfl, hsound⟩
    · rintro ⟨rfl, hsound⟩
      exact ⟨hspelled, hsound, hdata⟩
  · intro bytes payload h hlength
    obtain ⟨hspelled, -, hdata⟩ := decodePayload_eq_ok.mp h
    exact (encodePayload_eq_ok (fits_fieldsOf hspelled)).mpr ⟨payload, rfl, hspelled, hdata, hdata ▸ hlength⟩
  · intro data payload h hlength
    obtain ⟨hspelled, -, rfl⟩ := decodePayload_eq_ok.mp h
    cases hresult : encodePayload (fieldsOf payload) with
    | error error => exact ⟨error, rfl⟩
    | ok bytes =>
      obtain ⟨payload', hsame, hspelled', -, hlt⟩ := (encodePayload_eq_ok (fits_fieldsOf hspelled)).mp hresult
      rw [fieldsOf_injective hspelled' hspelled hsame] at hlt
      omega
  · intro data payload h
    obtain ⟨hspelled, hsound, hdata⟩ := decodePayload_eq_ok.mp h
    exact ⟨hdata, fun fact hmem => ⟨hsound fact hmem, (hspelled.facts fact hmem).firstArgument⟩,
      fun tail hne => whole_append codes_decodeFields h hne, fun n hn => whole_take codes_decodeFields h hn⟩

end Wyrebox.FactsExtractedPayload
