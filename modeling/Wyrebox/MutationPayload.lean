import Wyrebox.MessageAppendedPayload

set_option autoImplicit false

/-!
# What the mutation payloads share

FlagChanged, MembershipsExpunged and MembershipsCopied check and spell their strings alike.
-/
namespace Wyrebox.MutationPayload
open LittleEndian Codec JournalRecord PayloadText Fallible
open MessageAppendedPayload (isSystemFlag isUserKeyword systemFlagNames)

/-- A `G_IO_ERROR_INVALID_ARGUMENT` of an encoder or a `G_IO_ERROR_INVALID_DATA` of a decoder. -/
inductive PayloadError where
  | required (field : String)
  | invalidName (field : String)
  | duplicateName (field : String)
  | rule (text : String)
  | invalidMagic
  | allocation
  deriving DecidableEq

def PayloadError.message (payload : String) : PayloadError → String
  | .required field => payload ++ " payload " ++ field ++ " is required"
  | .invalidName field => payload ++ " payload " ++ field ++ " contains an invalid value"
  | .duplicateName field => payload ++ " payload " ++ field ++ " contains duplicate values"
  | .rule text => payload ++ " payload " ++ text
  | .invalidMagic => "invalid " ++ payload ++ " payload magic"
  | .allocation => "failed to allocate"

def truncated : PayloadError := .rule "is truncated"
def embeddedNul : PayloadError := .rule "string contains embedded NUL"
def malformedLength : PayloadError := .rule "length is malformed"
def stringTooLarge : PayloadError := .rule "string is too large"

/-! ## Validation -/

def validateRequiredString (field : String) : Option CString → Except PayloadError CString
  | none => .error (.required field)
  | some value => if value.bytes.isEmpty then .error (.required field) else .ok value

/-- The loop of `validate_names`, with the names already passed. -/
def validateNames (field : String) (isValid : CString → Bool) : List CString → List CString → Except PayloadError Unit
  | _, [] => .ok ()
  | passed, value :: values =>
    if !isValid value then .error (.invalidName field)
    else if value ∈ passed then .error (.duplicateName field)
    else validateNames field isValid (passed ++ [value]) values

theorem validateRequiredString_eq_ok {field : String} {value : Option CString} {s : CString}
    (h : validateRequiredString field value = .ok s) : value = some s := by
  cases value with
  | none => cases h
  | some t =>
    simp only [validateRequiredString, ite_error_eq_ok, Except.ok.injEq] at h
    rw [h.2]

theorem validateNames_eq_ok {field : String} {isValid : CString → Bool} {passed values : List CString}
    (hpassed : passed.Nodup) (h : validateNames field isValid passed values = .ok ()) :
    values.Nodup ∧ ∀ value ∈ values, isValid value = true := by
  suffices hall : (passed ++ values).Nodup ∧ ∀ value ∈ values, isValid value = true from
    ⟨(List.nodup_append.mp hall.1).2.1, hall.2⟩
  induction values generalizing passed with
  | nil => exact ⟨by rwa [List.append_nil], fun _ hmem => absurd hmem List.not_mem_nil⟩
  | cons value values ih =>
    simp only [validateNames, ite_error_eq_ok, Bool.not_eq_true', Bool.not_eq_false] at h
    obtain ⟨hvalid, hfresh, hrest⟩ := h
    have hnext : (passed ++ [value]).Nodup :=
      hpassed.append (List.nodup_singleton value) (List.disjoint_singleton.mpr hfresh)
    obtain ⟨hnodup, hall⟩ := ih hnext hrest
    rw [List.append_assoc] at hnodup
    rw [List.forall_mem_cons]
    exact ⟨hnodup, hvalid, hall⟩

/-- There are five system flags, and none is given twice. -/
theorem systemFlags_length_le {field : String} {values : List CString}
    (h : validateNames field isSystemFlag [] values = .ok ()) : values.length ≤ 5 := by
  obtain ⟨hnodup, hall⟩ := validateNames_eq_ok List.nodup_nil h
  have hsub : values ⊆ systemFlagNames := fun value hmem => of_decide_eq_true (hall value hmem)
  exact (List.subperm_of_subset hnodup hsub).length_le

/-! ## Strings -/

/-- `checked_add_string`. -/
def checkedAddString (total : ℕ) (value : CString) : Except PayloadError ℕ :=
  if 2 ^ 32 - 1 < value.bytes.length ∨ maxSize - total < value.bytes.length + 4 then .error stringTooLarge
  else .ok (total + (4 + value.bytes.length))

def checkedAddStrings (total : ℕ) : List CString → Except PayloadError ℕ
  | [] => .ok total
  | value :: values => do
    let total ← checkedAddString total value
    checkedAddStrings total values

/-- The check of `append_string`. -/
def checkStrings : List CString → Except PayloadError Unit
  | [] => .ok ()
  | value :: values => if 2 ^ 32 - 1 < value.bytes.length then .error stringTooLarge else checkStrings values

def string : Decoder PayloadError CString := text truncated embeddedNul

/-- `read_strv` once the count is known. Every encoded string takes at least its length prefix. -/
def stringList (count : ℕ) : Decoder PayloadError (List CString) := do
  ensure (fun rest => count ≤ rest.length / 4) truncated
  times string count

def encodeTexts (values : List CString) : List UInt8 := values.flatMap encodeText

theorem encodeText_length (s : CString) : (encodeText s).length = 4 + s.bytes.length := by
  rw [encodeText, List.length_append, encode_length]

theorem encodeTexts_cons (value : CString) (values : List CString) :
    encodeTexts (value :: values) = encodeText value ++ encodeTexts values := List.flatMap_cons

theorem length_le_encodeTexts (values : List CString) : 4 * values.length ≤ (encodeTexts values).length := by
  induction values with
  | nil => simp
  | cons value values ih =>
    rw [encodeTexts_cons, List.length_append, encodeText_length, List.length_cons]
    omega

theorem checkedAddStrings_eq_ok {total total' : ℕ} {values : List CString} (htotal : total ≤ maxSize) :
    checkedAddStrings total values = .ok total' ↔
      (∀ s ∈ values, s.bytes.length < 2 ^ 32) ∧ total' = total + (encodeTexts values).length ∧ total' ≤ maxSize := by
  induction values generalizing total with
  | nil =>
    simp only [checkedAddStrings, Except.ok.injEq, encodeTexts, List.flatMap_nil, List.length_nil, Nat.add_zero,
      List.not_mem_nil, false_imp_iff, implies_true, true_and]
    omega
  | cons value values ih =>
    simp only [checkedAddStrings, checkedAddString, bind_eq_ok, ite_error_eq_ok, Except.ok.injEq, not_or, not_lt]
    rw [encodeTexts_cons, List.length_append, encodeText_length, List.forall_mem_cons]
    constructor
    · rintro ⟨next, ⟨⟨hlen, hfits⟩, rfl⟩, hrest⟩
      obtain ⟨hall, heq, hle⟩ := (ih (by omega)).mp hrest
      exact ⟨⟨by omega, hall⟩, by omega, hle⟩
    · rintro ⟨⟨hlen, hall⟩, heq, hle⟩
      refine ⟨_, ⟨⟨by omega, by omega⟩, rfl⟩, (ih (by omega)).mpr ⟨hall, by omega, hle⟩⟩

theorem checkStrings_eq_ok {values : List CString} :
    checkStrings values = .ok () ↔ ∀ s ∈ values, s.bytes.length < 2 ^ 32 := by
  induction values with
  | nil => simp [checkStrings]
  | cons value values ih =>
    rw [checkStrings, ite_error_eq_ok, ih, List.forall_mem_cons, not_lt]
    exact and_congr_left' (by omega)

theorem codes_string : Codes string (·.bytes.length < 2 ^ 32) encodeText := ⟨spells_text, reads_text⟩

theorem codes_stringList (count : ℕ) : Codes (stringList count)
    (fun values => values.length = count ∧ ∀ s ∈ values, s.bytes.length < 2 ^ 32) encodeTexts where
  spells := by
    intro bytes values rest h
    simp only [stringList, bind_run, ensure_run] at h
    obtain ⟨_, _, ⟨-, rfl⟩, htimes⟩ := h
    exact spells_times codes_string.spells count htimes
  reads := by
    rintro values ⟨rfl, hall⟩
    refine Reads.ensure (reads_times fun s hs => codes_string.reads (hall s hs)) ?_
    intro tail
    have hlen := length_le_encodeTexts values
    rw [decide_eq_true_eq, List.length_append]
    omega

/-! ## What it takes for a codec to be exact -/

/-- Encoding and decoding undo each other; `layout` gives every string with its own length, and byte
    strings that are cut short or go on are refused. From `limit` bytes on the encoder gives up. -/
structure Exact {ε δ α β : Type} (Fits : α → Prop) (layout : α → List UInt8) (encode : α → Except ε GBytes)
    (decode : List UInt8 → Except δ β) (fieldsOf : β → α) (limit : ℕ) : Prop where
  decode_encode : ∀ {fields bytes}, Fits fields → encode fields = .ok bytes →
    ∃ payload, decode bytes.data = .ok payload ∧ fieldsOf payload = fields
  encode_decode : ∀ {bytes payload}, decode bytes.data = .ok payload → bytes.data.length < limit →
    encode (fieldsOf payload) = .ok bytes
  encode_refused : ∀ {data payload}, decode data = .ok payload → limit ≤ data.length →
    ∃ error, encode (fieldsOf payload) = .error error
  spelled : ∀ {data payload}, decode data = .ok payload → data = layout (fieldsOf payload)
  trailing : ∀ {data payload tail}, decode data = .ok payload → tail ≠ [] →
    ∃ error, decode (data ++ tail) = .error error
  truncated : ∀ {data payload n}, decode data = .ok payload → n < data.length →
    ∃ error, decode (data.take n) = .error error

/-- A codec whose decoder and encoder make the same checks. -/
theorem Exact.of_codes {ε δ α β : Type} {Fits P : α → Prop} {layout : α → List UInt8} {encode : α → Except ε GBytes}
    {d : Decoder δ α} {trailing : δ} {check : α → Except δ β} {fieldsOf : β → α} {limit : ℕ}
    (hcodes : Codes d P layout) (hcheck : ∀ {fields payload}, check fields = .ok payload → fieldsOf payload = fields)
    (hencode : ∀ {fields bytes}, Fits fields → (encode fields = .ok bytes ↔
      P fields ∧ (∃ payload, check fields = .ok payload) ∧ bytes.data = layout fields ∧ (layout fields).length < limit))
    (hfits : ∀ {fields}, P fields → Fits fields) :
    Exact Fits layout encode (whole d trailing check) fieldsOf limit where
  decode_encode := by
    intro fields bytes hfields h
    obtain ⟨hreadable, ⟨payload, hpayload⟩, hdata, -⟩ := (hencode hfields).mp h
    exact ⟨payload, (whole_eq_ok hcodes).mpr ⟨fields, hreadable, hpayload, hdata⟩, hcheck hpayload⟩
  encode_decode := by
    intro bytes payload h hlen
    obtain ⟨fields, hreadable, hpayload, hdata⟩ := (whole_eq_ok hcodes).mp h
    rw [hcheck hpayload]
    exact (hencode (hfits hreadable)).mpr ⟨hreadable, ⟨payload, hpayload⟩, hdata, hdata ▸ hlen⟩
  encode_refused := by
    intro data payload h hlen
    obtain ⟨fields, hreadable, hpayload, rfl⟩ := (whole_eq_ok hcodes).mp h
    rw [hcheck hpayload]
    cases hresult : encode fields with
    | error error => exact ⟨error, rfl⟩
    | ok bytes =>
      obtain ⟨-, -, -, hlt⟩ := (hencode (hfits hreadable)).mp hresult
      omega
  spelled := by
    intro data payload h
    obtain ⟨fields, -, hpayload, rfl⟩ := (whole_eq_ok hcodes).mp h
    rw [hcheck hpayload]
  trailing := fun h hne => ⟨_, whole_append hcodes h hne⟩
  truncated := fun h hn => whole_take hcodes h hn

end Wyrebox.MutationPayload
