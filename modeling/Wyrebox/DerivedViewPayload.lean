import Wyrebox.MutationPayload

set_option autoImplicit false

/-!
# The DerivedViewMembershipChanged payload

A message enters or leaves a derived view.
-/
namespace Wyrebox.DerivedViewPayload
open LittleEndian Codec JournalRecord PayloadText Event Fallible MutationPayload

def magic : List UInt8 := ascii "WYREDVC1"
def magicLength : ℕ := 8
def headerSize : ℕ := 33

/-- `WyreboxDerivedViewMembershipChangedPayload`, before anything is known of it. -/
structure Fields where
  accountId : Option CString
  viewId : Option CString
  messageId : Option CString
  membershipId : Option CString
  ruleVersionHash : Option CString
  uid : ℕ
  uidvalidity : ℕ
  isVisible : Bool
  materializedAtUnixUs : ℕ
  deriving DecidableEq

/-- `validate_payload`. -/
def validatePayload (fields : Fields) : Except PayloadError DerivedViewMembershipChanged := do
  let accountId ← validateRequiredString "account_id" fields.accountId
  let viewId ← validateRequiredString "view_id" fields.viewId
  let messageId ← validateRequiredString "message_id" fields.messageId
  let membershipId ← validateRequiredString "membership_id" fields.membershipId
  let ruleVersionHash ← validateRequiredString "rule_version_hash" fields.ruleVersionHash
  if fields.uid = 0 then .error (.required "uid")
  else if fields.uidvalidity = 0 then .error (.required "uidvalidity")
  else if fields.materializedAtUnixUs = 0 then .error (.required "materialization timestamp")
  else
    .ok
      { accountId, viewId, messageId, membershipId, ruleVersionHash
        uid := fields.uid
        uidvalidity := fields.uidvalidity
        isVisible := fields.isVisible
        materializedAtUnixUs := fields.materializedAtUnixUs }

def fieldsOf (payload : DerivedViewMembershipChanged) : Fields where
  accountId := some payload.accountId
  viewId := some payload.viewId
  messageId := some payload.messageId
  membershipId := some payload.membershipId
  ruleVersionHash := some payload.ruleVersionHash
  uid := payload.uid
  uidvalidity := payload.uidvalidity
  isVisible := payload.isVisible
  materializedAtUnixUs := payload.materializedAtUnixUs

/-! ## Encoding -/

/-- `checked_add_size`. -/
def checkedAddSize (total value : ℕ) : Except PayloadError ℕ :=
  if maxSize - total < value then .error (.rule "length overflows memory") else .ok (total + value)

/-- `checked_add_string`. -/
def checkedAddString (total : ℕ) (field : String) (value : Option CString) : Except PayloadError ℕ := do
  let value ← validateRequiredString field value
  if 2 ^ 32 - 1 < value.bytes.length then .error stringTooLarge
  else do
    let total ← checkedAddSize total 4
    checkedAddSize total value.bytes.length

/-- No `NULL` gets here. -/
def ids (fields : Fields) : List CString :=
  [fields.accountId.getD .empty, fields.viewId.getD .empty, fields.messageId.getD .empty,
    fields.membershipId.getD .empty, fields.ruleVersionHash.getD .empty]

def visibility (fields : Fields) : ℕ := if fields.isVisible then 1 else 0

def layout (fields : Fields) : List UInt8 :=
  magic ++ (encode 8 fields.uid ++ (encode 8 fields.uidvalidity ++ (encode 1 (visibility fields) ++
    (encode 8 fields.materializedAtUnixUs ++ encodeTexts (ids fields)))))

/-- `wyrebox_derived_view_membership_changed_payload_encode`. No allocation is larger than `PTRDIFF_MAX`. -/
def encodePayload (fields : Fields) : Except PayloadError GBytes := do
  let _ ← validatePayload fields
  let total ← checkedAddString headerSize "account_id" fields.accountId
  let total ← checkedAddString total "view_id" fields.viewId
  let total ← checkedAddString total "message_id" fields.messageId
  let total ← checkedAddString total "membership_id" fields.membershipId
  let _ ← checkedAddString total "rule_version_hash" fields.ruleVersionHash
  if h : (layout fields).length ≤ 2 ^ 63 - 1 then .ok ⟨layout fields, h⟩ else .error .allocation

/-! ## Decoding -/

/-- A string that must not be empty. -/
def requiredText {ε : Type} (truncated isEmpty embeddedNul : ε) : Decoder ε CString := do
  let length ← unsigned 4 truncated
  let bytes ← octets length truncated
  if length = 0 then throw isEmpty
  else if h : (0 : UInt8) ∈ bytes then throw embeddedNul
  else pure ⟨bytes, h⟩

/-- `read_string`. -/
def string : Decoder PayloadError CString := requiredText truncated (.rule "string is empty") embeddedNul

def decodeFields : Decoder PayloadError Fields := do
  let found ← octets magicLength truncated
  if found ≠ magic then throw .invalidMagic
  else do
    ensure (fun rest => headerSize - magicLength ≤ rest.length) truncated
    let uid ← unsigned 8 truncated
    let uidvalidity ← unsigned 8 truncated
    let visibility ← unsigned 1 truncated
    if 1 < visibility then throw (.rule "visibility is malformed")
    else do
      let materializedAtUnixUs ← unsigned 8 truncated
      let accountId ← string
      let viewId ← string
      let messageId ← string
      let membershipId ← string
      let ruleVersionHash ← string
      pure
        { accountId := some accountId, viewId := some viewId, messageId := some messageId
          membershipId := some membershipId, ruleVersionHash := some ruleVersionHash
          uid, uidvalidity, isVisible := visibility == 1, materializedAtUnixUs }

/-- `wyrebox_derived_view_membership_changed_payload_decode`. -/
def decodePayload (data : List UInt8) : Except PayloadError DerivedViewMembershipChanged :=
  whole decodeFields malformedLength validatePayload data

/-! ## Exactness -/

/-- The numbers are in the range of their C types. -/
structure Fits (fields : Fields) : Prop where
  uids : fields.uid < 2 ^ 64 ∧ fields.uidvalidity < 2 ^ 64
  materializedAtUnixUs : fields.materializedAtUnixUs < 2 ^ 64

/-- A string that `requiredText` takes. -/
def Spellable (s : CString) : Prop := s.bytes ≠ [] ∧ s.bytes.length < 2 ^ 32

/-- What the payload can spell. -/
structure Readable (fields : Fields) : Prop where
  fits : Fits fields
  present : fields.accountId.isSome = true ∧ fields.viewId.isSome = true ∧ fields.messageId.isSome = true ∧
    fields.membershipId.isSome = true ∧ fields.ruleVersionHash.isSome = true
  strings : ∀ s ∈ ids fields, Spellable s

theorem codes_requiredText {ε : Type} {truncated isEmpty embeddedNul : ε} :
    Codes (requiredText truncated isEmpty embeddedNul) Spellable encodeText where
  spells := by
    intro bytes value rest h
    simp only [requiredText, bind_run, guard_run] at h
    obtain ⟨length, _, hlength, found, _, hfound, hpositive, h⟩ := h
    obtain ⟨hlt, rfl⟩ := spells_unsigned _ _ hlength
    obtain ⟨rfl, rfl⟩ := spells_octets _ _ hfound
    split at h
    · cases h
    · obtain ⟨rfl, rfl⟩ := pure_run.mp h
      refine ⟨⟨fun hempty => hpositive ?_, by simp only; omega⟩, ?_⟩
      · simp only at hempty
        rw [hempty]
        rfl
      · rw [encodeText, List.append_assoc]
        rfl
  reads := by
    rintro s ⟨hne, hlt⟩
    refine (reads_unsigned truncated (by omega)).bind ?_
    refine (reads_octets truncated rfl).bind_last ?_
    rw [if_neg (by rwa [List.length_eq_zero_iff]), dif_neg s.no_nul]
    exact Reads.pure s

theorem codes_string : Codes string Spellable encodeText := codes_requiredText

lemma visibility_lt (fields : Fields) : visibility fields < 2 := by
  rw [visibility]
  split <;> omega

theorem codes_decodeFields : Codes decodeFields Readable layout where
  spells := by
    intro bytes fields rest h
    simp only [decodeFields, bind_run, ensure_run, guard_run, pure_run] at h
    obtain ⟨found, _, hfound, hmagic, _, _, ⟨-, rfl⟩, uid, _, huid, uidvalidity, _, huidvalidity, shown, _, hshown, hbyte,
      time, _, htime, accountId, _, haccountId, viewId, _, hviewId, messageId, _, hmessageId, membershipId, _,
      hmembershipId, ruleVersionHash, _, hruleVersionHash, rfl, rfl⟩ := h
    obtain ⟨-, rfl⟩ := spells_octets _ _ hfound
    obtain ⟨huid, rfl⟩ := spells_unsigned _ _ huid
    obtain ⟨huidvalidity, rfl⟩ := spells_unsigned _ _ huidvalidity
    obtain ⟨-, rfl⟩ := spells_unsigned _ _ hshown
    obtain ⟨htime, rfl⟩ := spells_unsigned _ _ htime
    obtain ⟨haccount, rfl⟩ := codes_string.spells haccountId
    obtain ⟨hview, rfl⟩ := codes_string.spells hviewId
    obtain ⟨hmessage, rfl⟩ := codes_string.spells hmessageId
    obtain ⟨hmembership, rfl⟩ := codes_string.spells hmembershipId
    obtain ⟨hrule, rfl⟩ := codes_string.spells hruleVersionHash
    rw [not_not] at hmagic
    refine ⟨⟨⟨⟨by omega, by omega⟩, by omega⟩, ⟨rfl, rfl, rfl, rfl, rfl⟩, ?_⟩, ?_⟩
    · simp only [ids, Option.getD_some, List.forall_mem_cons, List.not_mem_nil, false_imp_iff, implies_true, and_true]
      exact ⟨haccount, hview, hmessage, hmembership, hrule⟩
    · have hshown : (if (shown == 1) = true then 1 else 0) = shown := by
        rcases (by omega : shown = 0 ∨ shown = 1) with rfl | rfl <;> rfl
      simp only [layout, ids, visibility, hshown, encodeTexts_cons, hmagic, Option.getD_some, id_eq, List.append_assoc]
      rfl
  reads := by
    rintro ⟨accountId, viewId, messageId, membershipId, ruleVersionHash, uid, uidvalidity, isVisible, time⟩ h
    obtain ⟨haccount, hview, hmessage, hmembership, hrule⟩ := h.present
    obtain ⟨accountId, rfl⟩ := Option.isSome_iff_exists.mp haccount
    obtain ⟨viewId, rfl⟩ := Option.isSome_iff_exists.mp hview
    obtain ⟨messageId, rfl⟩ := Option.isSome_iff_exists.mp hmessage
    obtain ⟨membershipId, rfl⟩ := Option.isSome_iff_exists.mp hmembership
    obtain ⟨ruleVersionHash, rfl⟩ := Option.isSome_iff_exists.mp hrule
    have hstrings := h.strings
    simp only [ids, Option.getD_some, List.forall_mem_cons, List.not_mem_nil, false_imp_iff, implies_true,
      and_true] at hstrings
    have hshown := visibility_lt ⟨accountId, viewId, messageId, membershipId, ruleVersionHash, uid, uidvalidity,
      isVisible, time⟩
    simp only [layout, ids, Option.getD_some, encodeTexts_cons]
    refine (reads_octets _ (by decide)).bind ?_
    rw [if_neg (not_not.mpr rfl)]
    refine Reads.ensure ?_ ?_
    · refine (reads_unsigned _ h.fits.uids.1).bind ?_
      refine (reads_unsigned _ h.fits.uids.2).bind ?_
      refine (reads_unsigned _ (by omega)).bind ?_
      rw [if_neg (by omega)]
      refine (reads_unsigned _ h.fits.materializedAtUnixUs).bind ?_
      refine (codes_string.reads hstrings.1).bind ?_
      refine (codes_string.reads hstrings.2.1).bind ?_
      refine (codes_string.reads hstrings.2.2.1).bind ?_
      refine (codes_string.reads hstrings.2.2.2.1).bind ?_
      refine (codes_string.reads hstrings.2.2.2.2).bind ?_
      cases isVisible <;> exact Reads.pure _
    · intro tail
      rw [decide_eq_true_eq]
      simp only [List.length_append, encode_length, headerSize, magicLength]
      omega

theorem fieldsOf_of_valid {fields : Fields} {payload : DerivedViewMembershipChanged}
    (h : validatePayload fields = .ok payload) : fieldsOf payload = fields := by
  simp only [validatePayload, bind_eq_ok, ite_error_eq_ok, Except.ok.injEq] at h
  obtain ⟨accountId, haccount, viewId, hview, messageId, hmessage, membershipId, hmembership, ruleVersionHash, hrule,
    -, -, -, rfl⟩ := h
  obtain ⟨_, _, _, _, _, uid, uidvalidity, isVisible, time⟩ := fields
  cases validateRequiredString_eq_ok haccount
  cases validateRequiredString_eq_ok hview
  cases validateRequiredString_eq_ok hmessage
  cases validateRequiredString_eq_ok hmembership
  cases validateRequiredString_eq_ok hrule
  rfl

lemma bytes_ne_nil {field : String} {value : Option CString} {s : CString}
    (h : validateRequiredString field value = .ok s) : s.bytes ≠ [] := by
  cases value with
  | none => cases h
  | some t =>
    simp only [validateRequiredString, ite_error_eq_ok, Except.ok.injEq] at h
    obtain ⟨hempty, rfl⟩ := h
    rwa [List.isEmpty_iff] at hempty

theorem layout_length (fields : Fields) : (layout fields).length = headerSize + (encodeTexts (ids fields)).length := by
  have hmagic : magic.length = 8 := by decide
  simp only [layout, List.length_append, encode_length, hmagic, headerSize]
  omega

lemma checkedAddString_eq_ok {total total' : ℕ} {field : String} {s : CString} (hne : s.bytes ≠ [])
    (htotal : total ≤ maxSize) : checkedAddString total field (some s) = .ok total' ↔
      s.bytes.length < 2 ^ 32 ∧ total' = total + (encodeText s).length ∧ total' ≤ maxSize := by
  have hpresent : validateRequiredString field (some s) = .ok s := by
    rw [validateRequiredString, if_neg (by rwa [List.isEmpty_iff])]
  simp only [checkedAddString, checkedAddSize, hpresent, bind_eq_ok, ite_error_eq_ok, Except.ok.injEq, exists_eq_left',
    encodeText_length]
  constructor
  · rintro ⟨hlen, next, ⟨hfits, rfl⟩, hfits', rfl⟩
    omega
  · rintro ⟨hlen, rfl, hle⟩
    exact ⟨by omega, _, ⟨by omega, rfl⟩, by omega, by omega⟩

theorem encodePayload_eq_ok {fields : Fields} {bytes : GBytes} (hfits : Fits fields) :
    encodePayload fields = .ok bytes ↔ Readable fields ∧ (∃ payload, validatePayload fields = .ok payload) ∧
      bytes.data = layout fields ∧ (layout fields).length < 2 ^ 63 := by
  have hlength := layout_length fields
  have hmax : maxSize = 2 ^ 64 - 1 := rfl
  have hsize : headerSize = 33 := rfl
  rw [encodePayload, bind_eq_ok]
  by_cases hpayload : ∃ payload, validatePayload fields = .ok payload
  · obtain ⟨payload, hvalid⟩ := hpayload
    have hback := fieldsOf_of_valid hvalid
    have hchecked := hvalid
    simp only [validatePayload, bind_eq_ok, ite_error_eq_ok, Except.ok.injEq] at hchecked
    obtain ⟨accountId, haccount, viewId, hview, messageId, hmessage, membershipId, hmembership, ruleVersionHash, hrule,
      -, -, -, rfl⟩ := hchecked
    have hids : encodeTexts (ids fields) = encodeText accountId ++ (encodeText viewId ++ (encodeText messageId ++
        (encodeText membershipId ++ (encodeText ruleVersionHash ++ [])))) := by
      rw [← hback]
      rfl
    have hidsLength := congrArg List.length hids
    simp only [List.length_append, List.length_nil] at hidsLength
    have hsome : fields.accountId = some accountId ∧ fields.viewId = some viewId ∧ fields.messageId = some messageId ∧
        fields.membershipId = some membershipId ∧ fields.ruleVersionHash = some ruleVersionHash := by
      rw [← hback]
      exact ⟨rfl, rfl, rfl, rfl, rfl⟩
    have hstrings : (∀ s ∈ ids fields, Spellable s) ↔ accountId.bytes.length < 2 ^ 32 ∧ viewId.bytes.length < 2 ^ 32 ∧
        messageId.bytes.length < 2 ^ 32 ∧ membershipId.bytes.length < 2 ^ 32 ∧
        ruleVersionHash.bytes.length < 2 ^ 32 := by
      rw [← hback]
      simp only [ids, fieldsOf, Option.getD_some, List.forall_mem_cons, List.not_mem_nil, false_imp_iff, implies_true,
        and_true, Spellable, bytes_ne_nil haccount, bytes_ne_nil hview, bytes_ne_nil hmessage,
        bytes_ne_nil hmembership, bytes_ne_nil hrule, ne_eq, not_false_eq_true, true_and]
    obtain ⟨haccountId, hviewId, hmessageId, hmembershipId, hruleVersionHash⟩ := hsome
    simp only [bind_eq_ok, haccountId, hviewId, hmessageId, hmembershipId, hruleVersionHash]
    constructor
    · rintro ⟨-, -, total₁, h₁, total₂, h₂, total₃, h₃, total₄, h₄, total₅, h₅, hdata⟩
      obtain ⟨hlen₁, rfl, hle₁⟩ := (checkedAddString_eq_ok (bytes_ne_nil haccount) (by decide)).mp h₁
      obtain ⟨hlen₂, rfl, hle₂⟩ := (checkedAddString_eq_ok (bytes_ne_nil hview) hle₁).mp h₂
      obtain ⟨hlen₃, rfl, hle₃⟩ := (checkedAddString_eq_ok (bytes_ne_nil hmessage) hle₂).mp h₃
      obtain ⟨hlen₄, rfl, hle₄⟩ := (checkedAddString_eq_ok (bytes_ne_nil hmembership) hle₃).mp h₄
      obtain ⟨hlen₅, rfl, hle₅⟩ := (checkedAddString_eq_ok (bytes_ne_nil hrule) hle₄).mp h₅
      split at hdata
      · rename_i hmemory
        cases hdata
        refine ⟨⟨hfits, ?_, hstrings.mpr ⟨hlen₁, hlen₂, hlen₃, hlen₄, hlen₅⟩⟩, ⟨_, hvalid⟩, rfl, by omega⟩
        rw [haccountId, hviewId, hmessageId, hmembershipId, hruleVersionHash]
        exact ⟨rfl, rfl, rfl, rfl, rfl⟩
      · cases hdata
    · rintro ⟨hreadable, -, hdata, hlen⟩
      obtain ⟨hlen₁, hlen₂, hlen₃, hlen₄, hlen₅⟩ := hstrings.mp hreadable.strings
      refine ⟨_, hvalid, _, (checkedAddString_eq_ok (bytes_ne_nil haccount) (by decide)).mpr ⟨hlen₁, rfl, by omega⟩,
        _, (checkedAddString_eq_ok (bytes_ne_nil hview) (by omega)).mpr ⟨hlen₂, rfl, by omega⟩,
        _, (checkedAddString_eq_ok (bytes_ne_nil hmessage) (by omega)).mpr ⟨hlen₃, rfl, by omega⟩,
        _, (checkedAddString_eq_ok (bytes_ne_nil hmembership) (by omega)).mpr ⟨hlen₄, rfl, by omega⟩,
        _, (checkedAddString_eq_ok (bytes_ne_nil hrule) (by omega)).mpr ⟨hlen₅, rfl, by omega⟩, ?_⟩
      rw [dif_pos (by omega)]
      obtain ⟨data, hsize⟩ := bytes
      cases hdata
      rfl
  · constructor
    · rintro ⟨payload, hvalid, -⟩
      exact absurd ⟨payload, hvalid⟩ hpayload
    · rintro ⟨-, hvalid, -⟩
      exact absurd hvalid hpayload

theorem membership_change_exact : Exact Fits layout encodePayload decodePayload fieldsOf (2 ^ 63) :=
  .of_codes codes_decodeFields fieldsOf_of_valid encodePayload_eq_ok Readable.fits

end Wyrebox.DerivedViewPayload
