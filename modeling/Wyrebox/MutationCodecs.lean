import Wyrebox.FlagChangedPayload
import Wyrebox.MembershipsCopiedPayload
import Wyrebox.MembershipsExpungedPayload

set_option autoImplicit false

/-!
# The mailbox mutation codecs

All four codecs are exact. Two of them build their bytes in a `GByteArray`, which holds less than
`2 ^ 32` bytes.
-/
namespace Wyrebox.MutationCodecs
open LittleEndian Codec JournalRecord PayloadText Event Fallible MutationPayload

/-! ## MessageAppended -/

section
open MessageAppendedPayload

def fieldsOf (payload : MessageAppended) : Fields where
  accountId := some payload.accountId
  mailboxId := some payload.mailboxId
  uidvalidity := payload.uidvalidity
  uid := payload.uid
  objectKey := some payload.objectKey
  sizeBytes := payload.sizeBytes
  internalDateUnixUs := payload.internalDateUnixUs
  metadata := payload.metadata
  systemFlags := payload.systemFlags
  userKeywords := payload.userKeywords

theorem appendedString_eq_ok {field : String} {value : Option CString} {s : CString}
    (h : MessageAppendedPayload.validateRequiredString field value = .ok s) : value = some s := by
  cases value with
  | none => cases h
  | some t =>
    simp only [MessageAppendedPayload.validateRequiredString, ite_error_eq_ok, Except.ok.injEq] at h
    rw [h.2]

theorem fieldsOf_of_valid {fields : Fields} {payload : MessageAppended} (h : validatePayload fields = .ok payload) :
    fieldsOf payload = fields := by
  simp only [validatePayload, bind_eq_ok, ite_error_eq_ok, Except.ok.injEq] at h
  obtain ⟨accountId, haccount, mailboxId, hmailbox, -, objectKey, hkey, -, -, -, -, -, -, -, -, rfl⟩ := h
  obtain ⟨_, _, _, _, key, _, _, _, _, _⟩ := fields
  cases appendedString_eq_ok haccount
  cases appendedString_eq_ok hmailbox
  cases key with
  | none => cases hkey
  | some key =>
    simp only [validateObjectKey, ite_ok_eq_ok, Except.ok.injEq] at hkey
    rw [fieldsOf, hkey.2]

theorem checkStrings_of_encodable {values : List (Option CString)} (h : ∀ value ∈ values, Encodable value) :
    MessageAppendedPayload.checkStrings values = .ok () := by
  induction values with
  | nil => rfl
  | cons value values ih =>
    rw [List.forall_mem_cons] at h
    have hvalue : checkString value = .ok () := by
      cases value with
      | none => rfl
      | some s => exact if_neg (Nat.not_le.mpr (h.1 s rfl))
    rw [MessageAppendedPayload.checkStrings, check_eq_ok]
    exact ⟨hvalue, ih h.2⟩

theorem encodeStrings_length (values : List CString) : 4 * values.length < (encodeStrings values).length := by
  have hlen := encodeStrings_length_le values
  rw [encodeStrings, List.length_append, encode_length]
  omega

theorem checkStrv_of_spelled {values : List CString} (hcount : (encodeStrings values).length < 2 ^ 32)
    (h : ∀ s ∈ values, s.bytes.length < nullString) : checkStrv values = .ok () := by
  have hlen := encodeStrings_length values
  rw [checkStrv, if_neg (by rw [nullString]; omega)]
  refine checkStrings_of_encodable fun value hmem => ?_
  obtain ⟨s, hs, rfl⟩ := List.mem_map.mp hmem
  exact fun s' heq => Option.some.inj heq ▸ h s hs

theorem encodePayload_eq_ok {fields : Fields} {bytes : GBytes} (hfits : Fits fields) :
    encodePayload fields = .ok bytes ↔ Readable fields ∧ (∃ payload, validatePayload fields = .ok payload) ∧
      bytes.data = layout fields ∧ (layout fields).length < 2 ^ 32 := by
  constructor
  · intro h
    have hencoded := encoded_of_ok h
    refine ⟨hencoded.readable hfits, hencoded.valid, hencoded.data, ?_⟩
    simp only [encodePayload, bind_eq_ok] at h
    obtain ⟨-, -, -, -, -, -, -, -, hdata⟩ := h
    split at hdata
    · assumption
    · cases hdata
  · rintro ⟨hreadable, ⟨payload, hvalid⟩, hdata, hlen⟩
    have hlists : (encodeStrings fields.systemFlags).length + (encodeStrings fields.userKeywords).length ≤
        (layout fields).length := by
      simp only [layout, List.length_append]
      omega
    simp only [encodePayload, bind_eq_ok]
    refine ⟨payload, hvalid, (), checkStrings_of_encodable hreadable.strings,
      (), checkStrv_of_spelled (by omega) hreadable.systemFlags.2,
      (), checkStrv_of_spelled (by omega) hreadable.userKeywords.2, ?_⟩
    rw [dif_pos hlen]
    obtain ⟨data, hsize⟩ := bytes
    cases hdata
    rfl

theorem messageAppended_exact : Exact Fits layout encodePayload decodePayload fieldsOf (2 ^ 32) :=
  .of_codes ⟨spells_decodeFields, reads_decodeFields⟩ fieldsOf_of_valid encodePayload_eq_ok Readable.fits

end

/-! ## All of them -/

theorem mutation_codecs_exact :
    Exact MembershipsCopiedPayload.Fits MembershipsCopiedPayload.layout MembershipsCopiedPayload.encodePayload
        MembershipsCopiedPayload.decodePayload MembershipsCopiedPayload.fieldsOf (2 ^ 32) ∧
      Exact MessageAppendedPayload.Fits MessageAppendedPayload.layout MessageAppendedPayload.encodePayload
        MessageAppendedPayload.decodePayload fieldsOf (2 ^ 32) ∧
      Exact MembershipsExpungedPayload.Fits MembershipsExpungedPayload.layout MembershipsExpungedPayload.encodePayload
        MembershipsExpungedPayload.decodePayload MembershipsExpungedPayload.fieldsOf (2 ^ 63) ∧
      Exact FlagChangedPayload.Fits FlagChangedPayload.layout FlagChangedPayload.encodePayload
        FlagChangedPayload.decodePayload FlagChangedPayload.fieldsOf (2 ^ 63) :=
  ⟨MembershipsCopiedPayload.exact, messageAppended_exact, MembershipsExpungedPayload.exact, FlagChangedPayload.exact⟩

/-! ## A payload of four gigabytes -/

/-- A message with a subject just short of `G_MAXUINT32` bytes. -/
def largeSubject : CString where
  bytes := List.replicate (2 ^ 32 - 2) 97
  no_nul := by
    intro h
    exact absurd (List.eq_of_mem_replicate h) (by decide)

def sampleKey : CString where
  bytes := ascii "sha256:" ++ List.replicate 64 48
  no_nul := zeroKey_no_nul

open MessageAppendedPayload in
def largeFields : Fields where
  accountId := some (.literal "a")
  mailboxId := some (.literal "b")
  uidvalidity := 1
  uid := 1
  objectKey := some sampleKey
  sizeBytes := 0
  internalDateUnixUs := 0
  metadata := ⟨none, some largeSubject, none, none, none, none, none, 0, .absent, .absent⟩
  systemFlags := []
  userKeywords := []

def largePayload : MessageAppended where
  accountId := .literal "a"
  mailboxId := .literal "b"
  uidvalidity := 1
  uid := 1
  objectKey := sampleKey
  sizeBytes := 0
  internalDateUnixUs := 0
  metadata := largeFields.metadata
  systemFlags := []
  userKeywords := []

theorem largeSubject_length : largeSubject.bytes.length = 2 ^ 32 - 2 := List.length_replicate

open MessageAppendedPayload in
theorem largeFields_length : (layout largeFields).length = 4294967495 := by
  have hmagic : MessageAppendedPayload.magic.length = 8 := by decide
  have ha : (CString.literal "a").bytes.length = 1 := by decide
  have hb : (CString.literal "b").bytes.length = 1 := by decide
  have hkey : sampleKey.bytes.length = 71 := by decide
  simp only [layout, header, largeFields, stringFields, List.flatMap_cons, List.flatMap_nil, encodeNullable,
    encodeStrings, List.length_append, encode_length, hmagic, ha, hb, hkey, largeSubject_length, List.length_nil]
  omega

open MessageAppendedPayload in
theorem largeFields_readable : Readable largeFields := by
  refine ⟨⟨⟨by decide, by decide⟩, by decide, by decide, by decide, ⟨by decide, by decide⟩, by decide, by decide⟩, ?_,
    ⟨by decide, fun _ h => absurd h List.not_mem_nil⟩, ⟨by decide, fun _ h => absurd h List.not_mem_nil⟩⟩
  have hshort : ∀ s : CString, s.bytes.length < nullString → Encodable (some s) :=
    fun s h s' heq => Option.some.inj heq ▸ h
  have hnone : Encodable none := fun s heq => by cases heq
  have hsubject : largeSubject.bytes.length < nullString := by
    rw [largeSubject_length]
    decide
  simp only [stringFields, largeFields, List.forall_mem_cons, List.not_mem_nil, false_imp_iff, forall_const, and_true]
  exact ⟨hshort _ (by decide), hshort _ (by decide), hshort _ (by decide), hnone, hshort _ hsubject, hnone, hnone,
    hnone, hnone, hnone⟩

/-- The decoder takes the payload, the encoder cannot build it again. -/
theorem large_payload_not_encoded :
    ¬∀ (bytes : GBytes) (payload : MessageAppended), MessageAppendedPayload.decodePayload bytes.data = .ok payload →
      MessageAppendedPayload.encodePayload (fieldsOf payload) = .ok bytes := by
  intro hclaim
  have hlength := largeFields_length
  have hdecoded : MessageAppendedPayload.decodePayload (MessageAppendedPayload.layout largeFields) = .ok largePayload := by
    rw [MessageAppendedPayload.decodePayload, (MessageAppendedPayload.reads_decodeFields largeFields_readable).run]
    rfl
  have hencoded := hclaim ⟨MessageAppendedPayload.layout largeFields, by omega⟩ largePayload hdecoded
  obtain ⟨error, hrefused⟩ := messageAppended_exact.encode_refused hdecoded (by omega)
  rw [hrefused] at hencoded
  cases hencoded

end Wyrebox.MutationCodecs
