import Wyrebox.MutationPayload

set_option autoImplicit false

/-!
# The MembershipsExpunged payload

The UIDs of one EXPUNGE, in ascending order.
-/
namespace Wyrebox.MembershipsExpungedPayload
open LittleEndian Codec JournalRecord PayloadText Event Fallible MutationPayload

def magic : List UInt8 := ascii "WYREMEX1"
def magicLength : ℕ := 8
def headerSize : ℕ := 20

/-- `WyreboxMembershipsExpungedPayload`, before anything is known of it. -/
structure Fields where
  accountId : Option CString
  mailboxId : Option CString
  uidvalidity : ℕ
  uids : List ℕ
  deriving DecidableEq

/-- The loop over the UIDs, behind the UID `previous`. -/
def validateUids : Option ℕ → List ℕ → Except PayloadError Unit
  | _, [] => .ok ()
  | previous, uid :: uids =>
    if uid = 0 then .error (.rule "uid must be at least 1")
    else if previous.any (uid ≤ ·) then .error (.rule "uids must be strictly ascending")
    else validateUids (some uid) uids

/-- `validate_payload`. -/
def validatePayload (fields : Fields) : Except PayloadError MembershipsExpunged := do
  let accountId ← validateRequiredString "account_id" fields.accountId
  let mailboxId ← validateRequiredString "mailbox_id" fields.mailboxId
  if fields.uidvalidity = 0 then .error (.rule "uidvalidity is required")
  else if fields.uids = [] then .error (.rule "requires at least one uid")
  else if 2 ^ 32 - 1 < fields.uids.length then .error (.rule "has too many uids")
  else do
    validateUids none fields.uids
    .ok { accountId, mailboxId, uidvalidity := fields.uidvalidity, uids := fields.uids }

def fieldsOf (payload : MembershipsExpunged) : Fields where
  accountId := some payload.accountId
  mailboxId := some payload.mailboxId
  uidvalidity := payload.uidvalidity
  uids := payload.uids

/-! ## Encoding -/

/-- No `NULL` gets here. -/
def ids (fields : Fields) : List CString := [fields.accountId.getD .empty, fields.mailboxId.getD .empty]

def layout (fields : Fields) : List UInt8 :=
  magic ++ (encode 8 fields.uidvalidity ++ (encode 4 fields.uids.length ++
    (encodeTexts (ids fields) ++ fields.uids.flatMap (encode 8))))

/-- `wyrebox_memberships_expunged_payload_encode`. No allocation is larger than `PTRDIFF_MAX`. -/
def encodePayload (fields : Fields) : Except PayloadError GBytes := do
  let _ ← validatePayload fields
  let total ← checkedAddStrings headerSize (ids fields)
  if (maxSize - total) / 8 < fields.uids.length then .error (.rule "is too large")
  else if h : (layout fields).length ≤ 2 ^ 63 - 1 then .ok ⟨layout fields, h⟩
  else .error .allocation

/-! ## Decoding -/

def decodeFields : Decoder PayloadError Fields := do
  ensure (fun rest => headerSize ≤ rest.length) truncated
  let found ← octets magicLength truncated
  if found ≠ magic then throw .invalidMagic
  else do
    let uidvalidity ← unsigned 8 truncated
    let count ← unsigned 4 truncated
    let accountId ← string
    let mailboxId ← string
    ensure (fun rest => count ≠ 0 ∧ count ≤ rest.length / 8) truncated
    let uids ← times (unsigned 8 truncated) count
    pure { accountId := some accountId, mailboxId := some mailboxId, uidvalidity, uids }

/-- `wyrebox_memberships_expunged_payload_decode`. -/
def decodePayload (data : List UInt8) : Except PayloadError MembershipsExpunged :=
  whole decodeFields malformedLength validatePayload data

/-! ## Exactness -/

/-- The numbers are in the range of their C types. -/
structure Fits (fields : Fields) : Prop where
  uidvalidity : fields.uidvalidity < 2 ^ 64
  uids : ∀ uid ∈ fields.uids, uid < 2 ^ 64

/-- What the payload can spell. -/
structure Readable (fields : Fields) : Prop where
  fits : Fits fields
  ids : fields.accountId.isSome = true ∧ fields.mailboxId.isSome = true
  strings : ∀ s ∈ MembershipsExpungedPayload.ids fields, s.bytes.length < 2 ^ 32
  count : fields.uids ≠ [] ∧ fields.uids.length < 2 ^ 32

theorem flatMap_encode_length (width : ℕ) (values : List ℕ) :
    (values.flatMap (encode width)).length = width * values.length := by
  rw [List.length_flatMap]
  simp [Nat.mul_comm]

theorem codes_decodeFields : Codes decodeFields Readable layout where
  spells := by
    intro bytes fields rest h
    simp only [decodeFields, bind_run, ensure_run, guard_run, pure_run, decide_eq_true_eq] at h
    obtain ⟨_, _, ⟨-, rfl⟩, found, _, hfound, hmagic, uidvalidity, _, huidvalidity, count, _, hcount, accountId, _,
      haccountId, mailboxId, _, hmailboxId, _, _, ⟨⟨hpositive, -⟩, rfl⟩, uids, _, huids, rfl, rfl⟩ := h
    obtain ⟨-, rfl⟩ := spells_octets _ _ hfound
    obtain ⟨huidvalidity, rfl⟩ := spells_unsigned _ _ huidvalidity
    obtain ⟨hcount, rfl⟩ := spells_unsigned _ _ hcount
    obtain ⟨haccount, rfl⟩ := codes_string.spells haccountId
    obtain ⟨hmailbox, rfl⟩ := codes_string.spells hmailboxId
    obtain ⟨⟨rfl, hall⟩, rfl⟩ := spells_times (spells_unsigned 8 truncated) count huids
    rw [not_not] at hmagic
    refine ⟨⟨⟨by omega, fun uid hmem => ?_⟩, ⟨rfl, rfl⟩, ?_, ⟨?_, by omega⟩⟩, ?_⟩
    · have hlt := hall uid hmem
      omega
    · simp only [ids, Option.getD_some, List.forall_mem_cons, List.not_mem_nil, false_imp_iff, implies_true, and_true]
      exact ⟨haccount, hmailbox⟩
    · rintro rfl
      exact hpositive rfl
    · simp only [layout, ids, encodeTexts_cons, hmagic, Option.getD_some, id_eq, List.append_assoc]
      rfl
  reads := by
    rintro ⟨accountId, mailboxId, uidvalidity, uids⟩ h
    obtain ⟨accountId, rfl⟩ := Option.isSome_iff_exists.mp h.ids.1
    obtain ⟨mailboxId, rfl⟩ := Option.isSome_iff_exists.mp h.ids.2
    have hstrings := h.strings
    simp only [ids, Option.getD_some, List.forall_mem_cons, List.not_mem_nil, false_imp_iff, implies_true,
      and_true] at hstrings
    obtain ⟨hne, hcount⟩ := h.count
    have huids : ∀ uid ∈ uids, Reads (unsigned 8 truncated) (encode 8 uid) uid :=
      fun uid hmem => reads_unsigned _ (h.fits.uids uid hmem)
    simp only at hne hcount
    refine Reads.ensure ?_ ?_
    · simp only [layout, ids, Option.getD_some, encodeTexts_cons, List.append_assoc]
      refine (reads_octets _ (by decide)).bind ?_
      rw [if_neg (not_not.mpr rfl)]
      refine (reads_unsigned _ h.fits.uidvalidity).bind ?_
      refine (reads_unsigned _ (by omega)).bind ?_
      refine (codes_string.reads hstrings.1).bind ?_
      refine (codes_string.reads hstrings.2).bind ?_
      refine Reads.ensure (reads_times huids).bind_pure ?_
      intro tail
      have hlength := flatMap_encode_length 8 uids
      have hpositive := List.length_pos_iff.mpr hne
      simp only [encodeTexts, List.flatMap_nil, List.nil_append, decide_eq_true_eq, List.length_append]
      omega
    · intro tail
      have hmagic : magic.length = 8 := by decide
      rw [decide_eq_true_eq]
      simp only [layout, List.length_append, encode_length, hmagic, headerSize]
      omega

theorem fieldsOf_of_valid {fields : Fields} {payload : MembershipsExpunged}
    (h : validatePayload fields = .ok payload) : fieldsOf payload = fields := by
  simp only [validatePayload, bind_eq_ok, ite_error_eq_ok, Except.ok.injEq] at h
  obtain ⟨accountId, haccount, mailboxId, hmailbox, -, -, -, -, -, rfl⟩ := h
  obtain ⟨_, _, uidvalidity, uids⟩ := fields
  cases validateRequiredString_eq_ok haccount
  cases validateRequiredString_eq_ok hmailbox
  rfl

theorem layout_length (fields : Fields) :
    (layout fields).length = headerSize + (encodeTexts (ids fields)).length + 8 * fields.uids.length := by
  have hmagic : magic.length = 8 := by decide
  simp only [layout, List.length_append, encode_length, hmagic, headerSize, flatMap_encode_length]
  omega

theorem encodePayload_eq_ok {fields : Fields} {bytes : GBytes} (hfits : Fits fields) :
    encodePayload fields = .ok bytes ↔ Readable fields ∧ (∃ payload, validatePayload fields = .ok payload) ∧
      bytes.data = layout fields ∧ (layout fields).length < 2 ^ 63 := by
  have hlength := layout_length fields
  have hmax : maxSize = 2 ^ 64 - 1 := rfl
  have hsize : headerSize = 20 := rfl
  simp only [encodePayload, bind_eq_ok, ite_error_eq_ok]
  constructor
  · rintro ⟨payload, hvalid, total, htotal, -, hdata⟩
    obtain ⟨hids, -, -⟩ := (checkedAddStrings_eq_ok (by decide)).mp htotal
    have hback := fieldsOf_of_valid hvalid
    simp only [validatePayload, bind_eq_ok, ite_error_eq_ok] at hvalid
    obtain ⟨accountId, haccount, mailboxId, hmailbox, huidvalidity, hne, hcount, huids⟩ := hvalid
    split at hdata
    · rename_i hfitsMemory
      cases hdata
      refine ⟨⟨hfits, ?_, hids, ⟨hne, by omega⟩⟩, ⟨payload, ?_⟩, rfl, by omega⟩
      · rw [validateRequiredString_eq_ok haccount, validateRequiredString_eq_ok hmailbox]
        exact ⟨rfl, rfl⟩
      · simp only [validatePayload, bind_eq_ok, ite_error_eq_ok]
        exact ⟨accountId, haccount, mailboxId, hmailbox, huidvalidity, hne, hcount, huids⟩
    · cases hdata
  · rintro ⟨hreadable, ⟨payload, hvalid⟩, hdata, hlen⟩
    refine ⟨payload, hvalid, _, (checkedAddStrings_eq_ok (by decide)).mpr ⟨hreadable.strings, rfl, by omega⟩,
      by omega, ?_⟩
    rw [dif_pos (by omega)]
    obtain ⟨data, hsize⟩ := bytes
    cases hdata
    rfl

theorem exact : Exact Fits layout encodePayload decodePayload fieldsOf (2 ^ 63) :=
  .of_codes codes_decodeFields fieldsOf_of_valid encodePayload_eq_ok Readable.fits

end Wyrebox.MembershipsExpungedPayload
