import Wyrebox.MutationPayload

set_option autoImplicit false

/-!
# The FlagChanged payload

One change of the flags and keywords of a membership.
-/
namespace Wyrebox.FlagChangedPayload
open LittleEndian Codec JournalRecord PayloadText Event Fallible MutationPayload
open MessageAppendedPayload (isSystemFlag isUserKeyword)

def magic : List UInt8 := ascii "WYREFLC1"
def magicLength : ℕ := 8
def headerSize : ℕ := 33

/-- `WyreboxFlagChangedPayload`, before anything is known of it. -/
structure Fields where
  accountId : Option CString
  mailboxId : Option CString
  uidvalidity : ℕ
  uid : ℕ
  mode : ℕ
  systemFlags : List CString
  userKeywords : List CString
  deriving DecidableEq

def modeNumber : FlagChangedMode → ℕ
  | .set => 0
  | .clear => 1
  | .replace => 2

def validateMode : ℕ → Except PayloadError FlagChangedMode
  | 0 => .ok .set
  | 1 => .ok .clear
  | 2 => .ok .replace
  | _ => .error (.rule "mode is invalid")

/-- `validate_payload`. -/
def validatePayload (fields : Fields) : Except PayloadError FlagChanged := do
  let accountId ← validateRequiredString "account_id" fields.accountId
  let mailboxId ← validateRequiredString "mailbox_id" fields.mailboxId
  if fields.uid = 0 ∨ fields.uidvalidity = 0 then .error (.rule "uid and uidvalidity are required")
  else do
    let mode ← validateMode fields.mode
    validateNames "system_flags" isSystemFlag [] fields.systemFlags
    validateNames "user_keywords" isUserKeyword [] fields.userKeywords
    if mode ≠ .replace ∧ fields.systemFlags.length = 0 ∧ fields.userKeywords.length = 0 then
      .error (.rule "requires a system flag or user keyword")
    else
      .ok
        { accountId, mailboxId
          uidvalidity := fields.uidvalidity
          uid := fields.uid
          mode
          systemFlags := fields.systemFlags
          userKeywords := fields.userKeywords }

def fieldsOf (payload : FlagChanged) : Fields where
  accountId := some payload.accountId
  mailboxId := some payload.mailboxId
  uidvalidity := payload.uidvalidity
  uid := payload.uid
  mode := modeNumber payload.mode
  systemFlags := payload.systemFlags
  userKeywords := payload.userKeywords

/-! ## Encoding -/

/-- No `NULL` gets here. -/
def ids (fields : Fields) : List CString := [fields.accountId.getD .empty, fields.mailboxId.getD .empty]

def header (fields : Fields) : List UInt8 :=
  magic ++ (encode 8 fields.uid ++ (encode 8 fields.uidvalidity ++ (encode 1 fields.mode ++
    (encode 4 fields.systemFlags.length ++ encode 4 fields.userKeywords.length))))

def layout (fields : Fields) : List UInt8 :=
  header fields ++ (encodeTexts (ids fields) ++ (encodeTexts fields.systemFlags ++ encodeTexts fields.userKeywords))

/-- `wyrebox_flag_changed_payload_encode`. No allocation is larger than `PTRDIFF_MAX`. -/
def encodePayload (fields : Fields) : Except PayloadError GBytes := do
  let _ ← validatePayload fields
  if 2 ^ 32 - 1 < fields.userKeywords.length then .error (.rule "has too many user keywords")
  else do
    let total ← checkedAddStrings headerSize (ids fields)
    let total ← checkedAddStrings total fields.systemFlags
    let _ ← checkedAddStrings total fields.userKeywords
    if h : (layout fields).length ≤ 2 ^ 63 - 1 then .ok ⟨layout fields, h⟩ else .error .allocation

/-! ## Decoding -/

def decodeFields : Decoder PayloadError Fields := do
  ensure (fun rest => headerSize ≤ rest.length) truncated
  let found ← octets magicLength truncated
  if found ≠ magic then throw .invalidMagic
  else do
    let uid ← unsigned 8 truncated
    let uidvalidity ← unsigned 8 truncated
    let mode ← unsigned 1 truncated
    let flagCount ← unsigned 4 truncated
    let keywordCount ← unsigned 4 truncated
    let accountId ← string
    let mailboxId ← string
    let systemFlags ← stringList flagCount
    let userKeywords ← stringList keywordCount
    pure { accountId := some accountId, mailboxId := some mailboxId, uidvalidity, uid, mode, systemFlags, userKeywords }

/-- `wyrebox_flag_changed_payload_decode`. -/
def decodePayload (data : List UInt8) : Except PayloadError FlagChanged :=
  whole decodeFields malformedLength validatePayload data

/-! ## Exactness -/

/-- The numbers are in the range of their C types. -/
structure Fits (fields : Fields) : Prop where
  uids : fields.uidvalidity < 2 ^ 64 ∧ fields.uid < 2 ^ 64
  mode : fields.mode < 2 ^ 32

/-- What the payload can spell. -/
structure Readable (fields : Fields) : Prop where
  uids : fields.uidvalidity < 2 ^ 64 ∧ fields.uid < 2 ^ 64
  mode : fields.mode < 256
  ids : fields.accountId.isSome = true ∧ fields.mailboxId.isSome = true
  strings : ∀ s ∈ FlagChangedPayload.ids fields, s.bytes.length < 2 ^ 32
  systemFlags : fields.systemFlags.length < 2 ^ 32 ∧ ∀ s ∈ fields.systemFlags, s.bytes.length < 2 ^ 32
  userKeywords : fields.userKeywords.length < 2 ^ 32 ∧ ∀ s ∈ fields.userKeywords, s.bytes.length < 2 ^ 32

theorem codes_decodeFields : Codes decodeFields Readable layout where
  spells := by
    intro bytes fields rest h
    simp only [decodeFields, bind_run, ensure_run, guard_run, pure_run] at h
    obtain ⟨_, _, ⟨-, rfl⟩, found, _, hfound, hmagic, uid, _, huid, uidvalidity, _, huidvalidity, mode, _, hmode,
      flagCount, _, hflagCount, keywordCount, _, hkeywordCount, accountId, _, haccountId, mailboxId, _, hmailboxId,
      systemFlags, _, hsystemFlags, userKeywords, _, huserKeywords, rfl, rfl⟩ := h
    obtain ⟨-, rfl⟩ := spells_octets _ _ hfound
    obtain ⟨huid, rfl⟩ := spells_unsigned _ _ huid
    obtain ⟨huidvalidity, rfl⟩ := spells_unsigned _ _ huidvalidity
    obtain ⟨hmode, rfl⟩ := spells_unsigned _ _ hmode
    obtain ⟨hflagCount, rfl⟩ := spells_unsigned _ _ hflagCount
    obtain ⟨hkeywordCount, rfl⟩ := spells_unsigned _ _ hkeywordCount
    obtain ⟨haccount, rfl⟩ := codes_string.spells haccountId
    obtain ⟨hmailbox, rfl⟩ := codes_string.spells hmailboxId
    obtain ⟨⟨rfl, hflags⟩, rfl⟩ := (codes_stringList flagCount).spells hsystemFlags
    obtain ⟨⟨rfl, hkeywords⟩, rfl⟩ := (codes_stringList keywordCount).spells huserKeywords
    rw [not_not] at hmagic
    refine ⟨⟨⟨by omega, by omega⟩, by omega, ⟨rfl, rfl⟩, ?_, ⟨by omega, hflags⟩, ⟨by omega, hkeywords⟩⟩, ?_⟩
    · simp only [ids, Option.getD_some, List.forall_mem_cons, List.not_mem_nil, false_imp_iff, implies_true, and_true]
      exact ⟨haccount, hmailbox⟩
    · simp only [layout, header, ids, encodeTexts_cons, hmagic, Option.getD_some, id_eq, List.append_assoc]
      rfl
  reads := by
    rintro ⟨accountId, mailboxId, uidvalidity, uid, mode, systemFlags, userKeywords⟩ h
    obtain ⟨accountId, rfl⟩ := Option.isSome_iff_exists.mp h.ids.1
    obtain ⟨mailboxId, rfl⟩ := Option.isSome_iff_exists.mp h.ids.2
    have hstrings := h.strings
    simp only [ids, Option.getD_some, List.forall_mem_cons, List.not_mem_nil, false_imp_iff, implies_true,
      and_true] at hstrings
    have hmode := h.mode
    have hflags := h.systemFlags.1
    have hkeywords := h.userKeywords.1
    simp only at hmode hflags hkeywords
    refine Reads.ensure ?_ ?_
    · simp only [layout, header, ids, Option.getD_some, encodeTexts_cons, List.append_assoc]
      refine (reads_octets _ (by decide)).bind ?_
      rw [if_neg (not_not.mpr rfl)]
      refine (reads_unsigned _ h.uids.2).bind ?_
      refine (reads_unsigned _ h.uids.1).bind ?_
      refine (reads_unsigned _ (by omega)).bind ?_
      refine (reads_unsigned _ (by omega)).bind ?_
      refine (reads_unsigned _ (by omega)).bind ?_
      refine (codes_string.reads hstrings.1).bind ?_
      refine (codes_string.reads hstrings.2).bind ?_
      refine ((codes_stringList _).reads ⟨rfl, h.systemFlags.2⟩).bind ?_
      exact ((codes_stringList _).reads ⟨rfl, h.userKeywords.2⟩).bind_pure
    · intro tail
      have hmagic : magic.length = 8 := by decide
      rw [decide_eq_true_eq]
      simp only [layout, header, List.length_append, encode_length, hmagic, headerSize]
      omega

theorem fieldsOf_of_valid {fields : Fields} {payload : FlagChanged} (h : validatePayload fields = .ok payload) :
    fieldsOf payload = fields := by
  simp only [validatePayload, bind_eq_ok, ite_error_eq_ok, Except.ok.injEq] at h
  obtain ⟨accountId, haccount, mailboxId, hmailbox, -, mode, hmode, -, -, -, -, -, rfl⟩ := h
  obtain ⟨_, _, uidvalidity, uid, number, systemFlags, userKeywords⟩ := fields
  cases validateRequiredString_eq_ok haccount
  cases validateRequiredString_eq_ok hmailbox
  simp only [validateMode] at hmode
  split at hmode
  · cases hmode
    rfl
  · cases hmode
    rfl
  · cases hmode
    rfl
  · cases hmode

theorem modeNumber_lt (mode : FlagChangedMode) : modeNumber mode < 3 := by
  cases mode <;> decide

theorem readable_of_valid {fields : Fields} {payload : FlagChanged} (h : validatePayload fields = .ok payload) :
    fields.mode < 256 ∧ (fields.accountId.isSome = true ∧ fields.mailboxId.isSome = true) ∧
    fields.systemFlags.length ≤ 5 := by
  have hback := fieldsOf_of_valid h
  simp only [validatePayload, bind_eq_ok, ite_error_eq_ok] at h
  obtain ⟨-, -, -, -, -, -, -, _, hflags, -⟩ := h
  refine ⟨?_, ?_, systemFlags_length_le hflags⟩
  · rw [← hback]
    exact (modeNumber_lt payload.mode).trans (by decide)
  · rw [← hback]
    exact ⟨rfl, rfl⟩

theorem layout_length (fields : Fields) : (layout fields).length = headerSize + (encodeTexts (ids fields)).length +
    (encodeTexts fields.systemFlags).length + (encodeTexts fields.userKeywords).length := by
  have hmagic : magic.length = 8 := by decide
  simp only [layout, header, List.length_append, encode_length, hmagic, headerSize]
  omega

theorem encodePayload_eq_ok {fields : Fields} {bytes : GBytes} (hfits : Fits fields) :
    encodePayload fields = .ok bytes ↔ Readable fields ∧ (∃ payload, validatePayload fields = .ok payload) ∧
      bytes.data = layout fields ∧ (layout fields).length < 2 ^ 63 := by
  have hlength := layout_length fields
  have hkeywordBytes := length_le_encodeTexts fields.userKeywords
  have hmax : maxSize = 2 ^ 64 - 1 := rfl
  have hsize : headerSize = 33 := rfl
  simp only [encodePayload, bind_eq_ok, ite_error_eq_ok]
  constructor
  · rintro ⟨payload, hvalid, hcount, first, hfirst, second, hsecond, third, hthird, hdata⟩
    obtain ⟨hids, rfl, hle⟩ := (checkedAddStrings_eq_ok (by decide)).mp hfirst
    obtain ⟨hflags, rfl, hle⟩ := (checkedAddStrings_eq_ok hle).mp hsecond
    obtain ⟨hkeywords, -, -⟩ := (checkedAddStrings_eq_ok hle).mp hthird
    obtain ⟨hmode, hsome, hfive⟩ := readable_of_valid hvalid
    split at hdata
    · rename_i hfitsMemory
      cases hdata
      exact ⟨⟨hfits.uids, hmode, hsome, hids, ⟨by omega, hflags⟩, ⟨by omega, hkeywords⟩⟩, ⟨payload, hvalid⟩, rfl,
        by omega⟩
    · cases hdata
  · rintro ⟨hreadable, ⟨payload, hvalid⟩, hdata, hlen⟩
    have hcount := hreadable.userKeywords.1
    refine ⟨payload, hvalid, by omega, _, (checkedAddStrings_eq_ok (by decide)).mpr ⟨hreadable.strings, rfl, by omega⟩,
      _, (checkedAddStrings_eq_ok (by omega)).mpr ⟨hreadable.systemFlags.2, rfl, by omega⟩,
      _, (checkedAddStrings_eq_ok (by omega)).mpr ⟨hreadable.userKeywords.2, rfl, by omega⟩, ?_⟩
    rw [dif_pos (by omega)]
    obtain ⟨data, hsize⟩ := bytes
    cases hdata
    rfl

theorem exact : Exact Fits layout encodePayload decodePayload fieldsOf (2 ^ 63) :=
  .of_codes codes_decodeFields fieldsOf_of_valid encodePayload_eq_ok
    fun h => ⟨h.uids, h.mode.trans (by decide)⟩

end Wyrebox.FlagChangedPayload
