import Wyrebox.MutationPayload

set_option autoImplicit false

/-!
# The MembershipsCopied payload

One COPY or MOVE of any number of messages, an item for each.
-/
namespace Wyrebox.MembershipsCopiedPayload
open LittleEndian Codec JournalRecord PayloadText Event Fallible MutationPayload
open MessageAppendedPayload (isSystemFlag isUserKeyword)

def magic : List UInt8 := ascii "WYREMCP1"
def magicLength : ℕ := 8
def headerSize : ℕ := 28
/-- The numbers of an item and its three counts. -/
def itemMinSize : ℕ := 36

/-- `WyreboxMembershipsCopiedItem`, before anything is known of it. -/
structure Item where
  srcUid : ℕ
  dstUid : ℕ
  internalDateUnixUs : ℕ
  messageId : Option CString
  systemFlags : List CString
  userKeywords : List CString
  deriving DecidableEq

/-- `WyreboxMembershipsCopiedPayload`, likewise. -/
structure Fields where
  accountId : Option CString
  sourceMailboxId : Option CString
  destMailboxId : Option CString
  sourceUidvalidity : ℕ
  destUidvalidity : ℕ
  items : List Item
  deriving DecidableEq

/-! ## Validation -/

def validateItem (item : Item) : Except PayloadError MembershipsCopiedItem :=
  if item.srcUid = 0 ∨ item.dstUid = 0 then .error (.rule "uid must be at least 1")
  else do
    let messageId ← validateRequiredString "message_id" item.messageId
    validateNames "system_flags" isSystemFlag [] item.systemFlags
    validateNames "user_keywords" isUserKeyword [] item.userKeywords
    .ok
      { srcUid := item.srcUid
        dstUid := item.dstUid
        internalDateUnixUs := item.internalDateUnixUs
        messageId
        systemFlags := item.systemFlags
        userKeywords := item.userKeywords }

/-- The loop over the items, with the destination UIDs already seen. -/
def validateItems : List ℕ → List Item → Except PayloadError (List MembershipsCopiedItem)
  | _, [] => .ok []
  | dstUids, item :: items => do
    let valid ← validateItem item
    if item.dstUid ∈ dstUids then .error (.rule "destination uids must be unique")
    else do
      let later ← validateItems (dstUids ++ [item.dstUid]) items
      .ok (valid :: later)

/-- `validate_payload`. -/
def validatePayload (fields : Fields) : Except PayloadError MembershipsCopied := do
  let accountId ← validateRequiredString "account_id" fields.accountId
  let sourceMailboxId ← validateRequiredString "source_mailbox_id" fields.sourceMailboxId
  let destMailboxId ← validateRequiredString "dest_mailbox_id" fields.destMailboxId
  if fields.sourceUidvalidity = 0 ∨ fields.destUidvalidity = 0 then .error (.rule "uidvalidity is required")
  else if fields.items = [] then .error (.rule "requires at least one item")
  else if 2 ^ 32 - 1 < fields.items.length then .error (.rule "has too many items")
  else do
    let items ← validateItems [] fields.items
    .ok
      { accountId, sourceMailboxId, destMailboxId
        sourceUidvalidity := fields.sourceUidvalidity
        destUidvalidity := fields.destUidvalidity
        items }

def itemOf (item : MembershipsCopiedItem) : Item where
  srcUid := item.srcUid
  dstUid := item.dstUid
  internalDateUnixUs := item.internalDateUnixUs
  messageId := some item.messageId
  systemFlags := item.systemFlags
  userKeywords := item.userKeywords

def fieldsOf (payload : MembershipsCopied) : Fields where
  accountId := some payload.accountId
  sourceMailboxId := some payload.sourceMailboxId
  destMailboxId := some payload.destMailboxId
  sourceUidvalidity := payload.sourceUidvalidity
  destUidvalidity := payload.destUidvalidity
  items := payload.items.map itemOf

/-! ## Encoding -/

/-- No `NULL` gets here. -/
def ids (fields : Fields) : List CString :=
  [fields.accountId.getD .empty, fields.sourceMailboxId.getD .empty, fields.destMailboxId.getD .empty]

def encodeNames (names : List CString) : List UInt8 := encode 4 names.length ++ encodeTexts names

def encodeItem (item : Item) : List UInt8 :=
  encode 8 item.srcUid ++ (encode 8 item.dstUid ++ (encode 8 item.internalDateUnixUs ++
    (encodeText (item.messageId.getD .empty) ++ (encodeNames item.systemFlags ++ encodeNames item.userKeywords))))

def layout (fields : Fields) : List UInt8 :=
  magic ++ (encode 8 fields.sourceUidvalidity ++ (encode 8 fields.destUidvalidity ++
    (encode 4 fields.items.length ++ (encodeTexts (ids fields) ++ fields.items.flatMap encodeItem))))

/-- `append_strv`. -/
def checkNames (names : List CString) : Except PayloadError Unit :=
  if 2 ^ 32 - 1 < names.length then .error (.rule "has too many flags or keywords") else checkStrings names

def checkItems : List Item → Except PayloadError Unit
  | [] => .ok ()
  | item :: items => do
    checkStrings [item.messageId.getD .empty]
    checkNames item.systemFlags
    checkNames item.userKeywords
    checkItems items

/-- `wyrebox_memberships_copied_payload_encode`. A `GByteArray` ends the process rather than grow past
    `G_MAXUINT` bytes. -/
def encodePayload (fields : Fields) : Except PayloadError GBytes := do
  let _ ← validatePayload fields
  checkStrings (ids fields)
  checkItems fields.items
  if h : (layout fields).length < 2 ^ 32 then .ok ⟨layout fields, by omega⟩ else .error .allocation

/-! ## Decoding -/

/-- `read_strv`. -/
def names : Decoder PayloadError (List CString) := do
  let count ← unsigned 4 truncated
  stringList count

/-- `read_item`. -/
def decodeItem : Decoder PayloadError Item := do
  let srcUid ← unsigned 8 truncated
  let dstUid ← unsigned 8 truncated
  let internalDateUnixUs ← unsigned 8 truncated
  let messageId ← string
  let systemFlags ← names
  let userKeywords ← names
  pure { srcUid, dstUid, internalDateUnixUs, messageId := some messageId, systemFlags, userKeywords }

def decodeFields : Decoder PayloadError Fields := do
  ensure (fun rest => headerSize ≤ rest.length) truncated
  let found ← octets magicLength truncated
  if found ≠ magic then throw .invalidMagic
  else do
    let sourceUidvalidity ← unsigned 8 truncated
    let destUidvalidity ← unsigned 8 truncated
    let count ← unsigned 4 truncated
    let accountId ← string
    let sourceMailboxId ← string
    let destMailboxId ← string
    ensure (fun rest => count ≠ 0 ∧ count ≤ rest.length / itemMinSize) truncated
    let items ← times decodeItem count
    pure
      { accountId := some accountId, sourceMailboxId := some sourceMailboxId, destMailboxId := some destMailboxId
        sourceUidvalidity, destUidvalidity, items }

/-- `wyrebox_memberships_copied_payload_decode`. -/
def decodePayload (data : List UInt8) : Except PayloadError MembershipsCopied :=
  whole decodeFields malformedLength validatePayload data

/-! ## Exactness -/

structure Item.Fits (item : Item) : Prop where
  uids : item.srcUid < 2 ^ 64 ∧ item.dstUid < 2 ^ 64
  internalDateUnixUs : item.internalDateUnixUs < 2 ^ 64

/-- The numbers are in the range of their C types. -/
structure Fits (fields : Fields) : Prop where
  uidvalidities : fields.sourceUidvalidity < 2 ^ 64 ∧ fields.destUidvalidity < 2 ^ 64
  items : ∀ item ∈ fields.items, item.Fits

/-- Names that a payload can spell. -/
def Spellable (names : List CString) : Prop := names.length < 2 ^ 32 ∧ ∀ s ∈ names, s.bytes.length < 2 ^ 32

structure Item.Readable (item : Item) : Prop where
  fits : item.Fits
  messageId : item.messageId.isSome = true ∧ (item.messageId.getD .empty).bytes.length < 2 ^ 32
  systemFlags : Spellable item.systemFlags
  userKeywords : Spellable item.userKeywords

structure Readable (fields : Fields) : Prop where
  uidvalidities : fields.sourceUidvalidity < 2 ^ 64 ∧ fields.destUidvalidity < 2 ^ 64
  ids : fields.accountId.isSome = true ∧ fields.sourceMailboxId.isSome = true ∧ fields.destMailboxId.isSome = true
  strings : ∀ s ∈ MembershipsCopiedPayload.ids fields, s.bytes.length < 2 ^ 32
  count : fields.items ≠ [] ∧ fields.items.length < 2 ^ 32
  items : ∀ item ∈ fields.items, item.Readable

theorem codes_names : Codes names Spellable encodeNames where
  spells := by
    intro bytes values rest h
    simp only [names, bind_run] at h
    obtain ⟨count, _, hcount, hnames⟩ := h
    obtain ⟨hcount, rfl⟩ := spells_unsigned _ _ hcount
    obtain ⟨⟨rfl, hall⟩, rfl⟩ := (codes_stringList count).spells hnames
    refine ⟨⟨by omega, hall⟩, ?_⟩
    rw [encodeNames, List.append_assoc]
  reads := by
    rintro values ⟨hcount, hall⟩
    exact (reads_unsigned _ (by omega)).bind ((codes_stringList _).reads ⟨rfl, hall⟩)

theorem codes_decodeItem : Codes decodeItem Item.Readable encodeItem where
  spells := by
    intro bytes item rest h
    simp only [decodeItem, bind_run, pure_run] at h
    obtain ⟨srcUid, _, hsrcUid, dstUid, _, hdstUid, date, _, hdate, messageId, _, hmessageId, systemFlags, _,
      hsystemFlags, userKeywords, _, huserKeywords, rfl, rfl⟩ := h
    obtain ⟨hsrcUid, rfl⟩ := spells_unsigned _ _ hsrcUid
    obtain ⟨hdstUid, rfl⟩ := spells_unsigned _ _ hdstUid
    obtain ⟨hdate, rfl⟩ := spells_unsigned _ _ hdate
    obtain ⟨hmessage, rfl⟩ := codes_string.spells hmessageId
    obtain ⟨hflags, rfl⟩ := codes_names.spells hsystemFlags
    obtain ⟨hkeywords, rfl⟩ := codes_names.spells huserKeywords
    refine ⟨⟨⟨⟨by omega, by omega⟩, by omega⟩, ⟨rfl, hmessage⟩, hflags, hkeywords⟩, ?_⟩
    simp only [encodeItem, Option.getD_some, List.append_assoc]
  reads := by
    rintro ⟨srcUid, dstUid, date, messageId, systemFlags, userKeywords⟩ h
    obtain ⟨messageId, rfl⟩ := Option.isSome_iff_exists.mp h.messageId.1
    simp only [encodeItem, Option.getD_some]
    refine (reads_unsigned _ h.fits.uids.1).bind ?_
    refine (reads_unsigned _ h.fits.uids.2).bind ?_
    refine (reads_unsigned _ h.fits.internalDateUnixUs).bind ?_
    refine (codes_string.reads h.messageId.2).bind ?_
    refine (codes_names.reads h.systemFlags).bind ?_
    exact (codes_names.reads h.userKeywords).bind_pure

theorem itemMinSize_le (item : Item) : itemMinSize ≤ (encodeItem item).length := by
  simp only [encodeItem, encodeNames, encodeText, List.length_append, encode_length, itemMinSize]
  omega

theorem length_le_items (items : List Item) : itemMinSize * items.length ≤ (items.flatMap encodeItem).length := by
  induction items with
  | nil => simp
  | cons item items ih =>
    have hitem := itemMinSize_le item
    rw [List.flatMap_cons, List.length_append, List.length_cons, Nat.mul_succ]
    omega

theorem codes_decodeFields : Codes decodeFields Readable layout where
  spells := by
    intro bytes fields rest h
    simp only [decodeFields, bind_run, ensure_run, guard_run, pure_run, decide_eq_true_eq] at h
    obtain ⟨_, _, ⟨-, rfl⟩, found, _, hfound, hmagic, sourceUidvalidity, _, hsource, destUidvalidity, _, hdest, count, _,
      hcount, accountId, _, haccountId, sourceMailboxId, _, hsourceMailboxId, destMailboxId, _, hdestMailboxId, _, _,
      ⟨⟨hpositive, -⟩, rfl⟩, items, _, hitems, rfl, rfl⟩ := h
    obtain ⟨-, rfl⟩ := spells_octets _ _ hfound
    obtain ⟨hsource, rfl⟩ := spells_unsigned _ _ hsource
    obtain ⟨hdest, rfl⟩ := spells_unsigned _ _ hdest
    obtain ⟨hcount, rfl⟩ := spells_unsigned _ _ hcount
    obtain ⟨haccount, rfl⟩ := codes_string.spells haccountId
    obtain ⟨hsourceId, rfl⟩ := codes_string.spells hsourceMailboxId
    obtain ⟨hdestId, rfl⟩ := codes_string.spells hdestMailboxId
    obtain ⟨⟨rfl, hall⟩, rfl⟩ := spells_times codes_decodeItem.spells count hitems
    rw [not_not] at hmagic
    refine ⟨⟨⟨by omega, by omega⟩, ⟨rfl, rfl, rfl⟩, ?_, ⟨?_, by omega⟩, hall⟩, ?_⟩
    · simp only [ids, Option.getD_some, List.forall_mem_cons, List.not_mem_nil, false_imp_iff, implies_true, and_true]
      exact ⟨haccount, hsourceId, hdestId⟩
    · rintro rfl
      exact hpositive rfl
    · simp only [layout, ids, encodeTexts_cons, hmagic, Option.getD_some, id_eq, List.append_assoc]
      rfl
  reads := by
    rintro ⟨accountId, sourceMailboxId, destMailboxId, sourceUidvalidity, destUidvalidity, items⟩ h
    obtain ⟨accountId, rfl⟩ := Option.isSome_iff_exists.mp h.ids.1
    obtain ⟨sourceMailboxId, rfl⟩ := Option.isSome_iff_exists.mp h.ids.2.1
    obtain ⟨destMailboxId, rfl⟩ := Option.isSome_iff_exists.mp h.ids.2.2
    have hstrings := h.strings
    simp only [ids, Option.getD_some, List.forall_mem_cons, List.not_mem_nil, false_imp_iff, implies_true,
      and_true] at hstrings
    obtain ⟨hne, hcount⟩ := h.count
    simp only at hne hcount
    refine Reads.ensure ?_ ?_
    · simp only [layout, ids, Option.getD_some, encodeTexts_cons, List.append_assoc]
      refine (reads_octets _ (by decide)).bind ?_
      rw [if_neg (not_not.mpr rfl)]
      refine (reads_unsigned _ h.uidvalidities.1).bind ?_
      refine (reads_unsigned _ h.uidvalidities.2).bind ?_
      refine (reads_unsigned _ (by omega)).bind ?_
      refine (codes_string.reads hstrings.1).bind ?_
      refine (codes_string.reads hstrings.2.1).bind ?_
      refine (codes_string.reads hstrings.2.2).bind ?_
      refine Reads.ensure (reads_times fun item hmem => codes_decodeItem.reads (h.items item hmem)).bind_pure ?_
      intro tail
      have hlength := length_le_items items
      have hpositive := List.length_pos_iff.mpr hne
      rw [itemMinSize] at hlength
      simp only [encodeTexts, List.flatMap_nil, List.nil_append, decide_eq_true_eq, List.length_append, itemMinSize]
      omega
    · intro tail
      have hmagic : magic.length = 8 := by decide
      rw [decide_eq_true_eq]
      simp only [layout, List.length_append, encode_length, hmagic, headerSize]
      omega

theorem itemOf_of_valid {item : Item} {valid : MembershipsCopiedItem} (h : validateItem item = .ok valid) :
    itemOf valid = item := by
  simp only [validateItem, bind_eq_ok, ite_error_eq_ok, Except.ok.injEq] at h
  obtain ⟨-, messageId, hmessageId, -, -, -, -, rfl⟩ := h
  obtain ⟨srcUid, dstUid, date, _, systemFlags, userKeywords⟩ := item
  cases validateRequiredString_eq_ok hmessageId
  rfl

theorem items_of_valid {dstUids : List ℕ} {items : List Item} {valid : List MembershipsCopiedItem}
    (h : validateItems dstUids items = .ok valid) : valid.map itemOf = items := by
  induction items generalizing dstUids valid with
  | nil =>
    cases h
    rfl
  | cons item items ih =>
    simp only [validateItems, bind_eq_ok, ite_error_eq_ok, Except.ok.injEq] at h
    obtain ⟨first, hfirst, -, later, hlater, rfl⟩ := h
    rw [List.map_cons, itemOf_of_valid hfirst, ih hlater]

theorem fieldsOf_of_valid {fields : Fields} {payload : MembershipsCopied}
    (h : validatePayload fields = .ok payload) : fieldsOf payload = fields := by
  simp only [validatePayload, bind_eq_ok, ite_error_eq_ok, Except.ok.injEq] at h
  obtain ⟨accountId, haccount, sourceMailboxId, hsource, destMailboxId, hdest, -, -, -, items, hitems, rfl⟩ := h
  obtain ⟨_, _, _, sourceUidvalidity, destUidvalidity, _⟩ := fields
  cases validateRequiredString_eq_ok haccount
  cases validateRequiredString_eq_ok hsource
  cases validateRequiredString_eq_ok hdest
  rw [fieldsOf]
  simp only [items_of_valid hitems]

theorem checkNames_eq_ok {values : List CString} : checkNames values = .ok () ↔ Spellable values := by
  rw [checkNames, ite_error_eq_ok, checkStrings_eq_ok, Spellable, not_lt]
  exact and_congr_left' (by omega)

theorem checkItems_eq_ok {items : List Item} : checkItems items = .ok () ↔ ∀ item ∈ items,
    (item.messageId.getD .empty).bytes.length < 2 ^ 32 ∧ Spellable item.systemFlags ∧ Spellable item.userKeywords := by
  induction items with
  | nil => simp [checkItems]
  | cons item items ih =>
    simp only [checkItems, check_eq_ok, checkStrings_eq_ok, checkNames_eq_ok, ih, List.forall_mem_cons,
      List.not_mem_nil, false_imp_iff, implies_true, and_true, and_assoc]

theorem encodePayload_eq_ok {fields : Fields} {bytes : GBytes} (hfits : Fits fields) :
    encodePayload fields = .ok bytes ↔ Readable fields ∧ (∃ payload, validatePayload fields = .ok payload) ∧
      bytes.data = layout fields ∧ (layout fields).length < 2 ^ 32 := by
  simp only [encodePayload, bind_eq_ok]
  constructor
  · rintro ⟨payload, hvalid, _, hids, _, hitems, hdata⟩
    have hback := fieldsOf_of_valid hvalid
    have hspelled := checkItems_eq_ok.mp hitems
    split at hdata
    · rename_i hsmall
      cases hdata
      refine ⟨⟨hfits.uidvalidities, ?_, checkStrings_eq_ok.mp hids, ?_, fun item hmem => ?_⟩, ⟨payload, hvalid⟩, rfl,
        hsmall⟩
      · rw [← hback]
        exact ⟨rfl, rfl, rfl⟩
      · simp only [validatePayload, bind_eq_ok, ite_error_eq_ok] at hvalid
        obtain ⟨-, -, -, -, -, -, -, hne, hcount, -⟩ := hvalid
        exact ⟨hne, by omega⟩
      · obtain ⟨hmessage, hflags, hkeywords⟩ := hspelled item hmem
        refine ⟨hfits.items item hmem, ⟨?_, hmessage⟩, hflags, hkeywords⟩
        rw [← hback] at hmem
        obtain ⟨valid, -, rfl⟩ := List.mem_map.mp hmem
        rfl
    · cases hdata
  · rintro ⟨hreadable, ⟨payload, hvalid⟩, hdata, hlen⟩
    refine ⟨payload, hvalid, (), checkStrings_eq_ok.mpr hreadable.strings, (), checkItems_eq_ok.mpr fun item hmem => ?_,
      ?_⟩
    · have hitem := hreadable.items item hmem
      exact ⟨hitem.messageId.2, hitem.systemFlags, hitem.userKeywords⟩
    · rw [dif_pos hlen]
      obtain ⟨data, hsize⟩ := bytes
      cases hdata
      rfl

theorem exact : Exact Fits layout encodePayload decodePayload fieldsOf (2 ^ 32) :=
  .of_codes codes_decodeFields fieldsOf_of_valid encodePayload_eq_ok
    fun h => ⟨h.uidvalidities, fun item hmem => (h.items item hmem).fits⟩

end Wyrebox.MembershipsCopiedPayload
