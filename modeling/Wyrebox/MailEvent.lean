import Wyrebox.DeliveryProjection

set_option autoImplicit false

/-!
# Mail events

Some journal records are shown to subscribers, as short texts of one `key=value` line for each field. Values are
escaped so that no value can end its line.
-/
namespace Wyrebox.MailEvent
open JournalRecord JournalReader Event

/-! ## Values and fields -/

def hexDigit (n : ℕ) : UInt8 := UInt8.ofNat (if n < 10 then 48 + n else 55 + n)

/-- `%` and control characters are written `%XX`. -/
def escapeByte (b : UInt8) : List UInt8 :=
  if b = 37 ∨ b < 32 ∨ b = 127 then [37, hexDigit (b.toNat / 16), hexDigit (b.toNat % 16)] else [b]

def appendValue (value : List UInt8) : List UInt8 := value.flatMap escapeByte

inductive FieldValue where
  | text (value : CString)
  | uint64 (value : ℕ)
  | strv (values : List CString)

def separated (f : List UInt8 → List UInt8) : List CString → List UInt8
  | [] => []
  | value :: values => f value.bytes ++ values.flatMap fun value => 32 :: f value.bytes

/-- `append_field`, `append_uint64_field` or `append_strv_field`. -/
def appendField (key : String) (value : FieldValue) : List UInt8 :=
  ascii key ++ 61 :: (match value with
    | .text value => appendValue value.bytes
    | .uint64 value => (CString.decimal value).bytes
    | .strv values => separated appendValue values) ++ [10]

/-! ## The projections -/

/-- The keys and values in the order in which they are written. -/
abbrev Fields := List (String × FieldValue)

def magic : List UInt8 := ascii "wyrebox-mail-event/1"

lemma eventTypeName_no_nul (eventType : EventType) : (0 : UInt8) ∉ eventType.name := by
  cases eventType <;> decide

def eventTypeText (eventType : EventType) : CString := ⟨eventType.name, eventTypeName_no_nul eventType⟩

def newEvent (record : Record) (account : CString) : Fields :=
  [("offset", .uint64 record.offset), ("sequence", .uint64 record.sequence),
    ("event_type", .text (eventTypeText record.eventType)), ("account", .text account)]

def finishEvent (fields : Fields) : List UInt8 :=
  magic ++ 10 :: fields.flatMap fun field => appendField field.1 field.2

/-- `deliveryId` is written if there is one. -/
def deliveryFields (payload : MessageDelivered) : Fields :=
  (payload.deliveryId.map fun deliveryId => ("delivery_id", FieldValue.text deliveryId)).toList ++
    [("size_bytes", .uint64 payload.sizeBytes), ("internal_date_unix_us", .uint64 payload.internalDateUnixUs)]

def flagModeName : FlagChangedMode → CString
  | .set => .literal "set"
  | .clear => .literal "clear"
  | .replace => .literal "replace"

def flagChangeFields (payload : FlagChanged) : Fields :=
  [("mailbox_id", .text payload.mailboxId), ("uidvalidity", .uint64 payload.uidvalidity),
    ("uid", .uint64 payload.uid), ("mode", .text (flagModeName payload.mode)),
    ("system_flags", .strv payload.systemFlags), ("user_keywords", .strv payload.userKeywords)]

def derivedViewMembershipFields (payload : DerivedViewMembershipChanged) : Fields :=
  [("view_id", .text payload.viewId), ("uidvalidity", .uint64 payload.uidvalidity), ("uid", .uint64 payload.uid),
    ("message_id", .text payload.messageId),
    ("is_visible", .text (if payload.isVisible then .literal "true" else .literal "false"))]

/-- The message of `wyrebox_daemon_mail_event_project`. -/
structure ProjectError where
  eventType : EventType
  offset : ℕ
  reason : List UInt8
  deriving DecidableEq

def ProjectError.message (error : ProjectError) : List UInt8 :=
  ascii "mail event " ++ error.eventType.name ++ ascii (" record at offset " ++ toString error.offset ++
    " does not decode: ") ++ error.reason

section
variable {ε α : Type}

/-- What the `project_*` functions share: there is no event for an account other than the one asked for. -/
def projectPayload (reason : ε → List UInt8) (decode : List UInt8 → Except ε α) (account : α → Option CString)
    (fields : α → Fields) (record : Record) (accountIdentity : CString) : Except ProjectError (Option Fields) :=
  match decode record.payload with
  | .error error => .error ⟨record.eventType, record.offset, reason error⟩
  | .ok payload =>
    if account payload ≠ some accountIdentity then .ok none
    else .ok (some (newEvent record accountIdentity ++ fields payload))

end

def projectDelivery : Record → CString → Except ProjectError (Option Fields) :=
  projectPayload (fun error => ascii error.message) MessageDeliveredPayload.decodePayload (·.accountIdentity)
    deliveryFields

def projectFlagChange : Record → CString → Except ProjectError (Option Fields) :=
  projectPayload (fun error => ascii (error.message "FlagChanged")) FlagChangedPayload.decodePayload
    (fun payload => some payload.accountId) flagChangeFields

def projectDerivedViewMembership : Record → CString → Except ProjectError (Option Fields) :=
  projectPayload (fun error => ascii (error.message "DerivedViewMembershipChanged")) DerivedViewPayload.decodePayload
    (fun payload => some payload.accountId) derivedViewMembershipFields

/-- The fields of the event that a record makes, if it makes one. -/
def projectFields (record : Record) (accountIdentity : CString) : Except ProjectError (Option Fields) :=
  match record.eventType with
  | .messageDelivered => projectDelivery record accountIdentity
  | .flagChanged => projectFlagChange record accountIdentity
  | .derivedViewMembershipChanged => projectDerivedViewMembership record accountIdentity
  | _ => .ok none

/-- `wyrebox_daemon_mail_event_project`. -/
def project (record : Record) (accountIdentity : CString) : Except ProjectError (Option (List UInt8)) :=
  (projectFields record accountIdentity).map (Option.map finishEvent)

/-! ## Reading an event -/

def hexValue (b : UInt8) : ℕ := if b.toNat < 58 then b.toNat - 48 else b.toNat - 55

def unescape : List UInt8 → List UInt8
  | [] => []
  | 37 :: high :: low :: rest => UInt8.ofNat (16 * hexValue high + hexValue low) :: unescape rest
  | b :: rest => b :: unescape rest

/-- The lines that end in a newline. -/
def lines (line : List UInt8) : List UInt8 → List (List UInt8)
  | [] => []
  | b :: rest => if b = 10 then line :: lines [] rest else lines (line ++ [b]) rest

/-- The key is what stands before the first `=`. -/
def readLine (line : List UInt8) : List UInt8 × List UInt8 :=
  (line.takeWhile (· ≠ 61), unescape ((line.dropWhile (· ≠ 61)).drop 1))

/-- What a subscriber reads out of an event. -/
def readEvent (event : List UInt8) : Option (List (List UInt8 × List UInt8)) :=
  match lines [] event with
  | [] => none
  | first :: rest => if first = magic then some (rest.map readLine) else none

/-- What the value of a field says to its reader. -/
def FieldValue.plain : FieldValue → List UInt8
  | .text value => value.bytes
  | .uint64 value => (CString.decimal value).bytes
  | .strv values => separated id values

lemma hexValue_hexDigit {n : ℕ} (h : n < 16) : hexValue (hexDigit n) = n := by
  interval_cases n <;> rfl

lemma hexDigit_toNat {n : ℕ} (h : n < 16) : 48 ≤ (hexDigit n).toNat ∧ (hexDigit n).toNat ≤ 70 := by
  interval_cases n <;> decide

lemma unescape_cons {b : UInt8} (h : b ≠ 37) (rest : List UInt8) : unescape (b :: rest) = b :: unescape rest := by
  rw [unescape]
  rintro _ _ _ rfl -
  exact h rfl

theorem unescape_escapeByte (b : UInt8) (rest : List UInt8) :
    unescape (escapeByte b ++ rest) = b :: unescape rest := by
  have hb := b.toNat_lt
  rw [escapeByte]
  split
  · change UInt8.ofNat (16 * hexValue (hexDigit (b.toNat / 16)) + hexValue (hexDigit (b.toNat % 16))) ::
      unescape rest = _
    rw [hexValue_hexDigit (by omega), hexValue_hexDigit (Nat.mod_lt _ (by decide)), Nat.div_add_mod,
      UInt8.ofNat_toNat]
  · rename_i hplain
    exact unescape_cons (fun h => hplain (.inl h)) rest

theorem unescape_appendValue (value : List UInt8) : unescape (appendValue value) = value := by
  induction value with
  | nil => rfl
  | cons b value ih =>
    change unescape (escapeByte b ++ appendValue value) = _
    rw [unescape_escapeByte, ih]

lemma newline_not_mem_escapeByte (b : UInt8) : (10 : UInt8) ∉ escapeByte b := by
  have hb := b.toNat_lt
  have hne : ∀ n < 16, (10 : UInt8) ≠ hexDigit n := fun n hn h => by
    have := (hexDigit_toNat hn).1
    rw [← h] at this
    simp at this
  rw [escapeByte]
  split
  · simp only [List.mem_cons, List.not_mem_nil, or_false, not_or]
    exact ⟨by decide, hne _ (by omega), hne _ (Nat.mod_lt _ (by decide))⟩
  · rename_i hplain
    rw [List.mem_singleton]
    rintro rfl
    exact hplain (.inr (.inl (by decide)))

lemma newline_not_mem_appendValue (value : List UInt8) : (10 : UInt8) ∉ appendValue value := by
  intro h
  obtain ⟨b, -, hb⟩ := List.mem_flatMap.mp h
  exact newline_not_mem_escapeByte b hb

/-- A list of values is written as its plain text would be, since a blank is not escaped. -/
theorem separated_appendValue (values : List CString) :
    separated appendValue values = appendValue (separated id values) := by
  have hrest : ∀ rest : List CString, (rest.flatMap fun value => 32 :: appendValue value.bytes) =
      appendValue (rest.flatMap fun value => 32 :: value.bytes) := by
    intro rest
    induction rest with
    | nil => rfl
    | cons value rest ih =>
      rw [List.flatMap_cons, List.flatMap_cons, ih, appendValue, appendValue, appendValue, List.flatMap_append,
        List.flatMap_cons]
      rfl
  cases values with
  | nil => rfl
  | cons value values =>
    simp only [separated, hrest, id_eq]
    rw [appendValue, appendValue, appendValue, List.flatMap_append]

lemma appendValue_decimal (n : ℕ) : appendValue (CString.decimal n).bytes = (CString.decimal n).bytes := by
  have hdigits : ∀ bytes : List UInt8, (∀ b ∈ bytes, 48 ≤ b.toNat ∧ b.toNat ≤ 57) → appendValue bytes = bytes := by
    intro bytes h
    induction bytes with
    | nil => rfl
    | cons b bytes ih =>
      have hb := h b List.mem_cons_self
      have hplain : ¬(b = 37 ∨ b < 32 ∨ b = 127) := by
        rintro (rfl | hlt | rfl)
        · simp at hb
        · rw [UInt8.lt_iff_toNat_lt] at hlt
          simp at hlt
          omega
        · simp at hb
      rw [appendValue, List.flatMap_cons, escapeByte, if_neg hplain]
      exact congrArg (b :: ·) (ih fun b' hb' => h b' (List.mem_cons_of_mem _ hb'))
  exact hdigits _ fun b hb => CString.mem_decimalDigits hb

/-- Every kind of field is written as its plain value, escaped. -/
theorem appendField_eq (key : String) (value : FieldValue) :
    appendField key value = ascii key ++ 61 :: appendValue value.plain ++ [10] := by
  cases value with
  | text value => rfl
  | uint64 value => rw [appendField, FieldValue.plain, appendValue_decimal]
  | strv values => rw [appendField, FieldValue.plain, separated_appendValue]

/-! ## Lines -/

theorem lines_append {line : List UInt8} (h : (10 : UInt8) ∉ line) (start rest : List UInt8) :
    lines start (line ++ 10 :: rest) = (start ++ line) :: lines [] rest := by
  induction line generalizing start with
  | nil => simp [lines]
  | cons b line ih =>
    rw [List.mem_cons, not_or] at h
    rw [List.cons_append, lines, if_neg (Ne.symm h.1), ih h.2, List.append_assoc]
    rfl

/-- A key that a subscriber can tell from its value and from its line. -/
def KeyOk (key : String) : Prop := (10 : UInt8) ∉ ascii key ∧ (61 : UInt8) ∉ ascii key

theorem readLine_field {key : String} (h : KeyOk key) (value : List UInt8) :
    readLine (ascii key ++ 61 :: appendValue value) = (ascii key, value) := by
  have hkey : ∀ b ∈ ascii key, decide (b ≠ 61) = true := by
    intro b hb
    rw [decide_eq_true_iff]
    rintro rfl
    exact h.2 hb
  rw [readLine, List.takeWhile_append_of_pos hkey, List.dropWhile_append_of_pos hkey]
  simp [unescape_appendValue]

theorem lines_fields (fields : Fields) (h : ∀ field ∈ fields, KeyOk field.1) :
    (lines [] (fields.flatMap fun field => appendField field.1 field.2)).map readLine =
      fields.map fun field => (ascii field.1, field.2.plain) := by
  induction fields with
  | nil => rfl
  | cons field fields ih =>
    have hkey := h field List.mem_cons_self
    have hline : (10 : UInt8) ∉ ascii field.1 ++ 61 :: appendValue field.2.plain := by
      simp only [List.mem_append, List.mem_cons, not_or]
      exact ⟨hkey.1, by decide, newline_not_mem_appendValue _⟩
    rw [List.flatMap_cons, appendField_eq, List.append_assoc, List.singleton_append, lines_append hline,
      List.map_cons, List.map_cons, List.nil_append, readLine_field hkey,
      ih fun field' hfield => h field' (List.mem_cons_of_mem _ hfield)]

theorem readEvent_finishEvent (fields : Fields) (h : ∀ field ∈ fields, KeyOk field.1) :
    readEvent (finishEvent fields) = some (fields.map fun field => (ascii field.1, field.2.plain)) := by
  rw [readEvent, finishEvent, lines_append (by decide)]
  simp only [List.nil_append, if_true, lines_fields fields h]

/-! ## What an event says -/

section
variable {record : Record} {account : CString}

lemma projectPayload_eq_some {ε α : Type} {reason : ε → List UInt8} {decode : List UInt8 → Except ε α}
    {owner : α → Option CString} {fields : α → Fields} {found : Fields}
    (h : projectPayload reason decode owner fields record account = .ok (some found)) :
    ∃ payload, decode record.payload = .ok payload ∧ owner payload = some account ∧
      found = newEvent record account ++ fields payload := by
  rw [projectPayload] at h
  cases hdecode : decode record.payload with
  | error error =>
    rw [hdecode] at h
    cases h
  | ok payload =>
    simp only [hdecode] at h
    by_cases howner : owner payload = some account
    · rw [if_neg (not_not.mpr howner)] at h
      cases h
      exact ⟨payload, rfl, howner, rfl⟩
    · rw [if_pos howner] at h
      cases h

/-- The payloads that make events, and the fields they add. -/
inductive Told (record : Record) (account : CString) : Fields → Prop where
  | delivery (payload : MessageDelivered) (hevent : record.eventType = .messageDelivered)
      (hdecode : MessageDeliveredPayload.decodePayload record.payload = .ok payload)
      (howner : payload.accountIdentity = some account) : Told record account (deliveryFields payload)
  | flagChange (payload : FlagChanged) (hevent : record.eventType = .flagChanged)
      (hdecode : FlagChangedPayload.decodePayload record.payload = .ok payload)
      (howner : payload.accountId = account) : Told record account (flagChangeFields payload)
  | membership (payload : DerivedViewMembershipChanged) (hevent : record.eventType = .derivedViewMembershipChanged)
      (hdecode : DerivedViewPayload.decodePayload record.payload = .ok payload)
      (howner : payload.accountId = account) : Told record account (derivedViewMembershipFields payload)

theorem projectFields_eq_some {found : Fields} (h : projectFields record account = .ok (some found)) :
    ∃ fields, Told record account fields ∧ found = newEvent record account ++ fields := by
  cases hevent : record.eventType with
  | messageDelivered =>
    rw [projectFields, hevent] at h
    obtain ⟨payload, hdecode, howner, hfound⟩ := projectPayload_eq_some h
    exact ⟨_, .delivery payload hevent hdecode howner, hfound⟩
  | flagChanged =>
    rw [projectFields, hevent] at h
    obtain ⟨payload, hdecode, howner, hfound⟩ := projectPayload_eq_some h
    exact ⟨_, .flagChange payload hevent hdecode (Option.some.inj howner), hfound⟩
  | derivedViewMembershipChanged =>
    rw [projectFields, hevent] at h
    obtain ⟨payload, hdecode, howner, hfound⟩ := projectPayload_eq_some h
    exact ⟨_, .membership payload hevent hdecode (Option.some.inj howner), hfound⟩
  | keywordChanged | factInserted | factRetracted | daemonAuditRecorded | factsExtracted | membershipsExpunged
  | membershipsCopied | membershipsMoved | messageAppended =>
    rw [projectFields, hevent] at h
    cases h

lemma newEvent_keys : ∀ field ∈ newEvent record account, KeyOk field.1 := by
  simp only [newEvent, KeyOk, List.forall_mem_cons, List.not_mem_nil, false_implies, implies_true, and_true]
  decide

lemma Told.keys {fields : Fields} (h : Told record account fields) : ∀ field ∈ fields, KeyOk field.1 := by
  cases h with
  | delivery payload hevent hdecode howner =>
    cases hid : payload.deliveryId <;>
    · simp only [deliveryFields, KeyOk, hid, Option.map_none, Option.map_some, Option.toList_none,
        Option.toList_some, List.nil_append, List.singleton_append, List.forall_mem_cons, List.not_mem_nil, false_implies, implies_true,
        and_true]
      decide
  | flagChange payload hevent hdecode howner =>
    simp only [flagChangeFields, KeyOk, List.forall_mem_cons, List.not_mem_nil, false_implies, implies_true, and_true]
    decide
  | membership payload hevent hdecode howner =>
    simp only [derivedViewMembershipFields, KeyOk, List.forall_mem_cons, List.not_mem_nil, false_implies,
      implies_true, and_true]
    decide

/-- Whatever bytes the values hold, a subscriber reads the fields of the record back, each under its key and no
    other: where the record lies, and what its payload says. -/
theorem event_exact {event : List UInt8} (h : project record account = .ok (some event)) :
    ∃ fields, Told record account fields ∧ readEvent event =
      some ((newEvent record account ++ fields).map fun field => (ascii field.1, field.2.plain)) := by
  rw [project] at h
  cases hfields : projectFields record account with
  | error error =>
    rw [hfields] at h
    cases h
  | ok found =>
    rw [hfields] at h
    cases found with
    | none => cases h
    | some found =>
      obtain ⟨fields, htold, rfl⟩ := projectFields_eq_some hfields
      cases h
      refine ⟨fields, htold, readEvent_finishEvent _ fun field hfield => ?_⟩
      rcases List.mem_append.mp hfield with hnew | htail
      · exact newEvent_keys field hnew
      · exact htold.keys field htail

end

/-- A message enters a view whose name ends a line and starts another. -/
def forgingFields : DerivedViewPayload.Fields :=
  ⟨some (.literal "a"), some (.literal "v\nuid=9"), some (.literal "m"), some (.literal "k"), some (.literal "h"),
    7, 1, true, 5⟩

def forgingRecord : Record := ⟨0, 1, .derivedViewMembershipChanged, DerivedViewPayload.layout forgingFields⟩

def forgingEvent : List UInt8 :=
  ascii ("wyrebox-mail-event/1\noffset=0\nsequence=1\nevent_type=DerivedViewMembershipChanged\naccount=a\n" ++
    "view_id=v%0Auid=9\nuidvalidity=1\nuid=7\nmessage_id=m\nis_visible=true\n")

set_option maxRecDepth 8192 in
lemma project_forgingRecord : project forgingRecord (.literal "a") = .ok (some forgingEvent) := by
  rfl

theorem event_exact_forging : ∃ fields, Told forgingRecord (.literal "a") fields ∧ readEvent forgingEvent =
    some ((newEvent forgingRecord (.literal "a") ++ fields).map fun field => (ascii field.1, field.2.plain)) :=
  event_exact project_forgingRecord

end Wyrebox.MailEvent
