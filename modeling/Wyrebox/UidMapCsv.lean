import Mathlib.Data.List.Sort
import Wyrebox.Csv
import Wyrebox.NumberText

set_option autoImplicit false

/-!
# The UID map on the wire

The daemon answers the UID map query with CSV, and the Dovecot client reads its rows again.
-/
namespace Wyrebox.UidMapCsv
open CString Csv

/-! ## The daemon's answer -/

/-- A visible membership of a mailbox as the UID map query joins it. Both numbers are `UBIGINT`. -/
structure MailboxRow where
  accountId : CString
  mailboxId : CString
  uidvalidity : ℕ
  uid : ℕ
  messageId : CString
  objectId : CString
  systemFlags : List CString
  userKeywords : List CString
  uidvalidity_fits : uidvalidity < 2 ^ 64
  uid_fits : uid < 2 ^ 64

/-- A visible membership of a view. -/
structure ViewRow where
  accountId : CString
  viewId : CString
  uidvalidity : ℕ
  uid : ℕ
  messageId : CString
  objectId : CString
  ruleVersionHash : CString
  uidvalidity_fits : uidvalidity < 2 ^ 64
  uid_fits : uid < 2 ^ 64

/-- `ORDER BY attr.rank, attr.name`. -/
def MailboxRow.attributes (row : MailboxRow) : List CString :=
  row.systemFlags.insertionSort (fun a b => a.Le b) ++ row.userKeywords.insertionSort fun a b => a.Le b

/-- `string_agg` with a space, and `''` where it is `NULL`. -/
def joinNames (names : List CString) : Field := List.intercalate [32] (names.map CString.bytes)

/-- `duckdb_query_template_append_uid_map_row`. -/
def mailboxFields (row : MailboxRow) : List Field :=
  [row.accountId.bytes, row.mailboxId.bytes, (decimal row.uidvalidity).bytes, (decimal row.uid).bytes,
    row.messageId.bytes, row.objectId.bytes, joinNames row.attributes]

/-- `duckdb_query_template_append_derived_view_uid_map_row`. -/
def viewFields (row : ViewRow) : List Field :=
  [row.accountId.bytes, row.viewId.bytes, (decimal row.uidvalidity).bytes, (decimal row.uid).bytes,
    row.messageId.bytes, row.objectId.bytes, row.ruleVersionHash.bytes]

def mailboxColumns : List CString :=
  [literal "account_id", literal "mailbox_id", literal "uidvalidity", literal "uid", literal "message_id",
    literal "object_id", literal "flags"]

def viewColumns : List CString :=
  [literal "account_id", literal "view_id", literal "uidvalidity", literal "uid", literal "message_id",
    literal "object_id", literal "rule_version_hash"]

/-- `duckdb_query_template_build_csv_header`. -/
def buildCsvHeader (columns : List CString) : List UInt8 := List.intercalate [44] (columns.map CString.bytes) ++ [10]

/-- `mailbox.uid_map.v1`. -/
def mailboxCsv (rows : List MailboxRow) : List UInt8 :=
  buildCsvHeader mailboxColumns ++ write (rows.map mailboxFields)

/-- `derived_view.uid_map.v1`. -/
def viewCsv (rows : List ViewRow) : List UInt8 := buildCsvHeader viewColumns ++ write (rows.map viewFields)

/-! ## The client -/

/-- `WyreboxDovecotMailboxUidMapRow`. -/
structure SnapshotRow where
  accountId : Field
  mailboxId : Field
  uidValidity : ℕ
  uid : ℕ
  messageId : Field
  objectId : Field
  flags : List Field
  deriving DecidableEq

inductive RowError where
  | headerInvalid
  | columnCount
  | flagsNotSingleSpaced
  | accountMismatch
  | mailboxMismatch
  | emptyInteger
  | invalidInteger
  | uidvalidityMismatch
  | uidZero
  | messageIdEmpty
  | objectIdEmpty
  | ruleVersionHashEmpty
  deriving DecidableEq

/-- What the request was for. -/
structure Expected where
  accountId : CString
  mailboxId : CString
  isDerivedView : Bool
  uidValidity : ℕ

/-- `parse_uid_map_uint64`. -/
def parseUint64 (value : Field) : Except RowError ℕ :=
  if value.isEmpty then .error .emptyInteger
  else match strtoull value with
    | some (n, []) => .ok n
    | _ => .error .invalidInteger

/-- `parse_uid_map_flags`. -/
def parseFlags (value : Field) : Except RowError (List Field) :=
  if value.isEmpty then .ok []
  else
    let flags := value.splitOn 32
    if flags.any List.isEmpty then .error .flagsNotSingleSpaced else .ok flags

def check (c : Prop) [Decidable c] (error : RowError) : Except RowError Unit := if c then .ok () else .error error

@[simp] lemma check_eq_ok {c : Prop} [Decidable c] {error : RowError} {u : Unit} : check c error = .ok u ↔ c := by
  simp [check]

/-- The rows of a view have no flags. -/
def rowFlags (expected : Expected) (last : Field) : Except RowError (List Field) :=
  if expected.isDerivedView then .ok [] else parseFlags last

/-- `append_uid_map_row_from_csv_fields`. -/
def parseRow (expected : Expected) : List Field → Except RowError SnapshotRow
  | [accountId, mailboxId, uidValidity, uid, messageId, objectId, last] => do
    let flags ← rowFlags expected last
    check (accountId = expected.accountId.bytes) .accountMismatch
    check (mailboxId = expected.mailboxId.bytes) .mailboxMismatch
    let parsedUidValidity ← parseUint64 uidValidity
    check (parsedUidValidity = expected.uidValidity) .uidvalidityMismatch
    let parsedUid ← parseUint64 uid
    check (parsedUid ≠ 0) .uidZero
    check (messageId ≠ []) .messageIdEmpty
    check (objectId ≠ []) .objectIdEmpty
    check (¬(expected.isDerivedView = true ∧ last = [])) .ruleVersionHashEmpty
    .ok ⟨accountId, mailboxId, parsedUidValidity, parsedUid, messageId, objectId, flags⟩
  | _ => .error .columnCount

def expectedColumns (expected : Expected) : List CString :=
  if expected.isDerivedView then viewColumns else mailboxColumns

/-- `append_uid_map_record`. The first record is the header. -/
def appendRecord (expected : Expected) (state : Bool × List SnapshotRow) (fields : List Field) :
    Except RowError (Bool × List SnapshotRow) :=
  if !state.1 then
    if fields = (expectedColumns expected).map CString.bytes then .ok (true, state.2) else .error .headerInvalid
  else (parseRow expected fields).map fun row => (true, state.2 ++ [row])

inductive ParseError where
  | csv (error : ReadError RowError)
  | headerMissing
  deriving DecidableEq

/-- `parse_uid_map_csv_rows`. -/
def parseUidMapCsvRows (expected : Expected) (csv : List UInt8) : Except ParseError (List SnapshotRow) :=
  match read (appendRecord expected) (false, []) csv with
  | .error error => .error (.csv error)
  | .ok (true, rows) => .ok rows
  | .ok (false, _) => .error .headerMissing

/-! ## Records -/

section
variable {expected : Expected}

lemma buildCsvHeader_eq (expected : Expected) : buildCsvHeader (expectedColumns expected) =
    writeRecord ((expectedColumns expected).map CString.bytes) := by
  rw [expectedColumns]
  split <;> decide

lemma appendRecord_rows (records : List (List Field)) (rows : List SnapshotRow) :
    records.foldlM (appendRecord expected) (true, rows) =
      (records.mapM (parseRow expected)).map fun parsed => (true, rows ++ parsed) := by
  induction records generalizing rows with
  | nil => simp [pure, Except.pure, Except.map]
  | cons fields records ih =>
    rw [List.foldlM_cons, List.mapM_cons, appendRecord]
    cases parseRow expected fields with
    | error error => rfl
    | ok row =>
      have hrest := ih (rows ++ [row])
      simp only [Except.map, bind, Except.bind, Bool.not_true, Bool.false_eq_true, if_false] at hrest ⊢
      rw [hrest]
      cases records.mapM (parseRow expected) <;> simp [pure, Except.pure]

/-- Whatever bytes the fields of the answer hold, the client reads each row from its own fields. -/
theorem parse_write (records : List (List Field)) (hne : ∀ fields ∈ records, fields ≠ []) :
    parseUidMapCsvRows expected (buildCsvHeader (expectedColumns expected) ++ write records) =
      (records.mapM (parseRow expected)).mapError fun error => .csv (.record error) := by
  have hwrite : buildCsvHeader (expectedColumns expected) ++ write records =
      write ((expectedColumns expected).map CString.bytes :: records) := by
    rw [buildCsvHeader_eq, write, write, List.flatMap_cons]
  have hnonempty : ∀ fields ∈ (expectedColumns expected).map CString.bytes :: records, fields ≠ [] := by
    intro fields h
    rcases List.mem_cons.mp h with rfl | h
    · rw [expectedColumns]
      split <;> simp [viewColumns, mailboxColumns]
    · exact hne fields h
  have hheader : appendRecord expected (false, []) ((expectedColumns expected).map CString.bytes) = .ok (true, []) := by
    simp [appendRecord]
  rw [parseUidMapCsvRows, hwrite, read_write _ _ hnonempty, List.foldlM_cons, hheader]
  change (match lift (records.foldlM (appendRecord expected) (true, [])) with
    | .error error => _ | .ok (true, rows) => _ | .ok (false, _) => _) = _
  rw [appendRecord_rows]
  cases records.mapM (parseRow expected) <;> rfl

/-! ## Round trips -/

lemma parseUint64_decimal {n : ℕ} (hn : n < 2 ^ 64) : parseUint64 (decimal n).bytes = .ok n := by
  have hread : strtoull (decimal n).bytes = some (n, []) := numeral_decimal hn
  simp [parseUint64, hread, decimal_ne_nil]

lemma not_mem_of_mem_splitOn {text piece : Field} (h : piece ∈ text.splitOn 32) : 32 ∉ piece := by
  induction text generalizing piece with
  | nil => simp_all [List.splitOn_nil]
  | cons b text ih =>
    rw [List.splitOn_cons_eq_if_modifyHead] at h
    split at h
    · rcases List.mem_cons.mp h with rfl | h
      · simp
      · exact ih h
    case isFalse hb =>
      cases hsplit : text.splitOn 32 with
      | nil => exact absurd hsplit (List.splitOn_ne_nil _ _)
      | cons first others =>
        rw [hsplit] at ih h
        rw [List.modifyHead_cons] at h
        rcases List.mem_cons.mp h with rfl | h
        · have hfirst := ih (List.mem_cons_self ..)
          simp only [beq_iff_eq] at hb
          simp [hfirst, Ne.symm hb]
        · exact ih (List.mem_cons_of_mem _ h)

/-- Names survive if none is empty and none has a space in it. -/
def Spaceless (names : List CString) : Prop := ∀ name ∈ names, name ≠ .empty ∧ 32 ∉ name.bytes

lemma bytes_eq_nil {s : CString} : s.bytes = [] ↔ s = .empty :=
  ⟨fun h => CString.ext h, fun h => h ▸ rfl⟩

lemma joinNames_eq_nil {names : List CString} (h : joinNames names = []) : names = [] ∨ names = [.empty] := by
  cases names with
  | nil => exact .inl rfl
  | cons name names =>
    cases names with
    | nil =>
      have hname : name.bytes = [] := by simpa [joinNames] using h
      exact .inr (by rw [bytes_eq_nil.mp hname])
    | cons next names =>
      rw [joinNames, List.map_cons, List.map_cons, List.intercalate_cons_cons] at h
      simp at h

theorem parseFlags_joinNames {names : List CString} :
    parseFlags (joinNames names) = .ok (names.map CString.bytes) ↔ Spaceless names := by
  constructor
  · intro h
    rw [parseFlags] at h
    split at h
    case isTrue hempty =>
      have hnames : names = [] := by simpa using (Except.ok.inj h).symm
      simp [hnames, Spaceless]
    case isFalse hempty =>
      dsimp only at h
      split at h
      · cases h
      case isFalse hany =>
        have hsplit : (joinNames names).splitOn 32 = names.map CString.bytes := Except.ok.inj h
        intro name hname
        have hmem : name.bytes ∈ (joinNames names).splitOn 32 := hsplit ▸ List.mem_map_of_mem hname
        refine ⟨?_, not_mem_of_mem_splitOn hmem⟩
        rintro rfl
        exact hany (List.any_eq_true.mpr ⟨_, hmem, rfl⟩)
  · intro h
    cases names with
    | nil => rfl
    | cons name names =>
      have hne : (name :: names).map CString.bytes ≠ [] := by simp
      have hspace : ∀ piece ∈ (name :: names).map CString.bytes, (32 : UInt8) ∉ piece := by
        intro piece hpiece
        obtain ⟨name', hname', rfl⟩ := List.mem_map.mp hpiece
        exact (h name' hname').2
      have hsplit : (joinNames (name :: names)).splitOn 32 = (name :: names).map CString.bytes :=
        List.splitOn_intercalate 32 hspace hne
      have hjoin : joinNames (name :: names) ≠ [] := by
        intro hnil
        rcases joinNames_eq_nil hnil with heq | heq
        · cases heq
        · exact (h name (List.mem_cons_self ..)).1 (List.cons.inj heq).1
      have hany : ((name :: names).map CString.bytes).any List.isEmpty = false := by
        simp only [List.any_eq_false, List.mem_map, List.isEmpty_iff]
        rintro piece ⟨name', hname', rfl⟩ hnil
        exact (h name' hname').1 (bytes_eq_nil.mp hnil)
      rw [parseFlags, if_neg (by simpa using hjoin), hsplit]
      simp only [hany, Bool.false_eq_true, if_false]

/-- The row as the client is to have it. -/
def MailboxRow.snapshot (row : MailboxRow) : SnapshotRow :=
  ⟨row.accountId.bytes, row.mailboxId.bytes, row.uidvalidity, row.uid, row.messageId.bytes, row.objectId.bytes,
    row.attributes.map CString.bytes⟩

/-- The client knows no flags of a view's messages. -/
def ViewRow.snapshot (row : ViewRow) : SnapshotRow :=
  ⟨row.accountId.bytes, row.viewId.bytes, row.uidvalidity, row.uid, row.messageId.bytes, row.objectId.bytes, []⟩

/-- What the client requires of a row. -/
structure MailboxRow.Accepted (row : MailboxRow) : Prop where
  uid : row.uid ≠ 0
  message : row.messageId ≠ .empty
  object : row.objectId ≠ .empty
  names : Spaceless row.attributes

structure ViewRow.Accepted (row : ViewRow) : Prop where
  uid : row.uid ≠ 0
  message : row.messageId ≠ .empty
  object : row.objectId ≠ .empty
  ruleVersion : row.ruleVersionHash ≠ .empty

/-- A row of seven fields is read as one that has them, if they pass. -/
structure RowRead (expected : Expected) (accountId mailboxId uidValidity uid messageId objectId last : Field)
    (row : SnapshotRow) : Prop where
  flags : rowFlags expected last = .ok row.flags
  account : accountId = expected.accountId.bytes
  mailbox : mailboxId = expected.mailboxId.bytes
  validity : parseUint64 uidValidity = .ok expected.uidValidity
  uid : parseUint64 uid = .ok row.uid
  uid_ne : row.uid ≠ 0
  message_ne : messageId ≠ []
  object_ne : objectId ≠ []
  ruleVersion : ¬(expected.isDerivedView = true ∧ last = [])
  row : row = ⟨accountId, mailboxId, expected.uidValidity, row.uid, messageId, objectId, row.flags⟩

lemma parseRow_eq_ok {accountId mailboxId uidValidity uid messageId objectId last : Field} {row : SnapshotRow} :
    parseRow expected [accountId, mailboxId, uidValidity, uid, messageId, objectId, last] = .ok row ↔
      RowRead expected accountId mailboxId uidValidity uid messageId objectId last row := by
  simp only [parseRow, Fallible.bind_eq_ok, check_eq_ok]
  constructor
  · rintro ⟨flags, hflags, -, haccount, -, hmailbox, validity, hvalidity, -, rfl, n, huid, -, huid0, -, hmessage, -,
      hobject, -, hrule, hrow⟩
    obtain rfl := Except.ok.inj hrow
    exact ⟨hflags, haccount, hmailbox, hvalidity, huid, huid0, hmessage, hobject, hrule, rfl⟩
  · intro h
    exact ⟨row.flags, h.flags, (), h.account, (), h.mailbox, _, h.validity, (), rfl, row.uid, h.uid, (), h.uid_ne, (),
      h.message_ne, (), h.object_ne, (), h.ruleVersion, congrArg _ h.row.symm⟩

lemma parseRow_mailbox {row : MailboxRow} (hkind : expected.isDerivedView = false)
    (haccount : row.accountId = expected.accountId) (hmailbox : row.mailboxId = expected.mailboxId)
    (hvalidity : row.uidvalidity = expected.uidValidity) :
    parseRow expected (mailboxFields row) = .ok row.snapshot ↔ row.Accepted := by
  rw [mailboxFields, parseRow_eq_ok]
  constructor
  · intro h
    have hflags : parseFlags (joinNames row.attributes) = .ok (row.attributes.map CString.bytes) := by
      simpa [rowFlags, hkind, MailboxRow.snapshot] using h.flags
    exact ⟨h.uid_ne, fun heq => h.message_ne (bytes_eq_nil.mpr heq), fun heq => h.object_ne (bytes_eq_nil.mpr heq),
      parseFlags_joinNames.mp hflags⟩
  · intro h
    refine ⟨?_, congrArg bytes haccount, congrArg bytes hmailbox, hvalidity ▸ parseUint64_decimal row.uidvalidity_fits,
      parseUint64_decimal row.uid_fits, h.uid, fun heq => h.message (bytes_eq_nil.mp heq),
      fun heq => h.object (bytes_eq_nil.mp heq), by simp [hkind], ?_⟩
    · have hflags := parseFlags_joinNames.mpr h.names
      simpa [rowFlags, hkind, MailboxRow.snapshot] using hflags
    · rw [← hvalidity]
      rfl

lemma parseRow_view {row : ViewRow} (hkind : expected.isDerivedView = true)
    (haccount : row.accountId = expected.accountId) (hview : row.viewId = expected.mailboxId)
    (hvalidity : row.uidvalidity = expected.uidValidity) :
    parseRow expected (viewFields row) = .ok row.snapshot ↔ row.Accepted := by
  rw [viewFields, parseRow_eq_ok]
  constructor
  · intro h
    exact ⟨h.uid_ne, fun heq => h.message_ne (bytes_eq_nil.mpr heq), fun heq => h.object_ne (bytes_eq_nil.mpr heq),
      fun heq => h.ruleVersion ⟨hkind, bytes_eq_nil.mpr heq⟩⟩
  · intro h
    refine ⟨by simp [rowFlags, hkind, ViewRow.snapshot], congrArg bytes haccount, congrArg bytes hview,
      hvalidity ▸ parseUint64_decimal row.uidvalidity_fits, parseUint64_decimal row.uid_fits, h.uid,
      fun heq => h.message (bytes_eq_nil.mp heq), fun heq => h.object (bytes_eq_nil.mp heq),
      fun heq => h.ruleVersion (bytes_eq_nil.mp heq.2), ?_⟩
    rw [← hvalidity]
    rfl

lemma mapM_map_eq_ok {α : Type} {f : List Field → Except RowError SnapshotRow} {fields : α → List Field}
    {snapshot : α → SnapshotRow} {rows : List α} :
    (rows.map fields).mapM f = .ok (rows.map snapshot) ↔ ∀ row ∈ rows, f (fields row) = .ok (snapshot row) := by
  rw [Fallible.mapM_eq_ok, List.forall₂_map_left_iff, List.forall₂_map_right_iff, List.forall₂_same]

lemma mapError_eq_ok {α : Type} {result : Except RowError α} {value : α} :
    result.mapError (fun error => ParseError.csv (.record error)) = .ok value ↔ result = .ok value := by
  cases result <;> simp [Except.mapError]

end

section
variable {expected : Expected}

theorem mailbox_round_trip {rows : List MailboxRow} (hkind : expected.isDerivedView = false)
    (hrows : ∀ row ∈ rows, row.accountId = expected.accountId ∧ row.mailboxId = expected.mailboxId ∧
      row.uidvalidity = expected.uidValidity) :
    parseUidMapCsvRows expected (mailboxCsv rows) = .ok (rows.map MailboxRow.snapshot) ↔ ∀ row ∈ rows, row.Accepted := by
  have hcolumns : expectedColumns expected = mailboxColumns := by simp [expectedColumns, hkind]
  have hne : ∀ fields ∈ rows.map mailboxFields, fields ≠ [] := by simp [mailboxFields]
  rw [mailboxCsv, ← hcolumns, parse_write _ hne, mapError_eq_ok, mapM_map_eq_ok]
  refine forall₂_congr fun row hrow => ?_
  exact parseRow_mailbox hkind (hrows row hrow).1 (hrows row hrow).2.1 (hrows row hrow).2.2

theorem view_round_trip {rows : List ViewRow} (hkind : expected.isDerivedView = true)
    (hrows : ∀ row ∈ rows, row.accountId = expected.accountId ∧ row.viewId = expected.mailboxId ∧
      row.uidvalidity = expected.uidValidity) :
    parseUidMapCsvRows expected (viewCsv rows) = .ok (rows.map ViewRow.snapshot) ↔ ∀ row ∈ rows, row.Accepted := by
  have hcolumns : expectedColumns expected = viewColumns := by simp [expectedColumns, hkind]
  have hne : ∀ fields ∈ rows.map viewFields, fields ≠ [] := by simp [viewFields]
  rw [viewCsv, ← hcolumns, parse_write _ hne, mapError_eq_ok, mapM_map_eq_ok]
  refine forall₂_congr fun row hrow => ?_
  exact parseRow_view hkind (hrows row hrow).1 (hrows row hrow).2.1 (hrows row hrow).2.2

end

/-- The client reads the rows that the daemon wrote, exactly when it accepts each of them. -/
theorem uid_map_round_trip :
    (∀ (expected : Expected) (rows : List MailboxRow), expected.isDerivedView = false →
      (∀ row ∈ rows, row.accountId = expected.accountId ∧ row.mailboxId = expected.mailboxId ∧
        row.uidvalidity = expected.uidValidity) →
      (parseUidMapCsvRows expected (mailboxCsv rows) = .ok (rows.map MailboxRow.snapshot) ↔
        ∀ row ∈ rows, row.Accepted)) ∧
    ∀ (expected : Expected) (rows : List ViewRow), expected.isDerivedView = true →
      (∀ row ∈ rows, row.accountId = expected.accountId ∧ row.viewId = expected.mailboxId ∧
        row.uidvalidity = expected.uidValidity) →
      (parseUidMapCsvRows expected (viewCsv rows) = .ok (rows.map ViewRow.snapshot) ↔ ∀ row ∈ rows, row.Accepted) :=
  ⟨fun _ _ hkind hrows => mailbox_round_trip hkind hrows, fun _ _ hkind hrows => view_round_trip hkind hrows⟩

def sampleRow : MailboxRow :=
  ⟨literal "a", literal "b", 1, 1, literal "m", literal "o", [], [literal "x y"], by decide, by decide⟩

def sampleExpected : Expected := ⟨literal "a", literal "b", false, 1⟩

/-- A keyword with a space in it comes back as two. -/
theorem keyword_split : ¬∀ (expected : Expected) (rows : List MailboxRow), expected.isDerivedView = false →
    (∀ row ∈ rows, row.accountId = expected.accountId ∧ row.mailboxId = expected.mailboxId ∧
      row.uidvalidity = expected.uidValidity) →
    parseUidMapCsvRows expected (mailboxCsv rows) = .ok (rows.map MailboxRow.snapshot) := by
  intro h
  have hrows : ∀ row ∈ [sampleRow], row.accountId = sampleExpected.accountId ∧ row.mailboxId = sampleExpected.mailboxId ∧
      row.uidvalidity = sampleExpected.uidValidity := by simp [sampleRow, sampleExpected]
  have haccepted := (mailbox_round_trip rfl hrows).mp (h sampleExpected [sampleRow] rfl hrows)
  have hnames := (haccepted sampleRow (List.mem_singleton_self _)).names (literal "x y")
    (by simp [MailboxRow.attributes, sampleRow])
  exact hnames.2 (by decide)

end Wyrebox.UidMapCsv
