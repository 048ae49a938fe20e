import Wyrebox.CString
import Wyrebox.CsvGrammar

set_option autoImplicit false

/-!
# Derived memberships as CSV

Two columns, a view and a message, both of which must have a value.
-/
namespace Wyrebox.MembershipCsv
open Csv

/-- `WyreboxWirelogDerivedMembership`. -/
structure DerivedMembership where
  viewId : Field
  messageId : Field
  deriving DecidableEq

inductive RowError where
  | columnCount
  | emptyViewId
  | emptyMessageId
  deriving DecidableEq

inductive ParseError where
  | textRequired
  | csv (error : ReadError RowError)
  deriving DecidableEq

def ParseError.message : ParseError → String
  | .textRequired => "Derived membership CSV text is required"
  | .csv .malformedQuotedField => "Malformed derived membership CSV quoted field"
  | .csv .malformedQuote => "Malformed derived membership CSV quote"
  | .csv .unterminated => "Malformed derived membership CSV unterminated quoted field"
  | .csv (.record .columnCount) => "Derived membership CSV row must have exactly two columns"
  | .csv (.record .emptyViewId) => "Derived membership CSV row has an empty view_id"
  | .csv (.record .emptyMessageId) => "Derived membership CSV row has an empty message_id"

/-- `append_record`. -/
def appendRecord (memberships : List DerivedMembership) : List Field → Except RowError (List DerivedMembership)
  | [viewId, messageId] =>
    if viewId = [] then .error .emptyViewId
    else if messageId = [] then .error .emptyMessageId
    else .ok (memberships ++ [⟨viewId, messageId⟩])
  | _ => .error .columnCount

/-- `wyrebox_wirelog_derived_membership_parse_csv`. -/
def parseCsv : Option CString → Except ParseError (List DerivedMembership)
  | none => .error .textRequired
  | some csv => (read appendRecord [] csv.bytes).mapError .csv

def DerivedMembership.fields (m : DerivedMembership) : List Field := [m.viewId, m.messageId]

/-- Both columns have a value. -/
def DerivedMembership.Named (m : DerivedMembership) : Prop := m.viewId ≠ [] ∧ m.messageId ≠ []

instance (m : DerivedMembership) : Decidable m.Named := inferInstanceAs (Decidable (_ ∧ _))

/-- A writer that ends every record with `CRLF` and quotes what it must. -/
def writeCrlf (records : List (List Field)) : List UInt8 :=
  records.flatMap fun values => List.intercalate [44] (values.map appendValue) ++ [13, 10]

section
variable {acc memberships : List DerivedMembership} {records : List (List Field)}

lemma appendRecord_eq_ok {values : List Field} (h : appendRecord acc values = .ok memberships) :
    ∃ m : DerivedMembership, m.Named ∧ values = m.fields ∧ memberships = acc ++ [m] := by
  unfold appendRecord at h
  split at h
  · rename_i viewId messageId
    split_ifs at h with hview hmessage
    cases h
    exact ⟨⟨viewId, messageId⟩, ⟨hview, hmessage⟩, rfl, rfl⟩
  · cases h

lemma appendRecord_fields {m : DerivedMembership} (h : m.Named) : appendRecord acc m.fields = .ok (acc ++ [m]) := by
  simp [appendRecord, DerivedMembership.fields, h.1, h.2]

/-- The records are those of the memberships that were added, in order. -/
lemma foldlM_appendRecord :
    records.foldlM appendRecord acc = .ok memberships ↔
      ∃ added : List DerivedMembership, (∀ m ∈ added, m.Named) ∧ records = added.map DerivedMembership.fields ∧
        memberships = acc ++ added := by
  induction records generalizing acc with
  | nil =>
    constructor
    · intro h
      exact ⟨[], by simp, rfl, by simpa using (Except.ok.inj h).symm⟩
    · rintro ⟨added, -, hadded, rfl⟩
      rw [List.map_eq_nil_iff.mp hadded.symm, List.append_nil]
      rfl
  | cons values records ih =>
    rw [List.foldlM_cons]
    constructor
    · intro h
      obtain ⟨acc', hvalues, hrecords⟩ := Fallible.bind_eq_ok.mp h
      obtain ⟨m, hnamed, rfl, rfl⟩ := appendRecord_eq_ok hvalues
      obtain ⟨added, hadded, rfl, rfl⟩ := ih.mp hrecords
      exact ⟨m :: added, by simpa using ⟨hnamed, hadded⟩, rfl, by simp⟩
    · rintro ⟨added, hnamed, hadded, rfl⟩
      cases added with
      | nil => cases hadded
      | cons m added =>
        obtain ⟨rfl, rfl⟩ := List.cons.inj hadded
        rw [appendRecord_fields (hnamed m (List.mem_cons_self ..))]
        exact ih.mpr ⟨added, fun m' hm' => hnamed m' (List.mem_cons_of_mem _ hm'), rfl, by simp⟩

lemma fieldText_appendValue (value : Field) : FieldText value (appendValue value) := by
  rw [appendValue]
  split
  · exact .quoted
  · rename_i hplain
    exact .plain (Bool.not_eq_true _ ▸ hplain)

lemma spells_writeCrlf (memberships : List DerivedMembership) :
    Spells Crlf (memberships.map DerivedMembership.fields) (writeCrlf (memberships.map DerivedMembership.fields)) := by
  induction memberships with
  | nil => exact .nil
  | cons m memberships ih =>
    have hrecord := RecordText.cons (fieldText_appendValue m.viewId) (.last (fieldText_appendValue m.messageId))
    have hcons := Spells.cons hrecord (show Crlf [13, 10] from rfl) ih
    simpa [writeCrlf, DerivedMembership.fields, List.intercalate] using hcons

lemma fields_ne (m : DerivedMembership) : m.fields ≠ [[]] := by simp [DerivedMembership.fields]

lemma parseCsv_of_spells {csv : CString} (hspells : Spells LineEnd (memberships.map DerivedMembership.fields) csv.bytes)
    (hnamed : ∀ m ∈ memberships, m.Named) : parseCsv (some csv) = .ok memberships := by
  have hne : ∀ values ∈ memberships.map DerivedMembership.fields, values ≠ [[]] := by
    intro values hvalues
    obtain ⟨m, -, rfl⟩ := List.mem_map.mp hvalues
    exact fields_ne m
  have hrecords : (memberships.map DerivedMembership.fields).foldlM appendRecord [] = .ok memberships :=
    foldlM_appendRecord.mpr ⟨memberships, hnamed, rfl, rfl⟩
  rw [parseCsv, read_of_spells [] hspells hne, hrecords]
  rfl

end

/-- The accepted texts are those a writer makes of rows of two columns with values, whatever it quotes
    beyond what it must and however it ends its lines, and the rows are what is read. -/
theorem derived_membership_csv :
    (∀ (csv : CString) (memberships : List DerivedMembership), parseCsv (some csv) = .ok memberships ↔
      Spells LineEnd (memberships.map DerivedMembership.fields) csv.bytes ∧ ∀ m ∈ memberships, m.Named) ∧
    ∀ (csv : CString) (memberships : List DerivedMembership), (∀ m ∈ memberships, m.Named) →
      csv.bytes = writeCrlf (memberships.map DerivedMembership.fields) → parseCsv (some csv) = .ok memberships := by
  refine ⟨fun csv memberships => ⟨fun hparse => ?_, fun h => parseCsv_of_spells h.1 h.2⟩, ?_⟩
  · rw [parseCsv] at hparse
    cases hread : read appendRecord [] csv.bytes with
    | error error => simp [hread, Except.mapError] at hparse
    | ok result =>
      simp only [hread, Except.mapError, Except.ok.injEq] at hparse
      subst hparse
      obtain ⟨records, hspells, hrecords⟩ := spells_of_read hread
      obtain ⟨added, hnamed, rfl, rfl⟩ := foldlM_appendRecord.mp hrecords
      exact ⟨hspells, hnamed⟩
  · intro csv memberships hnamed hcsv
    refine parseCsv_of_spells ?_ hnamed
    rw [hcsv]
    refine (spells_writeCrlf memberships).mono ?_
    rintro lineEnd rfl
    exact .crlf

/-- A row without a view is refused, and a line may end with `LF` alone. -/
theorem derived_membership_csv_differs :
    (Spells Crlf [[[], [109]]] (CString.literal ",m\r\n").bytes ∧
      parseCsv (some (.literal ",m\r\n")) = .error (.csv (.record .emptyViewId))) ∧
    parseCsv (some (.literal "a,b\n")) = .ok [⟨[97], [98]⟩] ∧
      ¬∃ records, Spells Crlf records (CString.literal "a,b\n").bytes := by
  refine ⟨⟨?_, by decide⟩, by decide, ?_⟩
  · have hview : FieldText [] [] := .plain rfl
    have hmessage : FieldText [109] [109] := .plain (by decide)
    exact Spells.cons (.cons hview (.last hmessage)) (show Crlf [13, 10] from rfl) .nil
  · rintro ⟨records, hspells⟩
    have hbytes : (CString.literal "a,b\n").bytes = [97, 44, 98, 10] := by decide
    rw [hbytes] at hspells
    generalize htext : ([97, 44, 98, 10] : List UInt8) = text at hspells
    cases hspells with
    | nil => cases htext
    | last hrecord => exact hrecord.lf_notMem (by simp [← htext]) (by simp [← htext])
    | cons _ hend _ =>
      cases hend
      have hcr : (13 : UInt8) ∈ [97, 44, 98, 10] := htext ▸ by simp
      simp at hcr

theorem derived_membership_csv_row :
    parseCsv (some (.literal "inbox,\"a\"\"b\"\r\n")) = .ok [⟨[105, 110, 98, 111, 120], [97, 34, 98]⟩] :=
  derived_membership_csv.2 _ _ (by decide +revert) (by decide)

end Wyrebox.MembershipCsv
