import Wyrebox.Event
import Wyrebox.PayloadText

set_option autoImplicit false

/-!
# Header metadata of a message

The header block is split into lines, continuation lines are unfolded, and the first value of each
known field is kept, with the byte span of the first Message-ID and the first Subject.
-/
namespace Wyrebox.Eml
open JournalRecord PayloadText Event

/-- `WyreboxEmlMetadata`. -/
structure EmlMetadata extends Metadata where
  inReplyTo : Option CString
  references : Option CString
  listId : Option CString
  deliveredTo : Option CString
  xOriginalTo : Option CString
  sizeBytes : ℕ
  deriving DecidableEq

inductive ParseError where
  | missingSeparator
  deriving DecidableEq, Repr

def ParseError.message : ParseError → String
  | .missingSeparator => "missing RFC 5322 header/body separator"

def initial (sizeBytes : ℕ) : EmlMetadata where
  messageId := none
  subject := none
  fromAddr := none
  toAddr := none
  cc := none
  bcc := none
  date := none
  duplicateMessageIdCount := 0
  messageIdSpan := .absent
  subjectSpan := .absent
  inReplyTo := none
  references := none
  listId := none
  deliveredTo := none
  xOriginalTo := none
  sizeBytes := sizeBytes

/-- `find_header_separator`: how many bytes precede the first `CRLF CRLF`. -/
def findHeaderSeparator : List UInt8 → Option ℕ
  | [] => none
  | b :: rest =>
    if [13, 10, 13, 10] <+: b :: rest then some 0 else (findHeaderSeparator rest).map (· + 1)

def toLower (b : UInt8) : UInt8 := if 65 ≤ b ∧ b ≤ 90 then b + 32 else b

/-- `g_ascii_strcasecmp (name, field) == 0`. -/
def namesField (name : CString) (field : String) : Bool :=
  name.bytes.map toLower == (ascii field).map toLower

/-- The fields that the parser knows. -/
inductive Field where
  | messageId
  | subject
  | from
  | to
  | cc
  | bcc
  | date
  | inReplyTo
  | references
  | listId
  | deliveredTo
  | xOriginalTo
  deriving DecidableEq, Repr

def fieldNames : List (String × Field) :=
  [("Message-ID", .messageId), ("Subject", .subject), ("From", .from), ("To", .to), ("Cc", .cc), ("Bcc", .bcc),
    ("Date", .date), ("In-Reply-To", .inReplyTo), ("References", .references), ("List-Id", .listId),
    ("Delivered-To", .deliveredTo), ("X-Original-To", .xOriginalTo)]

def fieldOf (name : CString) : Option Field :=
  (fieldNames.find? fun field => namesField name field.1).map Prod.snd

/-- The header whose lines are being read. `value` is the buffer of the unfolded value. -/
structure Header where
  name : CString
  value : List UInt8
  spanStart : ℕ
  spanEnd : ℕ

def setFirst (slot : Option CString) (value : List UInt8) : Option CString :=
  slot.or (some (strndup value))

def setFirstSpan (slot : Span) (header : Header) : Span :=
  if slot.valid then slot else ⟨true, header.spanStart, header.spanEnd⟩

/-- `commit_header`. The count of duplicates is a `guint`. -/
def commitHeader (metadata : EmlMetadata) : Option Header → EmlMetadata
  | none => metadata
  | some header =>
    match fieldOf header.name with
    | some .messageId =>
      { metadata with
        messageId := setFirst metadata.messageId header.value
        duplicateMessageIdCount := if metadata.messageId.isNone then metadata.duplicateMessageIdCount
          else (metadata.duplicateMessageIdCount + 1) % 2 ^ 32
        messageIdSpan := setFirstSpan metadata.messageIdSpan header }
    | some .subject =>
      { metadata with
        subject := setFirst metadata.subject header.value
        subjectSpan := setFirstSpan metadata.subjectSpan header }
    | some .from => { metadata with fromAddr := setFirst metadata.fromAddr header.value }
    | some .to => { metadata with toAddr := setFirst metadata.toAddr header.value }
    | some .cc => { metadata with cc := setFirst metadata.cc header.value }
    | some .bcc => { metadata with bcc := setFirst metadata.bcc header.value }
    | some .date => { metadata with date := setFirst metadata.date header.value }
    | some .inReplyTo => { metadata with inReplyTo := setFirst metadata.inReplyTo header.value }
    | some .references => { metadata with references := setFirst metadata.references header.value }
    | some .listId => { metadata with listId := setFirst metadata.listId header.value }
    | some .deliveredTo => { metadata with deliveredTo := setFirst metadata.deliveredTo header.value }
    | some .xOriginalTo => { metadata with xOriginalTo := setFirst metadata.xOriginalTo header.value }
    | none => metadata

def isBlank (b : UInt8) : Bool := b == 32 || b == 9

/-- How far the scan for a line's end gets, and whether it ends at a `CRLF`. Without one it stops
    before the last byte of the header block. -/
def scanLine : List UInt8 → ℕ × Bool
  | 13 :: 10 :: _ => (0, true)
  | _ :: b :: rest =>
    let (length, terminated) := scanLine (b :: rest)
    (length + 1, terminated)
  | _ => (0, false)

/-- `replace_current_header`; `none` is a line without a colon. -/
def startHeader (line : List UInt8) (spanStart spanEnd : ℕ) : Option Header :=
  if (58 : UInt8) ∈ line then
    some
      { name := strndup (line.takeWhile (· ≠ 58))
        value := ((line.dropWhile (· ≠ 58)).drop 1).dropWhile isBlank
        spanStart := spanStart
        spanEnd := spanEnd }
  else none

/-- `append_continuation`. -/
def Header.continue (header : Header) (line : List UInt8) (spanEnd : ℕ) : Header :=
  { header with value := header.value ++ 32 :: line.dropWhile isBlank, spanEnd := spanEnd }

/-- The loop of `wyrebox_eml_metadata_parse_bytes`. `rest` is the header block from `offset` on. -/
def parseLines : ℕ → List UInt8 → ℕ → Option Header → EmlMetadata → EmlMetadata
  | 0, _, _, current, metadata => commitHeader metadata current
  | fuel + 1, rest, offset, current, metadata =>
    if rest.isEmpty then commitHeader metadata current
    else
      let (length, terminated) := scanLine rest
      let line := if terminated then rest.take length else rest
      let next := if terminated then rest.drop (length + 2) else []
      let lineEnd := offset + length
      match current, line.head?.any isBlank with
      | some header, true => parseLines fuel next (lineEnd + 2) (some (header.continue line lineEnd)) metadata
      | current, _ =>
        parseLines fuel next (lineEnd + 2) (startHeader line offset lineEnd) (commitHeader metadata current)

/-- `wyrebox_eml_metadata_parse_bytes`. Every turn of the loop takes a byte, so the fuel suffices. -/
def parseBytes (bytes : GBytes) : Except ParseError EmlMetadata :=
  match findHeaderSeparator bytes.data with
  | none => .error .missingSeparator
  | some headerLen =>
    .ok (parseLines (headerLen + 1) (bytes.data.take headerLen) 0 none (initial bytes.data.length))

/-! ## What the parser guarantees of its numbers -/

/-- A span lies in the first `limit` bytes, and one that is not there is zero. -/
structure SpanWithin (limit : ℕ) (span : Span) : Prop where
  valid : span.valid = true → span.start ≤ span.stop ∧ span.stop ≤ limit
  absent : span.valid = false → span.start = 0 ∧ span.stop = 0

structure Within (limit : ℕ) (metadata : EmlMetadata) : Prop where
  duplicateMessageIdCount : metadata.duplicateMessageIdCount < 2 ^ 32
  messageIdSpan : SpanWithin limit metadata.messageIdSpan
  subjectSpan : SpanWithin limit metadata.subjectSpan

def Header.Within (limit : ℕ) (header : Header) : Prop :=
  header.spanStart ≤ header.spanEnd ∧ header.spanEnd ≤ limit

section
variable {limit : ℕ}

theorem spanWithin_absent : SpanWithin limit .absent :=
  ⟨fun h => absurd h (by decide), fun _ => ⟨rfl, rfl⟩⟩

theorem within_initial (sizeBytes : ℕ) : Within limit (initial sizeBytes) :=
  ⟨Nat.two_pow_pos 32, spanWithin_absent, spanWithin_absent⟩

theorem SpanWithin.setFirstSpan {slot : Span} {header : Header} (h : SpanWithin limit slot)
    (hheader : header.Within limit) : SpanWithin limit (setFirstSpan slot header) := by
  rw [Eml.setFirstSpan]
  split
  · exact h
  · exact ⟨fun _ => hheader, fun habsent => absurd habsent (by simp)⟩

theorem Within.commitHeader {metadata : EmlMetadata} {current : Option Header} (h : Within limit metadata)
    (hcurrent : ∀ header, current = some header → header.Within limit) :
    Within limit (commitHeader metadata current) := by
  cases current with
  | none => exact h
  | some header =>
    have hspan := hcurrent header rfl
    have hcount : (if metadata.messageId.isNone then metadata.duplicateMessageIdCount
        else (metadata.duplicateMessageIdCount + 1) % 2 ^ 32) < 2 ^ 32 := by
      split
      · exact h.duplicateMessageIdCount
      · exact Nat.mod_lt _ (by decide)
    rw [Eml.commitHeader]
    split
    · exact ⟨hcount, h.messageIdSpan.setFirstSpan hspan, h.subjectSpan⟩
    · exact ⟨h.duplicateMessageIdCount, h.messageIdSpan, h.subjectSpan.setFirstSpan hspan⟩
    all_goals exact ⟨h.duplicateMessageIdCount, h.messageIdSpan, h.subjectSpan⟩

/-- A line lies in the block, and a terminator takes two bytes more. -/
theorem scanLine_le {rest : List UInt8} (hne : rest ≠ []) :
    (scanLine rest).1 < rest.length ∧ ((scanLine rest).2 = true → (scanLine rest).1 + 2 ≤ rest.length) := by
  fun_induction scanLine rest with
  | case1 tail =>
    simp only [List.length_cons]
    omega
  | case2 b b' tail hcrlf length terminated heq ih =>
    rw [heq] at ih
    obtain ⟨hlt, hterminated⟩ := ih (by simp)
    simp only [List.length_cons] at hlt hterminated ⊢
    exact ⟨by omega, fun h => by have := hterminated h; omega⟩
  | case3 rest hcrlf hlong =>
    exact ⟨List.length_pos_iff.mpr hne, fun h => absurd h (by decide)⟩

theorem startHeader_eq_some {line : List UInt8} {spanStart spanEnd : ℕ} {header : Header}
    (h : startHeader line spanStart spanEnd = some header) :
    header.spanStart = spanStart ∧ header.spanEnd = spanEnd := by
  rw [startHeader] at h
  split at h
  · cases h
    exact ⟨rfl, rfl⟩
  · cases h

theorem parseLines_within (fuel : ℕ) {rest : List UInt8} {offset : ℕ} {current : Option Header}
    {metadata : EmlMetadata} (hrest : rest ≠ [] → offset + rest.length ≤ limit)
    (hcurrent : ∀ header, current = some header → header.Within limit ∧ header.spanEnd ≤ offset)
    (h : Within limit metadata) : Within limit (parseLines fuel rest offset current metadata) := by
  induction fuel generalizing rest offset current metadata with
  | zero => exact h.commitHeader fun header hheader => (hcurrent header hheader).1
  | succ fuel ih =>
    rw [parseLines]
    split
    · exact h.commitHeader fun header hheader => (hcurrent header hheader).1
    rename_i hempty
    rw [List.isEmpty_iff] at hempty
    obtain ⟨hlt, hterminated⟩ := scanLine_le hempty
    have hlimit := hrest hempty
    have hnext : (if (scanLine rest).2 then rest.drop ((scanLine rest).1 + 2) else []) ≠ [] →
        offset + (scanLine rest).1 + 2 +
          (if (scanLine rest).2 then rest.drop ((scanLine rest).1 + 2) else []).length ≤ limit := by
      intro hne
      split at hne
      · rename_i hfound
        have hfits := hterminated hfound
        rw [if_pos hfound, List.length_drop]
        omega
      · exact absurd rfl hne
    dsimp only
    split
    · rename_i header _
      obtain ⟨⟨hstart, -⟩, hend⟩ := hcurrent header rfl
      refine ih hnext ?_ h
      rintro header' hheader'
      cases hheader'
      refine ⟨⟨?_, ?_⟩, ?_⟩
      all_goals
        simp only [Header.continue]
        omega
    · refine ih hnext ?_ (h.commitHeader fun header hheader => (hcurrent header hheader).1)
      intro header hheader
      obtain ⟨hstart, hend⟩ := startHeader_eq_some hheader
      exact ⟨⟨by omega, by omega⟩, by omega⟩

end

theorem findHeaderSeparator_le {bytes : List UInt8} {n : ℕ} (h : findHeaderSeparator bytes = some n) :
    n ≤ bytes.length := by
  induction bytes generalizing n with
  | nil => cases h
  | cons b bytes ih =>
    rw [findHeaderSeparator] at h
    split at h
    · cases h
      exact Nat.zero_le _
    · obtain ⟨m, hm, rfl⟩ := Option.map_eq_some_iff.mp h
      exact Nat.succ_le_succ (ih hm)

theorem parseBytes_within {bytes : GBytes} {metadata : EmlMetadata} (h : parseBytes bytes = .ok metadata) :
    Within bytes.data.length metadata := by
  rw [parseBytes] at h
  split at h
  · cases h
  · cases h
    refine parseLines_within _ (fun _ => ?_) (fun header hnone => by cases hnone) (within_initial _)
    rw [List.length_take, Nat.zero_add]
    exact Nat.min_le_right ..

end Wyrebox.Eml
