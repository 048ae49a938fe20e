import Wyrebox.EmlMetadata
import Wyrebox.TextLines

set_option autoImplicit false

/-!
# The fields of a header block

The block is read here as a whole: its lines, and the fields made of them. The parser's loop commits
these fields in their order, and nothing else.
-/
namespace Wyrebox.Eml
open JournalRecord PayloadText Event TextLines

/-! ## Fields -/

/-- A line with a colon and the continuation lines after it. -/
structure RawField where
  start : ℕ
  first : List UInt8
  continuations : List (List UInt8)

namespace RawField

/-- The bytes of the field, without the end of its last line. -/
def raw (field : RawField) : List UInt8 := joinLines 13 10 (field.first :: field.continuations)

def stop (field : RawField) : ℕ := field.start + field.raw.length

def name (field : RawField) : List UInt8 := field.first.takeWhile (· ≠ 58)

/-- The unfolded value. -/
def value (field : RawField) : List UInt8 :=
  ((field.first.dropWhile (· ≠ 58)).drop 1).dropWhile isBlank ++
    field.continuations.flatMap fun line => 32 :: line.dropWhile isBlank

def addLine (field : RawField) (line : List UInt8) : RawField :=
  { field with continuations := field.continuations ++ [line] }

end RawField

def startField (offset : ℕ) (line : List UInt8) : Option RawField :=
  if (58 : UInt8) ∈ line then some ⟨offset, line, []⟩ else none

/-- The fields of lines that begin at `offset`, after the lines of `current`. -/
def fieldsFrom : ℕ → Option RawField → List (List UInt8) → List RawField
  | _, current, [] => current.toList
  | offset, current, line :: lines =>
    match current, line.head?.any isBlank with
    | some field, true => fieldsFrom (offset + line.length + 2) (some (field.addLine line)) lines
    | current, _ => current.toList ++ fieldsFrom (offset + line.length + 2) (startField offset line) lines

def headerFields (block : List UInt8) : List RawField := fieldsFrom 0 none (splitLines 13 10 block)

/-! ## The parser's loop -/

/-- The header that the parser makes of a field: a last line without its `CRLF` ends one byte early. -/
def headerOf (limit : ℕ) (field : RawField) : Header where
  name := strndup field.name
  value := field.value
  spanStart := field.start
  spanEnd := if field.stop = limit then field.stop - 1 else field.stop

def commitField (limit : ℕ) (metadata : EmlMetadata) (field : RawField) : EmlMetadata :=
  commitHeader metadata (some (headerOf limit field))

section
variable {limit offset : ℕ} {rest line : List UInt8} {field : RawField}

theorem scanLine_terminated (h : (scanLine rest).2 = true) :
    splitLines 13 10 rest = rest.take (scanLine rest).1 :: splitLines 13 10 (rest.drop ((scanLine rest).1 + 2)) := by
  fun_induction scanLine rest with
  | case1 tail => rfl
  | case2 b b' tail hcrlf length terminated heq ih =>
    have hbreak : ¬(b = 13 ∧ b' = 10) := fun hbreak => hcrlf hbreak.1 hbreak.2
    rw [heq] at ih
    rw [splitLines, if_neg hbreak, ih h]
    rfl
  | case3 rest hcrlf hlong => cases h

theorem scanLine_unterminated (hne : rest ≠ []) (h : (scanLine rest).2 = false) :
    splitLines 13 10 rest = [rest] ∧ (scanLine rest).1 + 1 = rest.length := by
  fun_induction scanLine rest with
  | case1 tail => cases h
  | case2 b b' tail hcrlf length terminated heq ih =>
    have hbreak : ¬(b = 13 ∧ b' = 10) := fun hbreak => hcrlf hbreak.1 hbreak.2
    rw [heq] at ih
    obtain ⟨hsplit, hlength⟩ := ih (by simp) h
    rw [splitLines, if_neg hbreak, hsplit]
    exact ⟨rfl, by simp only [List.length_cons] at hlength ⊢; omega⟩
  | case3 rest hcrlf hlong =>
    cases rest with
    | nil => exact absurd rfl hne
    | cons b tail =>
      cases tail with
      | nil => exact ⟨rfl, rfl⟩
      | cons b' tail => exact absurd rfl (hlong b b' tail)

theorem RawField.raw_addLine (field : RawField) (line : List UInt8) :
    (field.addLine line).raw = field.raw ++ 13 :: 10 :: line := by
  simp [RawField.raw, RawField.addLine, joinLines]

theorem RawField.stop_addLine (hstop : field.stop + 2 = offset) :
    (field.addLine line).stop = offset + line.length := by
  have hstart : (field.addLine line).start = field.start := rfl
  rw [RawField.stop] at hstop ⊢
  rw [hstart, RawField.raw_addLine, List.length_append, List.length_cons, List.length_cons]
  omega

theorem stop_of_startField (h : startField offset line = some field) : field.stop = offset + line.length := by
  rw [startField] at h
  split at h
  · cases h
    simp [RawField.stop, RawField.raw, joinLines]
  · cases h

theorem headerOf_addLine (field : RawField) (line : List UInt8) :
    headerOf limit (field.addLine line) = (headerOf limit field).continue line
      (if (field.addLine line).stop = limit then (field.addLine line).stop - 1 else (field.addLine line).stop) := by
  simp [headerOf, Header.continue, RawField.addLine, RawField.name, RawField.value]

theorem startHeader_eq {spanEnd : ℕ}
    (hend : ∀ field, startField offset line = some field → spanEnd = (headerOf limit field).spanEnd) :
    startHeader line offset spanEnd = (startField offset line).map (headerOf limit) := by
  rw [startHeader, startField] at *
  by_cases hcolon : (58 : UInt8) ∈ line
  · rw [if_pos hcolon] at hend ⊢
    rw [if_pos hcolon, hend _ rfl]
    simp [headerOf, RawField.name, RawField.value]
  · rw [if_neg hcolon, if_neg hcolon]
    rfl

theorem fieldsFrom_continue {lines : List (List UInt8)} (h : line.head?.any isBlank = true) :
    fieldsFrom offset (some field) (line :: lines) =
      fieldsFrom (offset + line.length + 2) (some (field.addLine line)) lines := by
  simp only [fieldsFrom, h]

theorem fieldsFrom_start {lines : List (List UInt8)} {current : Option RawField}
    (h : current = none ∨ line.head?.any isBlank = false) :
    fieldsFrom offset current (line :: lines) =
      current.toList ++ fieldsFrom (offset + line.length + 2) (startField offset line) lines := by
  obtain rfl | h := h
  · simp only [fieldsFrom]
  · simp only [fieldsFrom, h]

theorem fieldsFrom_blank (offset offset' : ℕ) (current : Option RawField) :
    fieldsFrom offset current [[]] = fieldsFrom offset' current [] := by
  cases current with
  | none => rfl
  | some field => rfl

/-- A turn of the loop takes `line` and leaves `next`. -/
structure Scanned (limit offset : ℕ) (rest line next : List UInt8) : Prop where
  taken : (if (scanLine rest).2 then rest.take (scanLine rest).1 else rest) = line
  left : (if (scanLine rest).2 then rest.drop ((scanLine rest).1 + 2) else []) = next
  shorter : next.length < rest.length
  offsets : next ≠ [] → offset + (scanLine rest).1 + 2 + next.length = limit ∧ (scanLine rest).1 = line.length
  lineEnd : offset + (scanLine rest).1 =
    if offset + line.length = limit then offset + line.length - 1 else offset + line.length
  fields : ∃ lines, splitLines 13 10 rest = line :: lines ∧ ∀ current,
    fieldsFrom (offset + line.length + 2) current lines =
      fieldsFrom (offset + (scanLine rest).1 + 2) current (splitLines 13 10 next)

theorem scanned (hne : rest ≠ []) (hlimit : offset + rest.length = limit) :
    ∃ line next, Scanned limit offset rest line next := by
  obtain ⟨hlt, hterminated⟩ := scanLine_le hne
  by_cases h : (scanLine rest).2 = true
  · have hfits := hterminated h
    have hlength : (rest.take (scanLine rest).1).length = (scanLine rest).1 := by
      rw [List.length_take]
      omega
    refine ⟨_, _, if_pos h, if_pos h, ?_, fun _ => ⟨?_, hlength.symm⟩, ?_, _, scanLine_terminated h, ?_⟩
    · rw [List.length_drop]
      omega
    · rw [List.length_drop]
      omega
    · rw [hlength, if_neg (by omega)]
    · rw [hlength]
      exact fun _ => rfl
  · obtain ⟨hsplit, hlength⟩ := scanLine_unterminated hne (Bool.not_eq_true _ ▸ h)
    refine ⟨rest, [], if_neg h, if_neg h, List.length_pos_iff.mpr hne, fun h => absurd rfl h, ?_, _, hsplit,
      fun current => (fieldsFrom_blank _ _ current).symm⟩
    rw [if_pos hlimit]
    omega

/-- The loop commits the fields of the lines that are left. -/
theorem parseLines_eq_foldl (fuel : ℕ) {current : Option RawField} {metadata : EmlMetadata}
    (hfuel : rest.length < fuel)
    (hrest : rest ≠ [] → offset + rest.length = limit ∧ ∀ field ∈ current, field.stop + 2 = offset) :
    parseLines fuel rest offset (current.map (headerOf limit)) metadata =
      (fieldsFrom offset current (splitLines 13 10 rest)).foldl (commitField limit) metadata := by
  induction fuel generalizing rest offset current metadata with
  | zero => omega
  | succ fuel ih =>
    rw [parseLines]
    by_cases hempty : rest = []
    · subst hempty
      cases current with
      | none => rfl
      | some field => rfl
    obtain ⟨hlimit, hcurrent⟩ := hrest hempty
    obtain ⟨line, next, hscan⟩ := scanned hempty hlimit
    obtain ⟨lines, hlines, hfields⟩ := hscan.fields
    have hshorter := hscan.shorter
    rw [if_neg (by rwa [List.isEmpty_iff])]
    dsimp only
    rw [hscan.taken, hscan.left, hlines]
    have hnext : ∀ {current : Option RawField}, (∀ field ∈ current, field.stop = offset + line.length) →
        ∀ metadata, parseLines fuel next (offset + (scanLine rest).1 + 2) (current.map (headerOf limit)) metadata =
          (fieldsFrom (offset + line.length + 2) current lines).foldl (commitField limit) metadata := by
      intro current hstop metadata
      rw [hfields]
      refine ih (by omega) fun hne => ⟨(hscan.offsets hne).1, fun field hfield => ?_⟩
      rw [hstop field hfield, (hscan.offsets hne).2]
    have hstart := @startHeader_eq limit offset line (offset + (scanLine rest).1) fun field hfield => by
      rw [headerOf, stop_of_startField hfield, hscan.lineEnd]
    cases current with
    | none =>
      dsimp only [Option.map_none]
      rw [hstart, hnext fun field hfield => stop_of_startField hfield, fieldsFrom_start (.inl rfl)]
      rfl
    | some field =>
      dsimp only [Option.map_some]
      cases hblank : line.head?.any isBlank with
      | true =>
        have hstop : (field.addLine line).stop = offset + line.length := RawField.stop_addLine (hcurrent field rfl)
        have hsame := @headerOf_addLine limit field line
        rw [hstop, ← hscan.lineEnd] at hsame
        have hcontinued := @hnext (some (field.addLine line)) (fun field' hfield' => by cases hfield'; exact hstop)
        rw [Option.map_some, hsame] at hcontinued
        rw [fieldsFrom_continue hblank]
        exact hcontinued metadata
      | false =>
        dsimp only
        rw [hstart, hnext fun field hfield => stop_of_startField hfield, fieldsFrom_start (.inr hblank)]
        rfl

end

/-! ## What is known of the fields -/

section
variable {offset : ℕ} {lines : List (List UInt8)} {field : RawField}

theorem takeWhile_append_of_mem {bytes : List UInt8} (h : (58 : UInt8) ∈ bytes) (tail : List UInt8) :
    (bytes ++ tail).takeWhile (· ≠ 58) = bytes.takeWhile (· ≠ 58) := by
  induction bytes with
  | nil => cases h
  | cons b bytes ih =>
    by_cases hb : b = 58
    · simp [hb]
    · have hmem : (58 : UInt8) ∈ bytes := (List.mem_cons.mp h).resolve_left (Ne.symm hb)
      rw [List.cons_append, List.takeWhile_cons_of_pos (by simpa using hb), List.takeWhile_cons_of_pos (by simpa using hb),
        ih hmem]

/-- The name ends at the first colon of the whole field. -/
theorem RawField.name_eq (h : (58 : UInt8) ∈ field.first) : field.raw.takeWhile (· ≠ 58) = field.name :=
  takeWhile_append_of_mem h _

theorem RawField.colon_mem_raw (h : (58 : UInt8) ∈ field.first) : (58 : UInt8) ∈ field.raw :=
  List.mem_append_left _ h

theorem colon_of_fieldsFrom {current : Option RawField} (hcurrent : ∀ field ∈ current, (58 : UInt8) ∈ field.first)
    (h : field ∈ fieldsFrom offset current lines) : (58 : UInt8) ∈ field.first := by
  induction lines generalizing offset current with
  | nil => exact hcurrent field (Option.mem_toList.mp h)
  | cons line lines ih =>
    have hnew : ∀ field ∈ startField offset line, (58 : UInt8) ∈ field.first := by
      intro field hfield
      rw [Option.mem_def, startField] at hfield
      split at hfield
      · cases hfield
        assumption
      · cases hfield
    by_cases hstart : current = none ∨ line.head?.any isBlank = false
    · rw [fieldsFrom_start hstart, List.mem_append] at h
      obtain h | h := h
      · exact hcurrent field (Option.mem_toList.mp h)
      · exact ih hnew h
    · rw [not_or, Bool.not_eq_false] at hstart
      obtain ⟨before, rfl⟩ := Option.ne_none_iff_exists'.mp hstart.1
      rw [fieldsFrom_continue hstart.2] at h
      refine ih (fun field hfield => ?_) h
      cases hfield
      exact hcurrent before rfl

/-- A field is at its offset. -/
theorem placed_of_fieldsFrom {text : List UInt8} {current : Option RawField}
    (hlines : lines ≠ [] → joinLines 13 10 lines = text.drop offset)
    (hcurrent : ∀ field ∈ current, field.raw <+: text.drop field.start ∧
      (lines ≠ [] → field.raw ++ 13 :: 10 :: text.drop offset = text.drop field.start))
    (h : field ∈ fieldsFrom offset current lines) : field.raw <+: text.drop field.start := by
  induction lines generalizing offset current with
  | nil => exact (hcurrent field (Option.mem_toList.mp h)).1
  | cons line lines ih =>
    have htext := hlines (List.cons_ne_nil _ _)
    have hline : line <+: text.drop offset := ⟨_, htext⟩
    have hafter : lines ≠ [] → line ++ 13 :: 10 :: text.drop (offset + line.length + 2) = text.drop offset ∧
        joinLines 13 10 lines = text.drop (offset + line.length + 2) := by
      intro hne
      rw [joinLines_cons hne] at htext
      have hdrop : joinLines 13 10 lines = text.drop (offset + line.length + 2) := by
        rw [Nat.add_assoc, ← List.drop_drop, ← htext, ← List.drop_drop, List.drop_left]
        rfl
      rw [← hdrop]
      exact ⟨htext, rfl⟩
    by_cases hstart : current = none ∨ line.head?.any isBlank = false
    · rw [fieldsFrom_start hstart, List.mem_append] at h
      obtain h | h := h
      · exact (hcurrent field (Option.mem_toList.mp h)).1
      · refine ih (fun hne => (hafter hne).2) (fun field hfield => ?_) h
        rw [Option.mem_def, startField] at hfield
        split at hfield
        · cases hfield
          simp only [RawField.raw, joinLines, List.flatMap_nil, List.append_nil]
          exact ⟨hline, fun hne => (hafter hne).1⟩
        · cases hfield
    -- the line goes on with the field before it
    · rw [not_or, Bool.not_eq_false] at hstart
      obtain ⟨before, rfl⟩ := Option.ne_none_iff_exists'.mp hstart.1
      rw [fieldsFrom_continue hstart.2] at h
      refine ih (fun hne => (hafter hne).2) (fun field hfield => ?_) h
      cases hfield
      have hbefore := (hcurrent before rfl).2 (List.cons_ne_nil _ _)
      change (before.addLine line).raw <+: text.drop before.start ∧
        (lines ≠ [] → (before.addLine line).raw ++ _ = text.drop before.start)
      rw [RawField.raw_addLine, ← hbefore, List.append_assoc]
      refine ⟨(List.prefix_append_right_inj _).mpr ?_, fun hne => ?_⟩
      · exact List.cons_prefix_cons.mpr ⟨rfl, List.cons_prefix_cons.mpr ⟨rfl, hline⟩⟩
      · rw [← (hafter hne).1]
        rfl

theorem placed_of_headerFields {block : List UInt8} (h : field ∈ headerFields block) :
    field.raw <+: block.drop field.start :=
  placed_of_fieldsFrom (fun _ => joinLines_splitLines block) (fun _ hnone => by cases hnone) h

theorem colon_of_headerFields {block : List UInt8} (h : field ∈ headerFields block) : (58 : UInt8) ∈ field.first :=
  colon_of_fieldsFrom (fun _ hnone => by cases hnone) h

theorem stop_le_of_headerFields {block : List UInt8} (h : field ∈ headerFields block) : field.stop ≤ block.length := by
  have hlength := (placed_of_headerFields h).length_le
  have hpos := List.length_pos_of_mem (RawField.colon_mem_raw (colon_of_headerFields h))
  rw [List.length_drop] at hlength
  rw [RawField.stop]
  omega

end

/-! ## The first field of a name -/

def fieldName : Field → String
  | .messageId => "Message-ID"
  | .subject => "Subject"
  | .from => "From"
  | .to => "To"
  | .cc => "Cc"
  | .bcc => "Bcc"
  | .date => "Date"
  | .inReplyTo => "In-Reply-To"
  | .references => "References"
  | .listId => "List-Id"
  | .deliveredTo => "Delivered-To"
  | .xOriginalTo => "X-Original-To"

def RawField.isNamed (field : Field) (raw : RawField) : Bool :=
  raw.name.map toLower == (ascii (fieldName field)).map toLower

/-- The parser compares C strings, which end at a NUL. -/
def RawField.isTakenFor (field : Field) (raw : RawField) : Bool := fieldOf (strndup raw.name) == some field

def EmlMetadata.slot (metadata : EmlMetadata) : Field → Option CString
  | .messageId => metadata.messageId
  | .subject => metadata.subject
  | .from => metadata.fromAddr
  | .to => metadata.toAddr
  | .cc => metadata.cc
  | .bcc => metadata.bcc
  | .date => metadata.date
  | .inReplyTo => metadata.inReplyTo
  | .references => metadata.references
  | .listId => metadata.listId
  | .deliveredTo => metadata.deliveredTo
  | .xOriginalTo => metadata.xOriginalTo

theorem fieldOf_eq_some {name : CString} {field : Field} :
    fieldOf name = some field ↔ name.bytes.map toLower = (ascii (fieldName field)).map toLower := by
  constructor
  · intro h
    obtain ⟨entry, hfind, hentry⟩ := Option.map_eq_some_iff.mp h
    have hnamed := List.find?_some hfind
    have hmem := List.mem_of_find?_eq_some hfind
    have hname : fieldName entry.2 = entry.1 := by
      have hall : ∀ entry ∈ fieldNames, fieldName entry.2 = entry.1 := by decide
      exact hall entry hmem
    rw [← hentry, hname]
    exact eq_of_beq hnamed
  · intro h
    have hfirst : ∀ field, (fieldNames.find? fun entry =>
        (ascii (fieldName field)).map toLower == (ascii entry.1).map toLower).map Prod.snd = some field := by
      intro field
      cases field <;> decide
    rw [fieldOf]
    simp only [namesField, h]
    exact hfirst field

section
variable {limit : ℕ} {metadata : EmlMetadata} {raw : RawField} {field : Field}

theorem slot_commitHeader (header : Header) :
    (commitHeader metadata (some header)).slot field =
      if fieldOf header.name = some field then (metadata.slot field).or (some (strndup header.value))
      else metadata.slot field := by
  rw [commitHeader]
  split <;> rename_i hname <;> rw [hname] <;> cases field <;> rfl

theorem messageIdSpan_commitHeader (header : Header) :
    (commitHeader metadata (some header)).messageIdSpan =
      if fieldOf header.name = some .messageId then setFirstSpan metadata.messageIdSpan header
      else metadata.messageIdSpan := by
  rw [commitHeader]
  split <;> rename_i hname <;> rw [hname] <;> rfl

theorem subjectSpan_commitHeader (header : Header) :
    (commitHeader metadata (some header)).subjectSpan =
      if fieldOf header.name = some .subject then setFirstSpan metadata.subjectSpan header
      else metadata.subjectSpan := by
  rw [commitHeader]
  split <;> rename_i hname <;> rw [hname] <;> rfl

theorem duplicates_commitHeader (header : Header) :
    (commitHeader metadata (some header)).duplicateMessageIdCount =
      if fieldOf header.name = some .messageId ∧ metadata.messageId.isSome = true then
        (metadata.duplicateMessageIdCount + 1) % 2 ^ 32
      else metadata.duplicateMessageIdCount := by
  rw [commitHeader]
  split <;> rename_i hname <;> rw [hname]
  · cases metadata.messageId <;> rfl
  all_goals rfl

/-- The span that the parser gives a field. -/
def reportedSpan (limit : ℕ) (raw : RawField) : Span := ⟨true, raw.start, (headerOf limit raw).spanEnd⟩

theorem headerOf_name (limit : ℕ) (raw : RawField) : (headerOf limit raw).name = strndup raw.name := rfl

theorem slot_foldl (fields : List RawField) : (fields.foldl (commitField limit) metadata).slot field =
    (metadata.slot field).or ((fields.find? (·.isTakenFor field)).map fun raw => strndup raw.value) := by
  induction fields generalizing metadata with
  | nil => simp
  | cons raw fields ih =>
    rw [List.foldl_cons, ih, commitField, slot_commitHeader, headerOf_name, List.find?_cons, RawField.isTakenFor]
    by_cases htaken : fieldOf (strndup raw.name) = some field
    · rw [if_pos htaken, beq_iff_eq.mpr htaken]
      cases metadata.slot field <;> rfl
    · rw [if_neg htaken, beq_eq_false_iff_ne.mpr htaken]

theorem span_foldl {span : EmlMetadata → Span} (hspan : ∀ metadata header, span (commitHeader metadata (some header)) =
      if fieldOf header.name = some field then setFirstSpan (span metadata) header else span metadata)
    (fields : List RawField) : span (fields.foldl (commitField limit) metadata) =
      if (span metadata).valid then span metadata
      else ((fields.find? (·.isTakenFor field)).map (reportedSpan limit)).getD (span metadata) := by
  induction fields generalizing metadata with
  | nil => simp
  | cons raw fields ih =>
    rw [List.foldl_cons, ih, commitField, hspan, headerOf_name, List.find?_cons, RawField.isTakenFor]
    by_cases htaken : fieldOf (strndup raw.name) = some field
    · rw [if_pos htaken, beq_iff_eq.mpr htaken, setFirstSpan]
      by_cases hvalid : (span metadata).valid = true
      · simp only [hvalid, if_true]
      · simp only [hvalid, Bool.false_eq_true, if_false, if_true]
        rfl
    · rw [if_neg htaken, beq_eq_false_iff_ne.mpr htaken]

theorem duplicates_foldl (fields : List RawField) (hlt : metadata.duplicateMessageIdCount < 2 ^ 32) :
    (fields.foldl (commitField limit) metadata).duplicateMessageIdCount =
      (metadata.duplicateMessageIdCount + (fields.countP (·.isTakenFor .messageId) -
        if metadata.messageId.isSome then 0 else 1)) % 2 ^ 32 := by
  induction fields generalizing metadata with
  | nil => simpa using (Nat.mod_eq_of_lt hlt).symm
  | cons raw fields ih =>
    have hslot := @slot_commitHeader metadata .messageId (headerOf limit raw)
    have hcount := @duplicates_commitHeader metadata (headerOf limit raw)
    rw [headerOf_name] at hslot hcount
    rw [List.foldl_cons, List.countP_cons, RawField.isTakenFor, commitField]
    change (commitHeader metadata (some (headerOf limit raw))).messageId = _ at hslot
    by_cases htaken : fieldOf (strndup raw.name) = some .messageId
    · rw [if_pos htaken] at hslot
      have hsome : (commitHeader metadata (some (headerOf limit raw))).messageId.isSome = true := by
        rw [hslot]
        cases metadata.slot .messageId <;> rfl
      have hsmall : (commitHeader metadata (some (headerOf limit raw))).duplicateMessageIdCount < 2 ^ 32 := by
        rw [hcount]
        split
        · exact Nat.mod_lt _ (by decide)
        · exact hlt
      rw [ih hsmall, hcount, hsome, if_pos rfl, if_pos (beq_iff_eq.mpr htaken)]
      by_cases hfirst : metadata.messageId.isSome = true
      · rw [if_pos ⟨htaken, hfirst⟩, if_pos hfirst]
        omega
      · rw [if_neg (fun h => hfirst h.2), if_neg hfirst]
        omega
    · rw [if_neg htaken] at hslot
      rw [if_neg (fun h => htaken h.1)] at hcount
      have hsame : (commitHeader metadata (some (headerOf limit raw))).messageId = metadata.messageId := hslot
      rw [ih (by rw [hcount]; exact hlt), hcount, hsame, if_neg (fun h => htaken (beq_iff_eq.mp h)), Nat.add_zero]

end

/-! ## The header block -/

def headerBlock (data : List UInt8) : List UInt8 := ((findHeaderSeparator data).map data.take).getD []

theorem parseBytes_eq_ok {bytes : GBytes} {metadata : EmlMetadata} :
    parseBytes bytes = .ok metadata ↔ (findHeaderSeparator bytes.data).isSome = true ∧
      metadata = (headerFields (headerBlock bytes.data)).foldl (commitField (headerBlock bytes.data).length)
        (initial bytes.data.length) := by
  rw [parseBytes, headerBlock]
  cases hsep : findHeaderSeparator bytes.data with
  | none => simp
  | some headerLen =>
    have hlength : (bytes.data.take headerLen).length = headerLen := by
      rw [List.length_take]
      exact Nat.min_eq_left (findHeaderSeparator_le hsep)
    have hfold := @parseLines_eq_foldl headerLen 0 (bytes.data.take headerLen) (headerLen + 1) none
      (initial bytes.data.length) (by omega) (fun _ => ⟨by omega, fun _ hnone => by cases hnone⟩)
    rw [Option.map_none] at hfold
    rw [Option.map_some, Option.getD_some, hlength, headerFields, ← hfold]
    simp [eq_comm]

end Wyrebox.Eml
