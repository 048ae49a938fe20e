import Wyrebox.EmlFields

set_option autoImplicit false

/-!
# Header spans

The parser's span of a field is one byte short when the field ends the header block.
-/
namespace Wyrebox.Eml
open JournalRecord PayloadText Event ByteField

/-- The span is that of the first field with the name, from its first byte to the end of its last line. -/
def SpanExact (data : List UInt8) (field : Field) (span : Span) : Prop :=
  ∃ raw, (headerFields (headerBlock data)).find? (·.isNamed field) = some raw ∧
    slice span.start (span.stop - span.start) data = raw.raw

/-- The field that the parser takes has no NUL in its name, and does not end the header block. -/
def EndsInside (data : List UInt8) (field : Field) : Prop :=
  ∀ raw, (headerFields (headerBlock data)).find? (·.isTakenFor field) = some raw →
    0 ∉ raw.name ∧ raw.stop < (headerBlock data).length

section
variable {data : List UInt8} {field : Field} {raw : RawField}

theorem isTakenFor_iff : raw.isTakenFor field = true ↔
    (strndup raw.name).bytes.map toLower = (ascii (fieldName field)).map toLower := by
  rw [RawField.isTakenFor, beq_iff_eq, fieldOf_eq_some]

theorem strndup_of_no_nul {bytes : List UInt8} (h : 0 ∉ bytes) : (strndup bytes).bytes = bytes :=
  congrArg CString.bytes (strndup_bytes ⟨bytes, h⟩)

theorem toLower_eq_zero {b : UInt8} : toLower b = 0 ↔ b = 0 := by
  have hall : ∀ b : UInt8, toLower b = 0 ↔ b = 0 := by
    intro b
    rw [toLower, ← UInt8.toNat_inj, ← UInt8.toNat_inj]
    split
    · rename_i hrange
      rw [UInt8.le_iff_toNat_le, UInt8.le_iff_toNat_le] at hrange
      rw [UInt8.toNat_add]
      change 65 ≤ b.toNat ∧ b.toNat ≤ 90 at hrange
      change (b.toNat + 32) % 256 = 0 ↔ b.toNat = 0
      omega
    · rfl
  exact hall b

theorem zero_mem_map_toLower {bytes : List UInt8} : (0 : UInt8) ∈ bytes.map toLower ↔ 0 ∈ bytes := by
  simp [List.mem_map, toLower_eq_zero]

theorem isNamed_of_isTakenFor (hnul : 0 ∉ raw.name) (h : raw.isTakenFor field = true) : raw.isNamed field = true := by
  rw [isTakenFor_iff, strndup_of_no_nul hnul] at h
  exact beq_iff_eq.mpr h

theorem isTakenFor_of_isNamed (h : raw.isNamed field = true) : 0 ∉ raw.name ∧ raw.isTakenFor field = true := by
  have hname := eq_of_beq h
  have hnul : 0 ∉ raw.name := by
    rw [← zero_mem_map_toLower, hname]
    cases field <;> decide
  refine ⟨hnul, ?_⟩
  rw [isTakenFor_iff, strndup_of_no_nul hnul]
  exact hname

/-- A field with the name is taken, so the field that is taken comes no later. -/
theorem find_named_of_taken {fields : List RawField} (h : fields.find? (·.isTakenFor field) = some raw)
    (hnamed : raw.isNamed field = true) : fields.find? (·.isNamed field) = some raw := by
  rw [List.find?_eq_some_iff_append] at h ⊢
  obtain ⟨-, before, after, rfl, hbefore⟩ := h
  refine ⟨hnamed, before, after, rfl, fun other hmem => ?_⟩
  have hother := hbefore other hmem
  rw [Bool.not_eq_true'] at hother ⊢
  by_contra hname
  rw [Bool.not_eq_false] at hname
  rw [(isTakenFor_of_isNamed hname).2] at hother
  cases hother

theorem find_taken_of_named {fields : List RawField} (h : fields.find? (·.isNamed field) = some raw) :
    ∃ taken, fields.find? (·.isTakenFor field) = some taken := by
  refine Option.isSome_iff_exists.mp (List.find?_isSome.mpr ⟨raw, List.mem_of_find?_eq_some h, ?_⟩)
  exact (isTakenFor_of_isNamed (List.find?_some h)).2

theorem headerBlock_eq_take (data : List UInt8) : headerBlock data = data.take (headerBlock data).length := by
  rw [headerBlock]
  cases findHeaderSeparator data with
  | none => rfl
  | some headerLen => simp

theorem slice_reportedSpan (h : raw ∈ headerFields (headerBlock data)) :
    slice (reportedSpan (headerBlock data).length raw).start
      ((reportedSpan (headerBlock data).length raw).stop - (reportedSpan (headerBlock data).length raw).start) data =
      if raw.stop < (headerBlock data).length then raw.raw else raw.raw.dropLast := by
  have hstop := stop_le_of_headerFields h
  obtain ⟨tail, htail⟩ := placed_of_headerFields h
  have htake : ∀ len ≤ raw.raw.length, slice raw.start len data = raw.raw.take len := by
    intro len hlen
    rw [RawField.stop] at hstop
    rw [← slice_take (n := (headerBlock data).length) (by omega), ← headerBlock_eq_take, slice, ← htail,
      List.take_append_of_le_length hlen]
  rw [reportedSpan, headerOf]
  split
  · rename_i hends
    rw [if_neg (by omega), RawField.stop, Nat.sub_right_comm, Nat.add_sub_cancel_left, htake _ (Nat.sub_le _ _),
      List.dropLast_eq_take]
  · rw [if_pos (by omega), RawField.stop, Nat.add_sub_cancel_left, htake _ le_rfl, List.take_length]

theorem spanExact_iff (h : (headerFields (headerBlock data)).find? (·.isTakenFor field) = some raw) :
    SpanExact data field (reportedSpan (headerBlock data).length raw) ↔
      0 ∉ raw.name ∧ raw.stop < (headerBlock data).length := by
  have hmem := List.mem_of_find?_eq_some h
  have hcolon := colon_of_headerFields hmem
  rw [SpanExact, slice_reportedSpan hmem]
  constructor
  · rintro ⟨named, hnamed, hbytes⟩
    have hnamedColon := colon_of_headerFields (List.mem_of_find?_eq_some hnamed)
    -- both begin with the same line up to the colon
    have hprefix : named.raw <+: raw.raw := by
      rw [← hbytes]
      split
      · exact List.prefix_refl _
      · exact List.dropLast_prefix _
    have hname : raw.name = named.name := by
      obtain ⟨tail, htail⟩ := hprefix
      rw [← RawField.name_eq hcolon, ← RawField.name_eq hnamedColon, ← htail]
      exact takeWhile_append_of_mem (RawField.colon_mem_raw hnamedColon) tail
    have htaken : named.isNamed field = true := List.find?_some hnamed
    have hfind := find_named_of_taken h (by rwa [RawField.isNamed, hname, ← RawField.isNamed])
    rw [hnamed, Option.some.injEq] at hfind
    subst hfind
    refine ⟨(isTakenFor_of_isNamed (List.find?_some hnamed)).1, ?_⟩
    by_contra hends
    rw [if_neg hends] at hbytes
    have hlength := congrArg List.length hbytes
    have hpos := List.length_pos_of_mem (RawField.colon_mem_raw hcolon)
    rw [List.length_dropLast] at hlength
    omega
  · rintro ⟨hnul, hstop⟩
    have hnamed := isNamed_of_isTakenFor hnul (List.find?_some h)
    exact ⟨raw, find_named_of_taken h hnamed, if_pos hstop⟩

theorem spanExact_of_commit {span : EmlMetadata → Span} {sizeBytes : ℕ} {metadata : EmlMetadata}
    (hcommit : ∀ metadata header, span (commitHeader metadata (some header)) =
      if fieldOf header.name = some field then setFirstSpan (span metadata) header else span metadata)
    (hinitial : span (initial sizeBytes) = .absent)
    (hmetadata : metadata = (headerFields (headerBlock data)).foldl (commitField (headerBlock data).length)
      (initial sizeBytes))
    (hvalid : (span metadata).valid = true) : SpanExact data field (span metadata) ↔ EndsInside data field := by
  rw [hmetadata, span_foldl hcommit, hinitial, if_neg (by decide)] at hvalid ⊢
  cases hfind : (headerFields (headerBlock data)).find? (·.isTakenFor field) with
  | none =>
    rw [hfind] at hvalid
    cases hvalid
  | some raw =>
    rw [Option.map_some, Option.getD_some, spanExact_iff hfind, EndsInside, hfind]
    simp

end

theorem header_spans_iff {bytes : GBytes} {metadata : EmlMetadata} (h : parseBytes bytes = .ok metadata) :
    (metadata.messageIdSpan.valid = true →
      (SpanExact bytes.data .messageId metadata.messageIdSpan ↔ EndsInside bytes.data .messageId)) ∧
    (metadata.subjectSpan.valid = true →
      (SpanExact bytes.data .subject metadata.subjectSpan ↔ EndsInside bytes.data .subject)) := by
  obtain ⟨-, hmetadata⟩ := parseBytes_eq_ok.mp h
  refine ⟨?_, ?_⟩
  · exact @spanExact_of_commit _ _ (·.messageIdSpan) _ _ (fun _ => messageIdSpan_commitHeader) rfl hmetadata
  · exact @spanExact_of_commit _ _ (·.subjectSpan) _ _ (fun _ => subjectSpan_commitHeader) rfl hmetadata

/-! ## A subject in the middle of the header block and one at its end -/

def middleSubject : GBytes := ⟨ascii "Subject: x\r\nTo: y\r\n\r\n", by decide⟩

def lastSubject : GBytes := ⟨ascii "To: y\r\nSubject: x\r\n\r\n", by decide⟩

theorem header_spans_iff_middle : ∃ metadata, parseBytes middleSubject = .ok metadata ∧
    metadata.subjectSpan = ⟨true, 0, 10⟩ ∧ SpanExact middleSubject.data .subject metadata.subjectSpan := by
  refine ⟨_, rfl, by decide, ((header_spans_iff rfl).2 (by decide)).mpr ?_⟩
  intro raw hfind
  have hfirst : ((headerFields (headerBlock middleSubject.data)).find? (·.isTakenFor .subject)).map
      (fun raw => (raw.name, raw.stop)) = some (ascii "Subject", 10) := by decide
  rw [hfind, Option.map_some, Option.some.injEq, Prod.mk.injEq] at hfirst
  rw [hfirst.1, hfirst.2]
  decide

theorem last_subject_cut_short : ∃ metadata, parseBytes lastSubject = .ok metadata ∧
    metadata.subjectSpan = ⟨true, 7, 16⟩ ∧ ¬SpanExact lastSubject.data .subject metadata.subjectSpan := by
  refine ⟨_, rfl, by decide, ?_⟩
  rintro ⟨raw, hfind, hbytes⟩
  have hfirst : ((headerFields (headerBlock lastSubject.data)).find? (·.isNamed .subject)).map RawField.raw =
      some (ascii "Subject: x") := by decide
  rw [hfind, Option.map_some, Option.some.injEq, ← hbytes] at hfirst
  exact absurd hfirst (by decide)

end Wyrebox.Eml
