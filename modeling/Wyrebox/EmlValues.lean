import Mathlib.Data.List.Find
import Wyrebox.EmlSpans

set_option autoImplicit false

/-!
# Header values

A message with a header block gives each known field the value of its first occurrence. What comes
after the block does not matter.
-/
namespace Wyrebox.Eml
open JournalRecord PayloadText Event ByteField TextLines

def separator : List UInt8 := [13, 10, 13, 10]

/-! ## The header block -/

section
variable {data data' : List UInt8} {n : ℕ}

theorem findHeaderSeparator_eq_some :
    findHeaderSeparator data = some n ↔ slice n 4 data = separator ∧ ∀ m < n, slice m 4 data ≠ separator := by
  induction data generalizing n with
  | nil =>
    rw [findHeaderSeparator]
    simp [slice, separator]
  | cons b data ih =>
    have hfirst : [13, 10, 13, 10] <+: b :: data ↔ slice 0 4 (b :: data) = separator := by
      rw [List.prefix_iff_eq_take, slice, List.drop_zero, eq_comm]
      rfl
    have hslice : ∀ m, slice (m + 1) 4 (b :: data) = slice m 4 data := fun _ => rfl
    rw [findHeaderSeparator]
    by_cases hsep : [13, 10, 13, 10] <+: b :: data
    · rw [if_pos hsep, Option.some.injEq]
      constructor
      · rintro rfl
        exact ⟨hfirst.mp hsep, fun m hm => absurd hm (Nat.not_lt_zero _)⟩
      · rintro ⟨-, hbefore⟩
        by_contra hne
        exact hbefore 0 (Nat.pos_of_ne_zero (Ne.symm hne)) (hfirst.mp hsep)
    · rw [if_neg hsep, Option.map_eq_some_iff]
      constructor
      · rintro ⟨m, hm, rfl⟩
        obtain ⟨hfound, hbefore⟩ := ih.mp hm
        refine ⟨hfound, fun m' hm' => ?_⟩
        cases m' with
        | zero => exact fun h => hsep (hfirst.mpr h)
        | succ m' => exact hbefore m' (by omega)
      · rintro ⟨hfound, hbefore⟩
        cases n with
        | zero => exact absurd (hfirst.mpr hfound) hsep
        | succ m => exact ⟨m, ih.mpr ⟨hfound, fun m' hm' => hbefore (m' + 1) (by omega)⟩, rfl⟩

theorem findHeaderSeparator_isSome : (findHeaderSeparator data).isSome = true ↔ separator <:+: data := by
  induction data with
  | nil => decide
  | cons b data ih =>
    rw [findHeaderSeparator, List.infix_cons_iff]
    by_cases hsep : [13, 10, 13, 10] <+: b :: data
    · rw [if_pos hsep]
      exact ⟨fun _ => .inl hsep, fun _ => rfl⟩
    · rw [if_neg hsep, Option.isSome_map, ih]
      exact ⟨.inr, fun h => h.resolve_left hsep⟩

/-- The first `CRLF CRLF` is found in the bytes up to its end. -/
theorem findHeaderSeparator_congr (h : findHeaderSeparator data = some n)
    (hsame : data'.take (n + 4) = data.take (n + 4)) : findHeaderSeparator data' = some n := by
  obtain ⟨hfound, hbefore⟩ := findHeaderSeparator_eq_some.mp h
  have hslice : ∀ m ≤ n, slice m 4 data' = slice m 4 data := by
    intro m hm
    rw [← @slice_take _ m 4 (n + 4) (by omega) data', hsame, slice_take (by omega)]
  refine findHeaderSeparator_eq_some.mpr ⟨(hslice n le_rfl).trans hfound, fun m hm => ?_⟩
  rw [hslice m hm.le]
  exact hbefore m hm

end

/-! ## Blocks without NUL -/

section
variable {block : List UInt8} {field : Field} {raw : RawField}

theorem mem_block_of_mem_raw (h : raw ∈ headerFields block) {b : UInt8} (hb : b ∈ raw.raw) : b ∈ block :=
  List.mem_of_mem_drop ((placed_of_headerFields h).subset hb)

theorem zero_not_mem_name (hnul : 0 ∉ block) (h : raw ∈ headerFields block) : 0 ∉ raw.name := by
  intro hzero
  refine hnul (mem_block_of_mem_raw h ?_)
  rw [← RawField.name_eq (colon_of_headerFields h)] at hzero
  exact (List.takeWhile_prefix _).subset hzero

theorem zero_not_mem_value (hnul : 0 ∉ block) (h : raw ∈ headerFields block) : 0 ∉ raw.value := by
  intro hzero
  refine hnul (mem_block_of_mem_raw h ?_)
  rw [RawField.value, List.mem_append, List.mem_flatMap] at hzero
  rw [RawField.raw, joinLines, List.mem_append, List.mem_flatMap]
  obtain hzero | ⟨line, hline, hzero⟩ := hzero
  · exact .inl ((List.dropWhile_suffix _).subset (List.mem_of_mem_drop ((List.dropWhile_suffix _).subset hzero)))
  · rw [List.mem_cons] at hzero
    have hmem := (List.dropWhile_suffix isBlank).subset (hzero.resolve_left (by decide))
    exact .inr ⟨line, hline, List.mem_cons_of_mem _ (List.mem_cons_of_mem _ hmem)⟩

theorem isTakenFor_eq_isNamed (hnul : 0 ∉ block) (h : raw ∈ headerFields block) :
    raw.isTakenFor field = raw.isNamed field :=
  Bool.eq_iff_iff.mpr ⟨isNamed_of_isTakenFor (zero_not_mem_name hnul h), fun hnamed => (isTakenFor_of_isNamed hnamed).2⟩

theorem find_taken_eq_find_named (hnul : 0 ∉ block) :
    (headerFields block).find? (·.isTakenFor field) = (headerFields block).find? (·.isNamed field) :=
  List.find?_congr fun _ hmem => isTakenFor_eq_isNamed hnul hmem

theorem count_taken_eq_count_named (hnul : 0 ∉ block) :
    (headerFields block).countP (·.isTakenFor field) = (headerFields block).countP (·.isNamed field) :=
  List.countP_congr fun raw hmem => by rw [isTakenFor_eq_isNamed hnul hmem]

end

/-! ## The result -/

section
variable {bytes : GBytes} {metadata : EmlMetadata}

theorem sizeBytes_foldl (sizeBytes limit : ℕ) (fields : List RawField) (metadata : EmlMetadata) :
    fields.foldl (commitField limit) { metadata with sizeBytes := sizeBytes } =
      { fields.foldl (commitField limit) metadata with sizeBytes := sizeBytes } := by
  induction fields generalizing metadata with
  | nil => rfl
  | cons raw fields ih =>
    have hcommit : commitField limit { metadata with sizeBytes := sizeBytes } raw =
        { commitField limit metadata raw with sizeBytes := sizeBytes } := by
      rw [commitField, commitField, commitHeader, commitHeader]
      split <;> rfl
    rw [List.foldl_cons, List.foldl_cons, hcommit, ih]

theorem slot_parse (h : parseBytes bytes = .ok metadata) (hnul : 0 ∉ headerBlock bytes.data) (field : Field) :
    (metadata.slot field).map CString.bytes =
      ((headerFields (headerBlock bytes.data)).find? (·.isNamed field)).map RawField.value := by
  obtain ⟨-, rfl⟩ := parseBytes_eq_ok.mp h
  have hinitial : (initial bytes.data.length).slot field = none := by cases field <;> rfl
  rw [slot_foldl, hinitial, Option.none_or, find_taken_eq_find_named hnul, Option.map_map]
  cases hfind : (headerFields (headerBlock bytes.data)).find? (·.isNamed field) with
  | none => rfl
  | some raw =>
    exact congrArg some (strndup_of_no_nul (zero_not_mem_value hnul (List.mem_of_find?_eq_some hfind)))

theorem duplicates_parse (h : parseBytes bytes = .ok metadata) (hnul : 0 ∉ headerBlock bytes.data) :
    metadata.duplicateMessageIdCount =
      ((headerFields (headerBlock bytes.data)).countP (·.isNamed .messageId) - 1) % 2 ^ 32 := by
  obtain ⟨-, rfl⟩ := parseBytes_eq_ok.mp h
  rw [duplicates_foldl _ (Nat.two_pow_pos 32), count_taken_eq_count_named hnul]
  simp [initial]

theorem parse_congr {bytes' : GBytes} (h : parseBytes bytes = .ok metadata)
    (hsame : bytes'.data.take ((headerBlock bytes.data).length + 4) =
      bytes.data.take ((headerBlock bytes.data).length + 4)) :
    parseBytes bytes' = .ok { metadata with sizeBytes := bytes'.data.length } := by
  obtain ⟨hfound, rfl⟩ := parseBytes_eq_ok.mp h
  obtain ⟨n, hn⟩ := Option.isSome_iff_exists.mp hfound
  have hblock : ∀ data, findHeaderSeparator data = some n → headerBlock data = data.take n := by
    intro data hdata
    rw [headerBlock, hdata]
    rfl
  have hlength : (headerBlock bytes.data).length = n := by
    rw [hblock _ hn, List.length_take]
    exact Nat.min_eq_left (findHeaderSeparator_le hn)
  rw [hlength] at hsame
  have hn' := findHeaderSeparator_congr hn hsame
  have hblock' : headerBlock bytes'.data = headerBlock bytes.data := by
    have htake := congrArg (List.take n) hsame
    rw [List.take_take, List.take_take, Nat.min_eq_left (by omega)] at htake
    rw [hblock _ hn, hblock _ hn', htake]
  rw [parseBytes_eq_ok, hn', hblock']
  exact ⟨rfl, (sizeBytes_foldl _ _ _ (initial bytes.data.length)).symm⟩

end

/-- The count of duplicates is the one thing that is not as long as the message. -/
theorem header_values :
    (∀ bytes, (∃ metadata, parseBytes bytes = .ok metadata) ↔ separator <:+: bytes.data) ∧
    (∀ {bytes metadata}, parseBytes bytes = .ok metadata → 0 ∉ headerBlock bytes.data →
      (∀ field, (metadata.slot field).map CString.bytes =
        ((headerFields (headerBlock bytes.data)).find? (·.isNamed field)).map RawField.value) ∧
      metadata.duplicateMessageIdCount =
        ((headerFields (headerBlock bytes.data)).countP (·.isNamed .messageId) - 1) % 2 ^ 32) ∧
    (∀ {bytes bytes' : GBytes} {metadata}, parseBytes bytes = .ok metadata →
      bytes'.data.take ((headerBlock bytes.data).length + 4) =
        bytes.data.take ((headerBlock bytes.data).length + 4) →
      parseBytes bytes' = .ok { metadata with sizeBytes := bytes'.data.length }) := by
  refine ⟨fun bytes => ?_, fun h hnul => ⟨slot_parse h hnul, duplicates_parse h hnul⟩, parse_congr⟩
  rw [← findHeaderSeparator_isSome]
  exact ⟨fun ⟨_, h⟩ => (parseBytes_eq_ok.mp h).1, fun h => ⟨_, parseBytes_eq_ok.mpr ⟨h, rfl⟩⟩⟩

/-! ## More than `G_MAXUINT` duplicates -/

def messageIdLine : List UInt8 := ascii "Message-ID:"

def messageIdLines (n : ℕ) : List UInt8 := (List.replicate n (messageIdLine ++ [13, 10])).flatten ++ [13, 10]

lemma messageIdLines_succ (n : ℕ) : messageIdLines (n + 1) = messageIdLine ++ 13 :: 10 :: messageIdLines n := by
  simp [messageIdLines, List.replicate_succ]

lemma messageIdLines_length (n : ℕ) : (messageIdLines n).length = 13 * n + 2 := by
  induction n with
  | zero => rfl
  | succ n ih =>
    have hline : messageIdLine.length = 11 := by decide
    rw [messageIdLines_succ, List.length_append, List.length_cons, List.length_cons, ih, hline]
    omega

lemma findHeaderSeparator_messageIdLines (n : ℕ) :
    findHeaderSeparator (messageIdLines (n + 1)) = some (13 * n + 11) := by
  induction n with
  | zero => decide
  | succ n ih =>
    -- no separator begins in the first line: what follows its end is the next line
    have hskip : ∀ rest, findHeaderSeparator (messageIdLine ++ 13 :: 10 :: 77 :: rest) =
        (findHeaderSeparator (77 :: rest)).map (· + 13) := by
      intro rest
      have hline : messageIdLine = [77, 101, 115, 115, 97, 103, 101, 45, 73, 68, 58] := by decide
      rw [hline]
      simp [findHeaderSeparator, Option.map_map, Function.comp_def]
    have hnext : messageIdLines (n + 1) = 77 :: (messageIdLines (n + 1)).tail := by
      rw [messageIdLines_succ]
      rfl
    rw [messageIdLines_succ, hnext, hskip, ← hnext, ih, Option.map_some]
    exact congrArg some (by omega)

lemma splitLines_messageIdLines (n : ℕ) :
    splitLines 13 10 ((messageIdLines (n + 1)).take (13 * n + 11)) = List.replicate (n + 1) messageIdLine := by
  have hline : messageIdLine.length = 11 := by decide
  induction n with
  | zero => decide
  | succ n ih =>
    have hlong : 13 * (n + 1) + 11 = messageIdLine.length + (13 * n + 11 + 1 + 1) := by omega
    rw [messageIdLines_succ, hlong, List.take_length_add_append, List.take_succ_cons, List.take_succ_cons,
      splitLines_append (by decide), ih]
    rfl

/-- Each line is a field. -/
lemma countP_messageIdFields (n offset : ℕ) (current : Option RawField) :
    (fieldsFrom offset current (List.replicate n messageIdLine)).countP (·.isNamed .messageId) =
      current.toList.countP (·.isNamed .messageId) + n := by
  induction n generalizing offset current with
  | zero => rfl
  | succ n ih =>
    have hfield : (startField offset messageIdLine).toList.countP (·.isNamed .messageId) = 1 := rfl
    rw [List.replicate_succ, fieldsFrom_start (.inr (by decide)), List.countP_append, ih, hfield]
    omega

lemma zero_not_mem_messageIdLines (n : ℕ) : 0 ∉ messageIdLines n := by
  rw [messageIdLines, List.mem_append, List.mem_flatten]
  rintro (⟨line, hline, hzero⟩ | hzero)
  · rw [List.eq_of_mem_replicate hline] at hzero
    exact absurd hzero (by decide)
  · exact absurd hzero (by decide)

def manyMessageIds (n : ℕ) (h : n < 2 ^ 48) : GBytes where
  data := messageIdLines n
  size_le := by
    rw [messageIdLines_length]
    omega

lemma headerBlock_manyMessageIds {n : ℕ} (h : n + 1 < 2 ^ 48) :
    headerBlock (manyMessageIds (n + 1) h).data = (messageIdLines (n + 1)).take (13 * n + 11) := by
  rw [headerBlock]
  change ((findHeaderSeparator (messageIdLines (n + 1))).map _).getD [] = _
  rw [findHeaderSeparator_messageIdLines]
  rfl

/-- With `2 ^ 32` duplicates the count is zero again. -/
theorem duplicates_wrapped : ∃ metadata, parseBytes (manyMessageIds (2 ^ 32 + 1) (by decide)) = .ok metadata ∧
    0 ∉ headerBlock (manyMessageIds (2 ^ 32 + 1) (by decide)).data ∧ metadata.duplicateMessageIdCount ≠
      (headerFields (headerBlock (manyMessageIds (2 ^ 32 + 1) (by decide)).data)).countP (·.isNamed .messageId) - 1 := by
  have hblock := @headerBlock_manyMessageIds (2 ^ 32) (by decide)
  have hnul : 0 ∉ headerBlock (manyMessageIds (2 ^ 32 + 1) (by decide)).data := by
    rw [hblock]
    exact fun hzero => zero_not_mem_messageIdLines _ (List.mem_of_mem_take hzero)
  have hcount : (headerFields (headerBlock (manyMessageIds (2 ^ 32 + 1) (by decide)).data)).countP
      (·.isNamed .messageId) = 2 ^ 32 + 1 := by
    rw [hblock, headerFields, splitLines_messageIdLines, countP_messageIdFields]
    exact Nat.zero_add _
  have hfound : (findHeaderSeparator (manyMessageIds (2 ^ 32 + 1) (by decide)).data).isSome = true := by
    change (findHeaderSeparator (messageIdLines (2 ^ 32 + 1))).isSome = true
    rw [findHeaderSeparator_messageIdLines]
    rfl
  have hparse := parseBytes_eq_ok.mpr ⟨hfound, rfl⟩
  refine ⟨_, hparse, hnul, ?_⟩
  rw [duplicates_parse hparse hnul, hcount]
  decide

end Wyrebox.Eml
