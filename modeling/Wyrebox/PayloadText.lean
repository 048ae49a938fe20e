import Mathlib.Data.List.TakeWhile
import Wyrebox.Codec
import Wyrebox.Fallible
import Wyrebox.CString
import Wyrebox.ObjectStore

set_option autoImplicit false

/-!
# Text in journal payloads

A string is its length and its bytes; the length `G_MAXUINT32` stands for `NULL`. Object keys are
text of one fixed shape.
-/
namespace Wyrebox.PayloadText
open LittleEndian Codec JournalRecord Fallible

/-- `G_MAXUINT32` in the place of a length. -/
def nullString : ℕ := 2 ^ 32 - 1

/-! ## Strings -/

/-- `write_nullable_string`. -/
def encodeNullable : Option CString → List UInt8
  | none => encode 4 nullString
  | some s => encode 4 s.bytes.length ++ s.bytes

/-- `write_strv`. -/
def encodeStrings (values : List CString) : List UInt8 :=
  encode 4 values.length ++ values.flatMap fun s => encodeNullable (some s)

section
variable {ε : Type} (truncated embeddedNul nullElement : ε)

/-- `read_nullable_string`. -/
def nullable : Decoder ε (Option CString) := do
  let length ← unsigned 4 truncated
  if length = nullString then pure none
  else do
    let bytes ← octets length truncated
    if h : (0 : UInt8) ∈ bytes then throw embeddedNul else pure (some ⟨bytes, h⟩)

def element : Decoder ε CString := do
  match ← nullable truncated embeddedNul with
  | none => throw nullElement
  | some s => pure s

/-- `read_strv`. Every encoded string takes at least its length prefix. -/
def strings : Decoder ε (List CString) := do
  let count ← unsigned 4 truncated
  ensure (fun rest => count ≤ rest.length / 4) truncated
  times (element truncated embeddedNul nullElement) count

/-- `read_string` of the payloads without `NULL`: every length is taken as it is. -/
def text : Decoder ε CString := do
  let length ← unsigned 4 truncated
  let bytes ← octets length truncated
  if h : (0 : UInt8) ∈ bytes then throw embeddedNul else pure ⟨bytes, h⟩

end

/-- `write_string`. -/
def encodeText (s : CString) : List UInt8 := encode 4 s.bytes.length ++ s.bytes

/-- A string whose length is not taken for `NULL`. -/
def Encodable (value : Option CString) : Prop := ∀ s, value = some s → s.bytes.length < nullString

section
variable {ε : Type} {truncated embeddedNul nullElement : ε}

theorem reads_nullable {value : Option CString} (h : Encodable value) :
    Reads (nullable truncated embeddedNul) (encodeNullable value) value := by
  cases value with
  | none =>
    refine (reads_unsigned truncated (by decide)).bind_last ?_
    rw [if_pos rfl]
    exact Reads.pure none
  | some s =>
    have hlt := h s rfl
    rw [nullString] at hlt
    refine (reads_unsigned truncated (by omega)).bind ?_
    rw [if_neg (by rw [nullString]; omega)]
    refine (reads_octets truncated rfl).bind_last ?_
    rw [dif_neg s.no_nul]
    exact Reads.pure (some s)

theorem reads_text {s : CString} (h : s.bytes.length < 2 ^ 32) :
    Reads (text truncated embeddedNul) (encodeText s) s := by
  refine (reads_unsigned truncated (by omega)).bind ?_
  refine (reads_octets truncated rfl).bind_last ?_
  rw [dif_neg s.no_nul]
  exact Reads.pure s

theorem reads_element {s : CString} (h : s.bytes.length < nullString) :
    Reads (element truncated embeddedNul nullElement) (encodeNullable (some s)) s := by
  have hvalue : Encodable (some s) := fun s' hs => Option.some.inj hs ▸ h
  exact (reads_nullable hvalue).bind_last (Reads.pure s)

theorem encodeStrings_length_le (values : List CString) :
    4 * values.length ≤ (values.flatMap fun s => encodeNullable (some s)).length := by
  induction values with
  | nil => simp
  | cons s values ih =>
    rw [List.flatMap_cons, List.length_append, encodeNullable, List.length_append, encode_length, List.length_cons]
    omega

theorem reads_strings {values : List CString} (hcount : values.length < 2 ^ 32)
    (h : ∀ s ∈ values, s.bytes.length < nullString) :
    Reads (strings truncated embeddedNul nullElement) (encodeStrings values) values := by
  refine (reads_unsigned truncated (by omega)).bind ?_
  refine Reads.ensure (reads_times fun s hs => reads_element (h s hs)) ?_
  intro tail
  have hlen := encodeStrings_length_le values
  rw [decide_eq_true_eq, List.length_append]
  omega

/-! ### What the readers accept -/

theorem spells_nullable : Spells (nullable truncated embeddedNul) Encodable encodeNullable := by
  intro bytes value rest h
  simp only [nullable, bind_run] at h
  obtain ⟨length, mid, hlength, h⟩ := h
  obtain ⟨hlt, rfl⟩ := spells_unsigned _ _ hlength
  by_cases hnull : length = nullString
  · rw [if_pos hnull, pure_run] at h
    obtain ⟨rfl, rfl⟩ := h
    exact ⟨fun s hs => absurd hs (by simp), by rw [hnull]; rfl⟩
  · simp only [hnull, if_false, bind_run] at h
    obtain ⟨text, mid', htext, h⟩ := h
    obtain ⟨rfl, rfl⟩ := spells_octets _ _ htext
    split at h
    · cases h
    · obtain ⟨rfl, rfl⟩ := pure_run.mp h
      refine ⟨?_, ?_⟩
      · rintro s ⟨⟩
        rw [nullString] at hnull ⊢
        simp only
        omega
      · rw [encodeNullable, List.append_assoc]
        rfl

theorem spells_element : Spells (element truncated embeddedNul nullElement) (·.bytes.length < nullString)
    (fun s => encodeNullable (some s)) := by
  intro bytes value rest h
  simp only [element, bind_run] at h
  obtain ⟨found, mid, hfound, h⟩ := h
  obtain ⟨hencodable, rfl⟩ := spells_nullable hfound
  cases found with
  | none => cases h
  | some s =>
    obtain ⟨rfl, rfl⟩ := pure_run.mp h
    exact ⟨hencodable s rfl, rfl⟩

theorem spells_strings : Spells (strings truncated embeddedNul nullElement)
    (fun values => values.length < 2 ^ 32 ∧ ∀ s ∈ values, s.bytes.length < nullString) encodeStrings := by
  intro bytes value rest h
  simp only [strings, bind_run, ensure_run] at h
  obtain ⟨count, mid, hcount, _, _, ⟨-, rfl⟩, htimes⟩ := h
  obtain ⟨hlt, rfl⟩ := spells_unsigned _ _ hcount
  obtain ⟨⟨rfl, hall⟩, rfl⟩ := spells_times spells_element count htimes
  refine ⟨⟨by omega, hall⟩, ?_⟩
  rw [encodeStrings, List.append_assoc]

theorem spells_text : Spells (text truncated embeddedNul) (·.bytes.length < 2 ^ 32) encodeText := by
  intro bytes value rest h
  simp only [text, bind_run] at h
  obtain ⟨length, mid, hlength, found, mid', hfound, h⟩ := h
  obtain ⟨hlt, rfl⟩ := spells_unsigned _ _ hlength
  obtain ⟨rfl, rfl⟩ := spells_octets _ _ hfound
  split at h
  · cases h
  · obtain ⟨rfl, rfl⟩ := pure_run.mp h
    refine ⟨by simpa using hlt, ?_⟩
    rw [encodeText, List.append_assoc]
    rfl

end

/-- `g_strndup`. -/
def strndup (bytes : List UInt8) : CString :=
  ⟨bytes.takeWhile (· ≠ 0), CString.zero_not_mem_takeWhile bytes⟩

theorem strndup_bytes (s : CString) : strndup s.bytes = s := by
  apply CString.ext
  refine List.takeWhile_eq_self_iff.mpr fun b hb => ?_
  have hne : b ≠ 0 := fun hzero => s.no_nul (hzero ▸ hb)
  simpa using hne

/-! ## Object keys -/

def objectKeyLength : ℕ := 71

/-- The check of `validate_object_key` and `is_sha256_object_key`. -/
def isSha256ObjectKey (key : CString) : Bool :=
  key.bytes.length == objectKeyLength && decide (ObjectStore.keyPrefix <+: key.bytes) &&
    (key.bytes.drop ObjectStore.keyPrefix.length).all ObjectStore.isLowerHex

lemma zeroKey_no_nul : (0 : UInt8) ∉ ascii "sha256:" ++ List.replicate 64 48 := by decide

theorem hexDigits_no_nul {bytes : List UInt8} (h : bytes.all ObjectStore.isLowerHex = true) : (0 : UInt8) ∉ bytes := by
  intro hmem
  have hzero := List.all_eq_true.mp h 0 hmem
  exact absurd hzero (by decide)

/-- The key of `bytes` as the code holds it. -/
def objectKeyOf (sha : Sha256) (bytes : List UInt8) : CString where
  bytes := ObjectStore.objectKey sha bytes
  no_nul := by
    rw [ObjectStore.objectKey, List.mem_append, not_or]
    exact ⟨by decide, hexDigits_no_nul (ObjectStore.hexString_all _)⟩

theorem isSha256ObjectKey_objectKeyOf (sha : Sha256) (bytes : List UInt8) :
    isSha256ObjectKey (objectKeyOf sha bytes) = true := by
  have hhex : (ObjectStore.checksumBytes sha bytes).all ObjectStore.isLowerHex = true := ObjectStore.hexString_all _
  have hlen : (ObjectStore.checksumBytes sha bytes).length = 64 := by
    rw [ObjectStore.checksumBytes, ObjectStore.hexString_length, sha.digest_length]
  have hbeginning : ObjectStore.keyPrefix.length = 7 := by decide
  simp only [isSha256ObjectKey, objectKeyOf, ObjectStore.objectKey, Bool.and_eq_true, beq_iff_eq,
    List.length_append, List.drop_left]
  exact ⟨⟨by rw [hlen, hbeginning]; rfl, decide_eq_true (List.prefix_append _ _)⟩, hhex⟩

theorem objectKeyOf_eq_iff {sha : Sha256} {bytes bytes' : List UInt8} :
    objectKeyOf sha bytes = objectKeyOf sha bytes' ↔ sha.digest bytes = sha.digest bytes' := by
  constructor
  · intro h
    have hkey : ObjectStore.objectKey sha bytes = ObjectStore.objectKey sha bytes' := congrArg CString.bytes h
    exact ObjectStore.hexString_injective (List.append_cancel_left hkey)
  · intro h
    apply CString.ext
    change ObjectStore.objectKey sha bytes = ObjectStore.objectKey sha bytes'
    rw [ObjectStore.objectKey, ObjectStore.checksumBytes, h]
    rfl

end Wyrebox.PayloadText
