import Wyrebox.LittleEndian

set_option autoImplicit false

/-!
# Fixed fields of a byte string

A field is a byte range at a fixed offset. The lemmas move a field through concatenation
and truncation, which is all a scanner of fixed layouts needs.
-/
namespace Wyrebox.ByteField
open LittleEndian

/-- The bytes `[offset, offset + len)`, cut short at the end of the string. -/
def slice {α : Type} (offset len : ℕ) (bs : List α) : List α := (bs.drop offset).take len

def readLE (offset width : ℕ) (bs : List UInt8) : ℕ := decode (slice offset width bs)

section
variable {α : Type}

theorem slice_length (offset len : ℕ) (bs : List α) :
    (slice offset len bs).length = min len (bs.length - offset) := by
  simp [slice]

theorem slice_length_of_le {offset len : ℕ} {bs : List α} (h : offset + len ≤ bs.length) :
    (slice offset len bs).length = len := by
  rw [slice_length]
  omega

theorem slice_append_left {offset len : ℕ} {bs : List α} (h : offset + len ≤ bs.length)
    (tail : List α) : slice offset len (bs ++ tail) = slice offset len bs := by
  rw [slice, slice, List.drop_append_of_le_length (by omega),
    List.take_append_of_le_length (by simp; omega)]

theorem slice_append_right {offset len : ℕ} {bs : List α} (h : bs.length ≤ offset)
    (tail : List α) : slice offset len (bs ++ tail) = slice (offset - bs.length) len tail := by
  rw [slice, slice, List.drop_append, List.drop_eq_nil_of_le h, List.nil_append]

theorem slice_take {offset len n : ℕ} (h : offset + len ≤ n) (bs : List α) :
    slice offset len (bs.take n) = slice offset len bs := by
  rw [slice, slice, List.drop_take, List.take_take, Nat.min_eq_left (by omega)]

theorem slice_all (bs : List α) : slice 0 bs.length bs = bs := by
  simp [slice]

theorem slice_mid (before bs after : List α) :
    slice before.length bs.length (before ++ (bs ++ after)) = bs := by
  rw [slice_append_right (le_refl _), Nat.sub_self, slice_append_left (by omega), slice_all]

/-- A shorter read of a field reads a shorter piece of its value. -/
theorem slice_shorten {offset len k : ℕ} (h : k ≤ len) (bs : List α) :
    slice offset k bs = (slice offset len bs).take k := by
  rw [slice, slice, List.take_take, Nat.min_eq_left h]

theorem take_eq_slice (n : ℕ) (bs : List α) : bs.take n = slice 0 n bs := by
  simp [slice]

theorem slice_append_slice (offset m n : ℕ) (bs : List α) :
    slice offset m bs ++ slice (offset + m) n bs = slice offset (m + n) bs := by
  rw [slice, slice, slice, ← List.drop_drop, List.take_add]

theorem slice_append_drop {offset m : ℕ} (bs : List α) :
    slice offset m bs ++ bs.drop (offset + m) = bs.drop offset := by
  rw [slice, ← List.drop_drop, List.take_append_drop]

/-- Overwriting an element outside a field leaves the field alone. -/
theorem slice_set_of_outside {offset len i : ℕ} (h : i < offset ∨ offset + len ≤ i) (bs : List α) (a : α) :
    slice offset len (bs.set i a) = slice offset len bs := by
  rw [slice, slice, List.drop_set]
  rcases h with h | h
  · rw [if_pos h]
  · rw [if_neg (by omega), List.take_set, List.set_eq_of_length_le]
    rw [List.length_take]
    omega

theorem slice_set_of_inside {offset len i : ℕ} (h : offset ≤ i) (bs : List α) (a : α) :
    slice offset len (bs.set i a) = (slice offset len bs).set (i - offset) a := by
  rw [slice, slice, List.drop_set, if_neg (by omega), List.take_set]

theorem slice_getElem? {offset len i : ℕ} (h : offset ≤ i) (h' : i < offset + len) (bs : List α) :
    (slice offset len bs)[i - offset]? = bs[i]? := by
  rw [slice, List.getElem?_take_of_lt (by omega), List.getElem?_drop]
  congr 1
  omega

/-- Two strings with the same field have the same elements there. -/
theorem not_mem_of_slice_eq {offset len i : ℕ} {bs cs : List α} (h : slice offset len bs = slice offset len cs)
    (hne : bs[i]? ≠ cs[i]?) : i < offset ∨ offset + len ≤ i := by
  by_contra hinside
  rw [← slice_getElem? (by omega) (by omega : i < offset + len) bs, h,
    slice_getElem? (by omega) (by omega) cs] at hne
  exact hne rfl

end

theorem readLE_append_left {offset width : ℕ} {bs : List UInt8} (h : offset + width ≤ bs.length)
    (tail : List UInt8) : readLE offset width (bs ++ tail) = readLE offset width bs := by
  rw [readLE, readLE, slice_append_left h]

theorem readLE_take {offset width n : ℕ} (h : offset + width ≤ n) (bs : List UInt8) :
    readLE offset width (bs.take n) = readLE offset width bs := by
  rw [readLE, readLE, slice_take h]

theorem readLE_of_slice {offset width n : ℕ} {bs : List UInt8}
    (h : slice offset width bs = encode width n) (hn : n < 256 ^ width) :
    readLE offset width bs = n := by
  rw [readLE, h, decode_encode hn]

theorem slice_of_readLE {offset width n : ℕ} {bs : List UInt8}
    (hlen : offset + width ≤ bs.length) (h : readLE offset width bs = n) :
    slice offset width bs = encode width n :=
  eq_encode_of_decode (slice_length_of_le hlen) h

theorem readLE_lt {offset width : ℕ} (bs : List UInt8) : readLE offset width bs < 256 ^ width := by
  have hlt := decode_lt (slice offset width bs)
  have hlen : (slice offset width bs).length ≤ width := by
    rw [slice_length]
    omega
  exact hlt.trans_le (Nat.pow_le_pow_right (by omega) hlen)

end Wyrebox.ByteField
