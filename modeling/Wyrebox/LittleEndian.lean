import Mathlib.Data.List.Basic
import Mathlib.Tactic.Ring

set_option autoImplicit false

/-!
# Fixed-width little-endian integers

Byte strings are lists of `UInt8`. Values are natural numbers below `256 ^ width`, so no
operation here can overflow silently.
-/
namespace Wyrebox.LittleEndian

/-- The `width` low-order bytes of `n`, least significant byte first. -/
def encode : ℕ → ℕ → List UInt8
  | 0, _ => []
  | width + 1, n => UInt8.ofNat (n % 256) :: encode width (n / 256)

def decode : List UInt8 → ℕ
  | [] => 0
  | b :: bs => b.toNat + 256 * decode bs

@[simp] theorem encode_length (width n : ℕ) : (encode width n).length = width := by
  induction width generalizing n with
  | zero => rfl
  | succ width ih => simp [encode, ih]

theorem encode_succ_ne_nil (width n : ℕ) : encode (width + 1) n ≠ [] := by
  simp [encode]

theorem decode_encode_mod (width n : ℕ) : decode (encode width n) = n % 256 ^ width := by
  induction width generalizing n with
  | zero => simp [encode, decode, Nat.mod_one]
  | succ width ih =>
    have hb : (UInt8.ofNat (n % 256)).toNat = n % 256 := by
      simp [UInt8.toNat_ofNat']
    simp only [encode, decode, ih, hb]
    rw [pow_succ, Nat.mul_comm (256 ^ width) 256, Nat.mod_mul]

theorem decode_encode {width n : ℕ} (h : n < 256 ^ width) : decode (encode width n) = n := by
  rw [decode_encode_mod, Nat.mod_eq_of_lt h]

theorem decode_lt (bs : List UInt8) : decode bs < 256 ^ bs.length := by
  induction bs with
  | nil => simp [decode]
  | cons b bs ih =>
    have hb := b.toNat_lt
    simp only [decode, List.length_cons, pow_succ]
    omega

/-- The encoding of a decoded field is the field: a byte string is determined by its width
    and its value. -/
theorem encode_decode (bs : List UInt8) : encode bs.length (decode bs) = bs := by
  induction bs with
  | nil => rfl
  | cons b bs ih =>
    have hb := b.toNat_lt
    have hmod : (b.toNat + 256 * decode bs) % 256 = b.toNat := by omega
    have hdiv : (b.toNat + 256 * decode bs) / 256 = decode bs := by omega
    simp only [List.length_cons, decode, encode, hmod, hdiv, ih, UInt8.ofNat_toNat]

theorem eq_encode_of_decode {width n : ℕ} {bs : List UInt8} (hlen : bs.length = width)
    (hval : decode bs = n) : bs = encode width n := by
  subst hlen hval
  exact (encode_decode bs).symm

theorem decode_append (bs cs : List UInt8) : decode (bs ++ cs) = decode bs + 256 ^ bs.length * decode cs := by
  induction bs with
  | nil => simp [decode]
  | cons b bs ih =>
    simp only [List.cons_append, decode, ih, List.length_cons]
    ring

theorem encode_inj {width m n : ℕ} (hm : m < 256 ^ width) (hn : n < 256 ^ width)
    (h : encode width m = encode width n) : m = n := by
  rw [← decode_encode hm, h, decode_encode hn]

end Wyrebox.LittleEndian
