import Mathlib.Data.List.Sort
import Mathlib.Data.List.TakeWhile
import Wyrebox.JournalRecord

set_option autoImplicit false

/-!
# C strings

Text as the code holds it: bytes without a NUL. Ids are built from text and decimal numbers.
-/
namespace Wyrebox
open JournalRecord

@[ext]
structure CString where
  bytes : List UInt8
  no_nul : (0 : UInt8) ∉ bytes
  deriving DecidableEq

namespace CString

def empty : CString := ⟨[], List.not_mem_nil⟩

def append (s t : CString) : CString :=
  ⟨s.bytes ++ t.bytes, by simp [s.no_nul, t.no_nul]⟩

instance : Append CString := ⟨append⟩

instance : Inhabited CString := ⟨empty⟩

@[simp] lemma bytes_append (s t : CString) : (s ++ t).bytes = s.bytes ++ t.bytes := rfl

/-- A string literal of the source. -/
def literal (s : String) (no_nul : (ascii s).contains 0 = false := by exact (rfl : false = false)) : CString :=
  ⟨ascii s, by simpa using no_nul⟩

lemma zero_not_mem_takeWhile (bytes : List UInt8) : (0 : UInt8) ∉ bytes.takeWhile (· ≠ 0) := by
  intro h
  simpa using List.mem_takeWhile_imp h

/-- The string that a buffer holds. -/
def ofBuffer (bytes : List UInt8) : CString :=
  ⟨bytes.takeWhile (· ≠ 0), zero_not_mem_takeWhile bytes⟩

lemma ofBuffer_bytes (s : CString) : ofBuffer s.bytes = s := by
  refine CString.ext (List.takeWhile_eq_self_iff.mpr fun b hb => ?_)
  simpa using ne_of_mem_of_not_mem hb s.no_nul

/-- The order of `strcmp`. -/
def Le (s t : CString) : Prop := ¬t.bytes < s.bytes

instance (s t : CString) : Decidable (Le s t) := inferInstanceAs (Decidable (¬_))

lemma append_right_injective (s : CString) : Function.Injective fun t => s ++ t := by
  intro t u h
  have hbytes := congrArg bytes h
  simp only [bytes_append, List.append_cancel_left_eq] at hbytes
  exact CString.ext hbytes

/-! ## Decimal numbers -/

def digit (n : ℕ) : UInt8 := UInt8.ofNat (48 + n % 10)

def decimalDigits : ℕ → ℕ → List UInt8
  | 0, _ => []
  | fuel + 1, n => if n < 10 then [digit n] else decimalDigits fuel (n / 10) ++ [digit n]

lemma digit_toNat (n : ℕ) : (digit n).toNat = 48 + n % 10 := by
  simp only [digit, UInt8.toNat_ofNat']
  omega

lemma mem_decimalDigits {fuel n : ℕ} {b : UInt8} (h : b ∈ decimalDigits fuel n) :
    48 ≤ b.toNat ∧ b.toNat ≤ 57 := by
  induction fuel generalizing n with
  | zero => simp [decimalDigits] at h
  | succ fuel ih =>
    have hdigit : ∀ b', b' = digit n → 48 ≤ b'.toNat ∧ b'.toNat ≤ 57 := by
      rintro b' rfl
      rw [digit_toNat]
      omega
    rw [decimalDigits] at h
    split at h
    · exact hdigit b (List.mem_singleton.mp h)
    · rcases List.mem_append.mp h with hleft | hright
      · exact ih hleft
      · exact hdigit b (List.mem_singleton.mp hright)

/-- `%llu`. -/
def decimal (n : ℕ) : CString where
  bytes := decimalDigits (n + 1) n
  no_nul := fun h => by
    have hrange := mem_decimalDigits h
    simp at hrange

def decimalValue (bs : List UInt8) : ℕ := bs.foldl (fun n b => 10 * n + (b.toNat - 48)) 0

lemma decimalValue_decimalDigits {fuel n : ℕ} (h : n < fuel) :
    decimalValue (decimalDigits fuel n) = n := by
  induction fuel generalizing n with
  | zero => omega
  | succ fuel ih =>
    rw [decimalDigits]
    split
    · simp only [decimalValue, List.foldl_cons, List.foldl_nil, digit_toNat]
      omega
    · have hrec := ih (n := n / 10) (by omega)
      simp only [decimalValue] at hrec ⊢
      rw [List.foldl_append, hrec]
      simp only [List.foldl_cons, List.foldl_nil, digit_toNat]
      omega

lemma decimal_injective : Function.Injective decimal := by
  intro n m h
  have hbytes := congrArg (fun s => decimalValue s.bytes) h
  change decimalValue (decimalDigits (n + 1) n) = decimalValue (decimalDigits (m + 1) m) at hbytes
  rwa [decimalValue_decimalDigits (Nat.lt_succ_self n),
    decimalValue_decimalDigits (Nat.lt_succ_self m)] at hbytes

/-- Text that ends in a colon and a number determines the number and what precedes it. -/
lemma colon_decimal_inj {s t : CString} {n m : ℕ}
    (h : s ++ literal ":" ++ decimal n = t ++ literal ":" ++ decimal m) : s = t ∧ n = m := by
  have colon : ∀ k, (58 : UInt8) ∉ (decimal k).bytes := by
    intro k hmem
    have := mem_decimalDigits hmem
    simp at this
  have hbytes := congrArg bytes h
  simp only [bytes_append] at hbytes
  change s.bytes ++ [58] ++ (decimal n).bytes = t.bytes ++ [58] ++ (decimal m).bytes at hbytes
  -- no digit is a colon, so both sides have their last colon at the same place
  have hlen : (decimal n).bytes.length = (decimal m).bytes.length := by
    have hrev := congrArg List.reverse hbytes
    simp only [List.reverse_append, List.reverse_cons, List.nil_append,
      List.append_assoc, List.cons_append] at hrev
    have htake := congrArg (fun l => (l.takeWhile (· ≠ 58)).length) hrev
    have hall : ∀ k rest, (((decimal k).bytes.reverse ++ 58 :: rest).takeWhile (· ≠ 58)).length =
        (decimal k).bytes.length := by
      intro k rest
      rw [List.takeWhile_append_of_pos]
      · simp
      · intro b hb
        have hne : b ≠ 58 := fun heq => colon k (heq ▸ List.mem_reverse.mp hb)
        simpa using hne
    simpa only [hall] using htake
  obtain ⟨hleft, hright⟩ := List.append_inj' hbytes hlen
  exact ⟨CString.ext (List.append_cancel_right hleft), decimal_injective (CString.ext hright)⟩

end CString
end Wyrebox
