import Mathlib.Data.List.TakeDrop
import Mathlib.Data.List.TakeWhile
import Mathlib.Tactic.Positivity
import Wyrebox.CString

set_option autoImplicit false

/-!
# Reading numbers

`g_ascii_strtoull` in base 10, which both readers of the plugin use. It takes more than `%llu` writes:
leading space, a sign, leading zeros, and a number of any size.
-/
namespace Wyrebox.CString

/-- `ISSPACE`. -/
def isSpace (b : UInt8) : Bool := b == 32 || (9 ≤ b && b ≤ 13)

def isDigit (b : UInt8) : Bool := 48 ≤ b && b ≤ 57

def maxUint64 : ℕ := 2 ^ 64 - 1

def readSign : List UInt8 → Bool × List UInt8
  | 45 :: text => (true, text)
  | 43 :: text => (false, text)
  | text => (false, text)

/-- `g_ascii_strtoull (text, &end, 10)`, with what `end` points to. No number stands there if `end == text`. -/
def strtoull (text : List UInt8) : Option (ℕ × List UInt8) :=
  let signed := readSign (text.dropWhile isSpace)
  let digits := signed.2.takeWhile isDigit
  let value := min (decimalValue digits) maxUint64
  if digits.isEmpty then none
  else some (if signed.1 = true then (2 ^ 64 - value) % 2 ^ 64 else value, signed.2.dropWhile isDigit)

/-! ## The parts of a number -/

lemma isDigit_of_range {b : UInt8} (h : 48 ≤ b.toNat ∧ b.toNat ≤ 57) : isDigit b = true := by
  simp only [isDigit, Bool.and_eq_true, decide_eq_true_eq, UInt8.le_iff_toNat_le]
  exact h

lemma isSpace_of_isDigit {b : UInt8} (h : isDigit b = true) : isSpace b = false := by
  simp only [isDigit, Bool.and_eq_true, decide_eq_true_eq, UInt8.le_iff_toNat_le] at h
  simp only [isSpace, Bool.or_eq_false_iff, Bool.and_eq_false_iff, beq_eq_false_iff_ne, decide_eq_false_iff_not,
    UInt8.le_iff_toNat_le, ne_eq, ← UInt8.toNat_inj]
  have h48 : (48 : UInt8).toNat = 48 := rfl
  have h32 : (32 : UInt8).toNat = 32 := rfl
  have h13 : (13 : UInt8).toNat = 13 := rfl
  omega

inductive Sign where
  | none
  | plus
  | minus

def Sign.bytes : Sign → List UInt8
  | .none => []
  | .plus => [43]
  | .minus => [45]

/-- A number too large is read as the largest, and negation is that of `guint64`. -/
def Sign.apply (sign : Sign) (digits : List UInt8) : ℕ :=
  let value := min (decimalValue digits) maxUint64
  match sign with
  | .minus => (2 ^ 64 - value) % 2 ^ 64
  | _ => value

/-- A number with the text after it. -/
structure Reads (text : List UInt8) (n : ℕ) (rest : List UInt8) (spaces : List UInt8) (sign : Sign)
    (digits : List UInt8) : Prop where
  parts : text = spaces ++ (sign.bytes ++ (digits ++ rest))
  space : ∀ b ∈ spaces, isSpace b = true
  nonempty : digits ≠ []
  digit : ∀ b ∈ digits, isDigit b = true
  stop : ∀ b ∈ rest.head?, isDigit b = false
  value : n = sign.apply digits

lemma takeWhile_boundary {p : UInt8 → Bool} {inside rest : List UInt8} (hinside : ∀ b ∈ inside, p b = true)
    (hrest : ∀ b ∈ rest.head?, p b = false) : (inside ++ rest).takeWhile p = inside ∧ (inside ++ rest).dropWhile p = rest := by
  rw [List.takeWhile_append_of_pos hinside, List.dropWhile_append_of_pos hinside]
  cases rest with
  | nil => simp
  | cons b rest => simp [hrest b (by simp)]

lemma head_dropWhile {p : UInt8 → Bool} {text : List UInt8} : ∀ b ∈ (text.dropWhile p).head?, p b = false := by
  induction text with
  | nil => simp
  | cons b text ih =>
    rw [List.dropWhile_cons]
    split
    · exact ih
    case isFalse hb => simpa using hb

lemma exists_readSign (text : List UInt8) : ∃ sign : Sign, text = sign.bytes ++ (readSign text).2 ∧
    ((readSign text).1 = true ↔ sign = .minus) := by
  unfold readSign
  split
  · exact ⟨.minus, rfl, by simp⟩
  · exact ⟨.plus, rfl, by simp⟩
  · exact ⟨.none, rfl, by simp⟩

lemma readSign_append {digits rest : List UInt8} (sign : Sign) (hne : digits ≠ [])
    (hdigits : ∀ b ∈ digits, isDigit b = true) :
    (readSign (sign.bytes ++ (digits ++ rest))).2 = digits ++ rest ∧
      ((readSign (sign.bytes ++ (digits ++ rest))).1 = true ↔ sign = .minus) := by
  cases sign with
  | plus => simp [Sign.bytes, readSign]
  | minus => simp [Sign.bytes, readSign]
  | none =>
    cases digits with
    | nil => exact absurd rfl hne
    | cons b digits =>
      have hb := hdigits b (List.mem_cons_self ..)
      unfold readSign
      split
      case h_1 heq => rw [(List.cons.inj heq).1] at hb; exact absurd hb (by decide)
      case h_2 heq => rw [(List.cons.inj heq).1] at hb; exact absurd hb (by decide)
      case h_3 => simp [Sign.bytes]

lemma sign_apply_eq {negative : Bool} {sign : Sign} (digits : List UInt8) (h : negative = true ↔ sign = .minus) :
    (if negative = true then (2 ^ 64 - min (decimalValue digits) maxUint64) % 2 ^ 64
      else min (decimalValue digits) maxUint64) = sign.apply digits := by
  cases sign <;> simp_all [Sign.apply]

theorem strtoull_iff {text rest : List UInt8} {n : ℕ} :
    strtoull text = some (n, rest) ↔ ∃ spaces sign digits, Reads text n rest spaces sign digits := by
  constructor
  · intro h
    obtain ⟨sign, hsign, hminus⟩ := exists_readSign (text.dropWhile isSpace)
    simp only [strtoull] at h
    split at h
    · cases h
    case isFalse hne =>
      obtain ⟨hvalue, hrest⟩ := Prod.mk.inj (Option.some.inj h)
      refine ⟨text.takeWhile isSpace, sign, (readSign (text.dropWhile isSpace)).2.takeWhile isDigit,
        ⟨?_, ?_, by simpa using hne, ?_, ?_, ?_⟩⟩
      · rw [← hrest, List.takeWhile_append_dropWhile, ← hsign, List.takeWhile_append_dropWhile]
      · exact fun b hb => List.mem_takeWhile_imp hb
      · exact fun b hb => List.mem_takeWhile_imp hb
      · exact hrest ▸ head_dropWhile
      · rw [← hvalue, sign_apply_eq _ hminus]
  · rintro ⟨spaces, sign, digits, h⟩
    have hspace : text.dropWhile isSpace = sign.bytes ++ (digits ++ rest) := by
      rw [h.parts]
      refine (takeWhile_boundary h.space ?_).2
      cases sign with
      | plus => simp [Sign.bytes, isSpace]
      | minus => simp [Sign.bytes, isSpace]
      | none =>
        cases digits with
        | nil => exact absurd rfl h.nonempty
        | cons b digits => simpa [Sign.bytes] using isSpace_of_isDigit (h.digit b (List.mem_cons_self ..))
    obtain ⟨htext, hminus⟩ := @readSign_append digits rest sign h.nonempty h.digit
    obtain ⟨htake, hdrop⟩ := takeWhile_boundary h.digit h.stop
    have hne : digits.isEmpty = false := by simp [h.nonempty]
    simp only [strtoull, hspace, htext, htake, hdrop, hne, Bool.false_eq_true, if_false, sign_apply_eq digits hminus,
      h.value]

/-! ## Numerals -/

/-- All of the text is one number. -/
def Numeral (text : List UInt8) (n : ℕ) : Prop := strtoull text = some (n, [])

instance (text : List UInt8) (n : ℕ) : Decidable (Numeral text n) := inferInstanceAs (Decidable (_ = _))

/-- A number is read up to the first byte that does not belong to it. -/
theorem strtoull_numeral {text rest : List UInt8} {n : ℕ} : strtoull text = some (n, rest) ↔
    ∃ numeral, text = numeral ++ rest ∧ Numeral numeral n ∧ ∀ b ∈ rest.head?, isDigit b = false := by
  constructor
  · intro h
    obtain ⟨spaces, sign, digits, hreads⟩ := strtoull_iff.mp h
    refine ⟨spaces ++ (sign.bytes ++ digits), by simp [hreads.parts], strtoull_iff.mpr ⟨spaces, sign, digits, ?_⟩,
      hreads.stop⟩
    exact ⟨by simp, hreads.space, hreads.nonempty, hreads.digit, by simp, hreads.value⟩
  · rintro ⟨numeral, rfl, h, hrest⟩
    obtain ⟨spaces, sign, digits, hreads⟩ := strtoull_iff.mp h
    refine strtoull_iff.mpr ⟨spaces, sign, digits, ?_⟩
    exact ⟨by simp [hreads.parts], hreads.space, hreads.nonempty, hreads.digit, hrest, hreads.value⟩

lemma strtoull_append {numeral rest : List UInt8} {n : ℕ} (h : Numeral numeral n)
    (hrest : ∀ b ∈ rest.head?, isDigit b = false) : strtoull (numeral ++ rest) = some (n, rest) :=
  strtoull_numeral.mpr ⟨numeral, rfl, h, hrest⟩

lemma numeral_digits {digits : List UInt8} (hne : digits ≠ []) (hdigits : ∀ b ∈ digits, isDigit b = true) :
    Numeral digits (min (decimalValue digits) maxUint64) :=
  strtoull_iff.mpr ⟨[], .none, digits, ⟨by simp [Sign.bytes], by simp, hne, hdigits, by simp, rfl⟩⟩

/-! ## What `%llu` writes -/

lemma isDigit_decimal {n : ℕ} {b : UInt8} (h : b ∈ (decimal n).bytes) : isDigit b = true :=
  isDigit_of_range (mem_decimalDigits h)

lemma decimalDigits_ne_nil {fuel n : ℕ} (h : n < fuel) : decimalDigits fuel n ≠ [] := by
  cases fuel with
  | zero => omega
  | succ fuel =>
    rw [decimalDigits]
    split <;> simp

lemma decimal_ne_nil (n : ℕ) : (decimal n).bytes ≠ [] := decimalDigits_ne_nil (Nat.lt_succ_self n)

lemma decimalValue_decimal (n : ℕ) : decimalValue (decimal n).bytes = n :=
  decimalValue_decimalDigits (Nat.lt_succ_self n)

lemma numeral_decimal {n : ℕ} (hn : n < 2 ^ 64) : Numeral (decimal n).bytes n := by
  have h := numeral_digits (decimal_ne_nil n) fun b => isDigit_decimal
  rwa [decimalValue_decimal, Nat.min_eq_left (show n ≤ maxUint64 from Nat.le_sub_one_of_lt hn)] at h

/-- What is left of a number when its last digits are cut off. -/
lemma decimalDigits_take {fuel n count : ℕ} (hfuel : n < fuel) (hcount : count < (decimalDigits fuel n).length) :
    ∃ fuel', n / 10 ^ count < fuel' ∧
      (decimalDigits fuel n).take ((decimalDigits fuel n).length - count) = decimalDigits fuel' (n / 10 ^ count) := by
  induction count generalizing fuel n with
  | zero => exact ⟨fuel, by simpa using hfuel, by simp⟩
  | succ count ih =>
    cases fuel with
    | zero => omega
    | succ fuel =>
      by_cases hsmall : n < 10
      · simp [decimalDigits, hsmall] at hcount
      · have hdigits : decimalDigits (fuel + 1) n = decimalDigits fuel (n / 10) ++ [digit n] := by
          rw [decimalDigits, if_neg hsmall]
        rw [hdigits, List.length_append, List.length_singleton] at hcount ⊢
        obtain ⟨fuel', hfuel', htake⟩ := @ih fuel (n / 10) (by omega) (by omega)
        refine ⟨fuel', by rwa [pow_succ', ← Nat.div_div_eq_div_mul], ?_⟩
        rw [pow_succ', ← Nat.div_div_eq_div_mul, ← htake, Nat.add_sub_add_right,
          List.take_append_of_le_length (Nat.sub_le _ _)]

lemma decimalDigits_fuel {fuel fuel' n : ℕ} (h : n < fuel) (h' : n < fuel') :
    decimalDigits fuel n = decimalDigits fuel' n := by
  induction fuel generalizing fuel' n with
  | zero => omega
  | succ fuel ih =>
    cases fuel' with
    | zero => omega
    | succ fuel' =>
      rw [decimalDigits, decimalDigits]
      split
      · rfl
      · rw [ih (n := n / 10) (by omega) (show n / 10 < fuel' by omega)]

theorem decimal_take {n count : ℕ} (h : count < (decimal n).bytes.length) :
    (decimal n).bytes.take ((decimal n).bytes.length - count) = (decimal (n / 10 ^ count)).bytes := by
  obtain ⟨fuel', hfuel', htake⟩ := decimalDigits_take (Nat.lt_succ_self n) h
  exact htake.trans (decimalDigits_fuel hfuel' (Nat.lt_succ_self _))

lemma decimalDigits_pow_le {fuel n count : ℕ} (hn : 0 < n) (hcount : count < (decimalDigits fuel n).length) :
    10 ^ count ≤ n := by
  induction count generalizing fuel n with
  | zero => exact hn
  | succ count ih =>
    cases fuel with
    | zero => simp [decimalDigits] at hcount
    | succ fuel =>
      by_cases hsmall : n < 10
      · simp [decimalDigits, hsmall] at hcount
      · rw [decimalDigits, if_neg hsmall, List.length_append, List.length_singleton] at hcount
        have hrec := @ih fuel (n / 10) (by omega) (by omega)
        rw [pow_succ']
        omega

lemma decimal_div_pos {n count : ℕ} (hn : 0 < n) (hcount : count < (decimal n).bytes.length) : 0 < n / 10 ^ count :=
  Nat.div_pos (decimalDigits_pow_le hn hcount) (by positivity)

end Wyrebox.CString
