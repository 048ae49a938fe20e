import Mathlib.Data.List.Infix
import Wyrebox.PayloadText

set_option autoImplicit false

/-!
# Lines of an LMTP connection

What the delivery listener and the session parser share: reading a line that ends in CR LF, comparing
commands without regard to case, and taking the address between angle brackets.
-/
namespace Wyrebox.Lmtp
open JournalRecord CString
open PayloadText (strndup)

/-! ## Reading -/

inductive LineRead where
  | line (raw rest : List UInt8)
  /-- The stream ended, or failed. `clean` tells that no byte of a line had been read. -/
  | closed (clean : Bool)
  | tooLong
  deriving DecidableEq, Repr

/-- The loop of `read_crlf_line`. A CR that no LF follows belongs to the line. -/
def readLoop (limit : ℕ) : Bool → List UInt8 → List UInt8 → LineRead
  | pendingCr, line, [] => .closed (line.isEmpty && !pendingCr)
  | true, line, byte :: rest =>
    if byte = 10 then .line line rest
    else if limit ≤ line.length then .tooLong
    else if byte = 13 then readLoop limit true (line ++ [13]) rest
    else if limit ≤ line.length + 1 then .tooLong
    else readLoop limit false (line ++ [13, byte]) rest
  | false, line, byte :: rest =>
    if byte = 13 then readLoop limit true line rest
    else if limit ≤ line.length then .tooLong
    else readLoop limit false (line ++ [byte]) rest

def readCrlfLine (limit : ℕ) (input : List UInt8) : LineRead := readLoop limit false [] input

/-- The bytes of a line on the wire. -/
def wire (raw : List UInt8) : List UInt8 := raw ++ [13, 10]

/-- `g_strndup` of the line buffer, whose storage is `NULL` until a byte of any line has been kept in it. -/
def lineText (allocated : Bool) (raw : List UInt8) : Option CString :=
  if allocated || !raw.isEmpty then some (strndup raw) else none

/-! ## Comparing -/

/-- `g_ascii_tolower`. -/
def toLower (b : UInt8) : UInt8 := if 65 ≤ b ∧ b ≤ 90 then b + 32 else b

/-- `line_has_prefix_ci`. -/
def hasPrefixCi (line expected : CString) : Bool :=
  (expected.bytes.map toLower).isPrefixOf (line.bytes.map toLower)

/-- `g_ascii_strcasecmp` answers 0. -/
def equalCi (line expected : CString) : Bool := line.bytes.map toLower == expected.bytes.map toLower

/-- `g_ascii_iscntrl`. -/
def isControl (b : UInt8) : Bool := b < 32 || b == 127

def lhloCommand : CString := literal "LHLO "
def mailCommand : CString := literal "MAIL FROM:"
def rcptCommand : CString := literal "RCPT TO:"
def dataCommand : CString := literal "DATA"
def rsetCommand : CString := literal "RSET"
def quitCommand : CString := literal "QUIT"

/-! ## Addresses -/

/-- `strrchr`. -/
def lastIndexOf (b : UInt8) (bytes : List UInt8) : Option ℕ :=
  (bytes.reverse.findIdx? (· = b)).map fun i => bytes.length - 1 - i

/-- What stands between the first `<` and the last `>`. -/
def between (line : CString) (start stop : ℕ) : CString where
  bytes := (line.bytes.drop (start + 1)).take (stop - start - 1)
  no_nul := fun h => line.no_nul (List.mem_of_mem_drop (List.mem_of_mem_take h))

def extractPathArgument (line command : CString) : Option CString :=
  if !hasPrefixCi line command then none
  else match line.bytes.findIdx? (· = 60), lastIndexOf 62 line.bytes with
    | some start, some stop => if stop < start then none else some (between line start stop)
    | _, _ => none

/-! ## Message lines -/

/-- A line of DATA without the dot that the client put before it. -/
def unstuff : List UInt8 → List UInt8
  | 46 :: payload => payload
  | line => line

section
variable {limit : ℕ}

theorem readLoop_rest {pendingCr : Bool} {line input raw rest : List UInt8}
    (h : readLoop limit pendingCr line input = .line raw rest) : rest.length < input.length := by
  induction input generalizing pendingCr line with
  | nil => cases pendingCr <;> simp [readLoop] at h
  | cons byte input ih =>
    have hlt : ∀ {pendingCr line}, readLoop limit pendingCr line input = .line raw rest →
        rest.length < (byte :: input).length := fun hrec => (ih hrec).trans (by simp)
    cases pendingCr with
    | true =>
      rw [readLoop] at h
      split at h
      · obtain ⟨-, rfl⟩ := LineRead.line.inj h
        simp
      split at h
      · cases h
      split at h
      · exact hlt h
      split at h
      · cases h
      · exact hlt h
    | false =>
      rw [readLoop] at h
      split at h
      · exact hlt h
      split at h
      · cases h
      · exact hlt h

/-- A line takes its bytes and CR LF from the stream. -/
theorem readLoop_wire {pendingCr : Bool} {line input raw rest : List UInt8}
    (h : readLoop limit pendingCr line input = .line raw rest) :
    line ++ (if pendingCr then [13] else []) ++ input = wire raw ++ rest := by
  induction input generalizing pendingCr line with
  | nil => cases pendingCr <;> simp [readLoop] at h
  | cons byte input ih =>
    cases pendingCr with
    | true =>
      rw [readLoop] at h
      split at h
      case isTrue hbyte =>
        obtain ⟨rfl, rfl⟩ := LineRead.line.inj h
        simp [wire, hbyte]
      split at h
      · cases h
      split at h
      case isTrue hbyte =>
        rw [← ih h]
        simp [hbyte]
      split at h
      · cases h
      · rw [← ih h]
        simp
    | false =>
      rw [readLoop] at h
      split at h
      case isTrue hbyte =>
        rw [← ih h]
        simp [hbyte]
      split at h
      · cases h
      · rw [← ih h]
        simp

theorem readLoop_of_wire {line raw rest : List UInt8} (hcr : 13 ∉ raw) (h : line.length + raw.length ≤ limit) :
    readLoop limit false line (wire raw ++ rest) = .line (line ++ raw) rest := by
  induction raw generalizing line with
  | nil => simp [wire, readLoop]
  | cons b raw ih =>
    rw [List.mem_cons, not_or] at hcr
    rw [List.length_cons] at h
    change readLoop limit false line (b :: (wire raw ++ rest)) = _
    rw [readLoop, if_neg (Ne.symm hcr.1), if_neg (by omega),
      ih hcr.2 (by rw [List.length_append, List.length_singleton]; omega), List.append_assoc, List.singleton_append]

theorem readLoop_replicate {n : ℕ} {b : UInt8} {line rest : List UInt8} (hb : b ≠ 13) (hline : line.length ≤ limit)
    (h : limit < line.length + n) : readLoop limit false line (List.replicate n b ++ rest) = .tooLong := by
  induction n generalizing line with
  | zero => omega
  | succ n ih =>
    rw [List.replicate_succ, List.cons_append, readLoop, if_neg hb]
    split
    · rfl
    · refine ih ?_ ?_ <;> rw [List.length_append, List.length_singleton] <;> omega

/-! ### Other limits -/

theorem readLoop_extends {pendingCr : Bool} {line input raw rest : List UInt8}
    (h : readLoop limit pendingCr line input = .line raw rest) : line <+: raw := by
  induction input generalizing pendingCr line with
  | nil => cases pendingCr <;> simp [readLoop] at h
  | cons byte input ih =>
    cases pendingCr with
    | true =>
      rw [readLoop] at h
      split at h
      · obtain ⟨rfl, -⟩ := LineRead.line.inj h
        exact List.prefix_refl line
      split at h
      · cases h
      split at h
      · exact (List.prefix_append ..).trans (ih h)
      split at h
      · cases h
      · exact (List.prefix_append ..).trans (ih h)
    | false =>
      rw [readLoop] at h
      split at h
      · exact ih h
      split at h
      · cases h
      · exact (List.prefix_append ..).trans (ih h)

/-- A line is read under every limit that it keeps. -/
theorem readLoop_within {limit' : ℕ} {pendingCr : Bool} {line input raw rest : List UInt8}
    (h : readLoop limit pendingCr line input = .line raw rest) (hlimit : raw.length ≤ limit') :
    readLoop limit' pendingCr line input = .line raw rest := by
  induction input generalizing pendingCr line with
  | nil => cases pendingCr <;> simp [readLoop] at h
  | cons byte input ih =>
    cases pendingCr with
    | true =>
      rw [readLoop] at h ⊢
      split at h
      case isTrue hbyte => rw [if_pos hbyte, h]
      case isFalse hbyte =>
        split at h
        · cases h
        split at h
        case isTrue hcr =>
          have hlen := (readLoop_extends h).length_le
          rw [List.length_append, List.length_singleton] at hlen
          rw [if_neg hbyte, if_neg (by omega), if_pos hcr, ih h]
        case isFalse hcr =>
          split at h
          · cases h
          · have hlen := (readLoop_extends h).length_le
            rw [List.length_append, List.length_cons, List.length_singleton] at hlen
            rw [if_neg hbyte, if_neg (by omega), if_neg hcr, if_neg (by omega), ih h]
    | false =>
      rw [readLoop] at h ⊢
      split at h
      case isTrue hcr => rw [if_pos hcr, ih h]
      case isFalse hcr =>
        split at h
        · cases h
        · have hlen := (readLoop_extends h).length_le
          rw [List.length_append, List.length_singleton] at hlen
          rw [if_neg hcr, if_neg (by omega), ih h]

theorem readLoop_beyond {limit' : ℕ} {pendingCr : Bool} {line input raw rest : List UInt8}
    (h : readLoop limit pendingCr line input = .line raw rest) (hlimit : limit' < raw.length)
    (hline : line.length ≤ limit') : readLoop limit' pendingCr line input = .tooLong := by
  induction input generalizing pendingCr line with
  | nil => cases pendingCr <;> simp [readLoop] at h
  | cons byte input ih =>
    cases pendingCr with
    | true =>
      rw [readLoop] at h ⊢
      split at h
      · obtain ⟨rfl, -⟩ := LineRead.line.inj h
        omega
      case isFalse hbyte =>
        rw [if_neg hbyte]
        split at h
        · cases h
        split
        · rfl
        split at h
        case isTrue hcr =>
          rw [if_pos hcr]
          exact ih h (by rw [List.length_append, List.length_singleton]; omega)
        case isFalse hcr =>
          rw [if_neg hcr]
          split at h
          · cases h
          split
          · rfl
          · exact ih h (by rw [List.length_append, List.length_cons, List.length_singleton]; omega)
    | false =>
      rw [readLoop] at h ⊢
      split at h
      case isTrue hcr =>
        rw [if_pos hcr]
        exact ih h hline
      case isFalse hcr =>
        rw [if_neg hcr]
        split at h
        · cases h
        split
        · rfl
        · exact ih h (by rw [List.length_append, List.length_singleton]; omega)

theorem readLoop_clean {pendingCr : Bool} {line input : List UInt8}
    (h : readLoop limit pendingCr line input = .closed true) : pendingCr = false ∧ line = [] ∧ input = [] := by
  induction input generalizing pendingCr line with
  | nil =>
    cases pendingCr with
    | true => simp [readLoop] at h
    | false => simpa [readLoop] using h
  | cons byte input ih =>
    cases pendingCr with
    | true =>
      rw [readLoop] at h
      split at h
      · cases h
      split at h
      · cases h
      split at h
      · exact absurd (ih h).1 (by decide)
      split at h
      · cases h
      · exact absurd (ih h).2.1 (by simp)
    | false =>
      rw [readLoop] at h
      split at h
      · exact absurd (ih h).1 (by decide)
      split at h
      · cases h
      · exact absurd (ih h).2.1 (by simp)

end

theorem readCrlfLine_of_wire {limit : ℕ} {raw rest : List UInt8} (hcr : 13 ∉ raw) (h : raw.length ≤ limit) :
    readCrlfLine limit (wire raw ++ rest) = .line raw rest :=
  readLoop_of_wire hcr (by simpa using h)

theorem readCrlfLine_rest {limit : ℕ} {input raw rest : List UInt8}
    (h : readCrlfLine limit input = .line raw rest) : rest.length < input.length :=
  readLoop_rest h

theorem readCrlfLine_wire {limit : ℕ} {input raw rest : List UInt8}
    (h : readCrlfLine limit input = .line raw rest) : input = wire raw ++ rest := by
  simpa using readLoop_wire h

end Wyrebox.Lmtp
