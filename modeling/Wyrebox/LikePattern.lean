import Mathlib.Data.List.Infix

set_option autoImplicit false

/-!
# `LIKE` with an escape character

A pattern over bytes of UTF-8: `%` stands for any text, `_` for one character, and the character after an
escape for itself.
-/
namespace Wyrebox.LikePattern

inductive Element where
  | literal (c : UInt8)
  | anyText
  | oneCharacter
  deriving DecidableEq

/-- A pattern must not end with an escape. -/
def parse (escape : UInt8) : List UInt8 → Option (List Element)
  | [] => some []
  | c :: rest =>
    if c = escape then
      match rest with
      | [] => none
      | d :: rest => (parse escape rest).map (.literal d :: ·)
    else if c = 37 then (parse escape rest).map (.anyText :: ·)
    else if c = 95 then (parse escape rest).map (.oneCharacter :: ·)
    else (parse escape rest).map (.literal c :: ·)

def isContinuation (c : UInt8) : Bool := 0x80 ≤ c ∧ c < 0xc0

def fits : List Element → List UInt8 → Bool
  | [], text => text.isEmpty
  | .literal c :: rest, text =>
    match text with
    | [] => false
    | d :: text => c = d && fits rest text
  | .oneCharacter :: rest, text =>
    match text with
    | [] => false
    | _ :: text => fits rest (text.dropWhile isContinuation)
  | .anyText :: rest, text => text.tails.any (fits rest)

/-- `text LIKE pattern ESCAPE escape`. -/
def like (escape : UInt8) (text pattern : List UInt8) : Option Bool := (parse escape pattern).map fun elements => fits elements text

/-! ## Text that contains a text -/

theorem fits_literals (part text : List UInt8) : fits (part.map .literal ++ [.anyText]) text = (part <+: text : Bool) := by
  induction part generalizing text with
  | nil =>
    simp [fits]
  | cons c part ih =>
    cases text with
    | nil => simp [fits]
    | cons d text =>
      rw [List.map_cons, List.cons_append, fits]
      simp only [ih]
      by_cases hcd : c = d
      · simp [hcd]
      · simp [hcd]

theorem fits_contains (part text : List UInt8) :
    fits (.anyText :: (part.map .literal ++ [.anyText])) text = (part <:+: text : Bool) := by
  rw [fits, Bool.eq_iff_iff, List.any_eq_true, decide_eq_true_eq, List.infix_iff_prefix_suffix]
  refine exists_congr fun rest => ?_
  rw [List.mem_tails, fits_literals, decide_eq_true_eq]
  exact and_comm

/-! ## Escaping -/

def isControl (escape c : UInt8) : Bool := c = 37 ∨ c = 95 ∨ c = escape

def escaped (escape : UInt8) (text : List UInt8) : List UInt8 :=
  text.flatMap fun c => if isControl escape c then [escape, c] else [c]

theorem parse_pair (escape c : UInt8) (rest : List UInt8) :
    parse escape (escape :: c :: rest) = (parse escape rest).map (.literal c :: ·) := by simp [parse]

theorem parse_literal {escape c : UInt8} (h : isControl escape c = false) (rest : List UInt8) :
    parse escape (c :: rest) = (parse escape rest).map (.literal c :: ·) := by
  simp only [isControl, decide_eq_false_iff_not, not_or] at h
  cases rest <;> simp [parse, h]

theorem parse_anyText {escape : UInt8} (h : escape ≠ 37) (rest : List UInt8) :
    parse escape (37 :: rest) = (parse escape rest).map (.anyText :: ·) := by
  cases rest <;> simp [parse, h.symm]

theorem parse_escaped (escape : UInt8) (text rest : List UInt8) :
    parse escape (escaped escape text ++ rest) = (parse escape rest).map (text.map .literal ++ ·) := by
  induction text with
  | nil => simp [escaped]
  | cons c text ih =>
    have hcons : escaped escape (c :: text) ++ rest =
        (if isControl escape c then [escape, c] else [c]) ++ (escaped escape text ++ rest) := by
      rw [escaped, List.flatMap_cons, List.append_assoc]
      rfl
    rw [hcons]
    cases hcontrol : isControl escape c with
    | true =>
      rw [if_pos rfl, List.cons_append, List.cons_append, List.nil_append, parse_pair, ih, Option.map_map]
      rfl
    | false =>
      rw [if_neg Bool.false_ne_true, List.cons_append, List.nil_append, parse_literal hcontrol, ih, Option.map_map]
      rfl

/-- The pattern of an escaped text between two `%` finds the texts that contain it. -/
theorem like_escaped {escape : UInt8} (hescape : escape ≠ 37) (part text : List UInt8) :
    like escape text (37 :: (escaped escape part ++ [37])) = some (part <:+: text : Bool) := by
  rw [like, parse_anyText hescape, parse_escaped, parse_anyText hescape, parse]
  simp only [Option.map_some, fits_contains]

end Wyrebox.LikePattern
