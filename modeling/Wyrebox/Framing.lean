import Mathlib.Data.List.Basic
import Mathlib.Data.List.TakeDrop
import Mathlib.Order.Nat

set_option autoImplicit false

/-!
# Frames with a length in front

A stream of frames: a header of fixed width gives the length of the payload behind it. Every stream
is a list of whole frames and a rest that no frame begins, in exactly one way.
-/
namespace Wyrebox.Framing

/-- A header of `width` bytes for payloads of one to `limit` bytes. -/
structure Header where
  width : ℕ
  limit : ℕ
  spell : ℕ → List UInt8
  value : List UInt8 → ℕ
  width_pos : 0 < width
  spell_length : ∀ n, (spell n).length = width
  value_spell : ∀ n ≤ limit, value (spell n) = n
  spell_value : ∀ bytes, bytes.length = width → spell (value bytes) = bytes

/-- Why no frame can be taken. -/
inductive Stuck where
  | ended
  | shortHeader
  | noPayload
  | tooLong (size : ℕ)
  | shortPayload
  deriving DecidableEq

namespace Header
variable (h : Header)

def frame (payload : List UInt8) : List UInt8 := h.spell payload.length ++ payload

/-- Neither empty nor too long. -/
def Fits (payload : List UInt8) : Prop := payload ≠ [] ∧ payload.length ≤ h.limit

instance (payload : List UInt8) : Decidable (h.Fits payload) := inferInstanceAs (Decidable (_ ∧ _))

/-- The first payload and what follows its frame. -/
def first (stream : List UInt8) : Except Stuck (List UInt8 × List UInt8) :=
  if stream = [] then .error .ended
  else if stream.length < h.width then .error .shortHeader
  else if h.value (stream.take h.width) = 0 then .error .noPayload
  else if h.limit < h.value (stream.take h.width) then .error (.tooLong (h.value (stream.take h.width)))
  else if (stream.drop h.width).length < h.value (stream.take h.width) then .error .shortPayload
  else .ok ((stream.drop h.width).take (h.value (stream.take h.width)),
    (stream.drop h.width).drop (h.value (stream.take h.width)))

variable {h}
variable {payload rest stream : List UInt8}

theorem frame_length (payload : List UInt8) : (h.frame payload).length = h.width + payload.length := by
  rw [frame, List.length_append, h.spell_length]

theorem frame_ne_nil (payload : List UInt8) : h.frame payload ≠ [] := by
  have hpos := h.width_pos
  apply List.ne_nil_of_length_pos
  rw [frame_length]
  omega

theorem first_frame (hfits : h.Fits payload) (rest : List UInt8) : h.first (h.frame payload ++ rest) = .ok (payload, rest) := by
  have hpos := List.length_pos_iff.mpr hfits.1
  have hlimit := hfits.2
  have hne : h.frame payload ++ rest ≠ [] := List.append_ne_nil_of_left_ne_nil (frame_ne_nil payload) rest
  have htake : (h.frame payload ++ rest).take h.width = h.spell payload.length := by
    rw [frame, List.append_assoc, List.take_append_of_le_length (h.spell_length _).ge,
      List.take_of_length_le (h.spell_length _).le]
  have hdrop : (h.frame payload ++ rest).drop h.width = payload ++ rest := by
    rw [frame, List.append_assoc, List.drop_append_of_le_length (h.spell_length _).ge,
      List.drop_of_length_le (h.spell_length _).le, List.nil_append]
  rw [first, htake, hdrop, h.value_spell _ hfits.2, if_neg hne, if_neg, if_neg (by omega), if_neg (by omega),
    if_neg, List.take_left, List.drop_left]
  · rw [List.length_append]
    omega
  · rw [List.length_append, frame_length]
    omega

theorem first_eq_ok (hok : h.first stream = .ok (payload, rest)) : h.Fits payload ∧ stream = h.frame payload ++ rest := by
  rw [first] at hok
  split_ifs at hok with hnil hshort hzero hlong hcut
  cases hok
  have hwidth : (stream.take h.width).length = h.width := List.length_take_of_le (Nat.not_lt.mp hshort)
  have hlength : ((stream.drop h.width).take (h.value (stream.take h.width))).length =
      h.value (stream.take h.width) := List.length_take_of_le (Nat.not_lt.mp hcut)
  refine ⟨⟨?_, by rw [hlength]; exact Nat.not_lt.mp hlong⟩, ?_⟩
  · apply List.ne_nil_of_length_pos
    rw [hlength]
    omega
  · rw [frame, hlength, h.spell_value _ hwidth, List.append_assoc, List.take_append_drop, List.take_append_drop]

theorem first_rest_lt (hok : h.first stream = .ok (payload, rest)) : rest.length < stream.length := by
  have hpos := h.width_pos
  rw [(first_eq_ok hok).2, List.length_append, frame_length]
  omega

/-! ## Whole streams -/

/-- `stream` is the frames of `payloads`, and then `rest`, which does not begin with a frame. -/
structure Splits (h : Header) (stream : List UInt8) (payloads : List (List UInt8)) (rest : List UInt8) (stuck : Stuck) :
    Prop where
  fits : ∀ payload ∈ payloads, h.Fits payload
  spelled : stream = payloads.flatMap h.frame ++ rest
  stuck : h.first rest = .error stuck

theorem Splits.cons {payloads : List (List UInt8)} {tail : List UInt8} {stuck : Stuck}
    (hfirst : h.first stream = .ok (payload, tail)) (hsplits : Splits h tail payloads rest stuck) :
    Splits h stream (payload :: payloads) rest stuck where
  fits := List.forall_mem_cons.mpr ⟨(first_eq_ok hfirst).1, hsplits.fits⟩
  spelled := by rw [(first_eq_ok hfirst).2, hsplits.spelled, List.flatMap_cons, List.append_assoc]
  stuck := hsplits.stuck

theorem exists_splits (stream : List UInt8) : ∃ payloads rest stuck, Splits h stream payloads rest stuck := by
  induction hn : stream.length using Nat.strongRecOn generalizing stream with
  | _ n ih =>
    cases hfirst : h.first stream with
    | error stuck => exact ⟨[], stream, stuck, by simp, rfl, hfirst⟩
    | ok result =>
      obtain ⟨payload, tail⟩ := result
      obtain ⟨payloads, rest, stuck, hsplits⟩ := ih tail.length (hn ▸ first_rest_lt hfirst) tail rfl
      exact ⟨payload :: payloads, rest, stuck, hsplits.cons hfirst⟩

/-- Frames cannot be read in two ways. -/
theorem Splits.unique {payloads payloads' : List (List UInt8)} {rest' : List UInt8} {stuck stuck' : Stuck}
    (hsplits : Splits h stream payloads rest stuck) (hsplits' : Splits h stream payloads' rest' stuck') :
    payloads = payloads' ∧ rest = rest' ∧ stuck = stuck' := by
  induction payloads generalizing stream payloads' with
  | nil =>
    have hstuck := hsplits.stuck
    have hstream : stream = rest := hsplits.spelled
    cases payloads' with
    | nil =>
      have hstream' : stream = rest' := hsplits'.spelled
      subst hstream
      subst hstream'
      exact ⟨rfl, rfl, Except.error.inj (hstuck.symm.trans hsplits'.stuck)⟩
    | cons payload' payloads' =>
      have hfirst := first_frame (hsplits'.fits payload' List.mem_cons_self) (payloads'.flatMap h.frame ++ rest')
      rw [← List.append_assoc, ← List.flatMap_cons, ← hsplits'.spelled, hstream, hstuck] at hfirst
      cases hfirst
  | cons payload payloads ih =>
    have hfirst := first_frame (hsplits.fits payload List.mem_cons_self) (payloads.flatMap h.frame ++ rest)
    rw [← List.append_assoc, ← List.flatMap_cons, ← hsplits.spelled] at hfirst
    cases payloads' with
    | nil =>
      have hstream' : stream = rest' := hsplits'.spelled
      rw [hstream', hsplits'.stuck] at hfirst
      cases hfirst
    | cons payload' payloads' =>
      have hfirst' := first_frame (hsplits'.fits payload' List.mem_cons_self) (payloads'.flatMap h.frame ++ rest')
      rw [← List.append_assoc, ← List.flatMap_cons, ← hsplits'.spelled, hfirst] at hfirst'
      obtain ⟨rfl, htail⟩ := Prod.mk.inj (Except.ok.inj hfirst')
      have hrest : Splits h (payloads.flatMap h.frame ++ rest) payloads rest stuck :=
        ⟨fun p hp => hsplits.fits p (List.mem_cons_of_mem _ hp), rfl, hsplits.stuck⟩
      have hrest' : Splits h (payloads.flatMap h.frame ++ rest) payloads' rest' stuck' :=
        ⟨fun p hp => hsplits'.fits p (List.mem_cons_of_mem _ hp), htail, hsplits'.stuck⟩
      obtain ⟨heq, hsame⟩ := ih hrest hrest'
      exact ⟨by rw [heq], hsame⟩

/-- A frame that is cut anywhere is not a frame. -/
theorem first_take_frame (hfits : h.Fits payload) {n : ℕ} (hn : n < (h.frame payload).length) :
    ∃ stuck, h.first ((h.frame payload).take n) = .error stuck := by
  cases hcut : h.first ((h.frame payload).take n) with
  | error stuck => exact ⟨stuck, rfl⟩
  | ok result =>
    obtain ⟨payload', rest'⟩ := result
    obtain ⟨hfits', hspelled⟩ := first_eq_ok hcut
    have hwhole := first_frame hfits' (rest' ++ (h.frame payload).drop n)
    rw [← List.append_assoc, ← hspelled, List.take_append_drop, ← List.append_nil (h.frame payload),
      first_frame hfits] at hwhole
    obtain ⟨rfl, hnil⟩ := Prod.mk.inj (Except.ok.inj hwhole)
    have hlength := congrArg List.length hspelled
    have hdrop : ((h.frame payload ++ []).drop n).length = 0 := by
      rw [(List.append_eq_nil_iff.mp hnil.symm).2, List.length_nil]
    rw [List.length_append, List.length_take] at hlength
    rw [List.append_nil, List.length_drop] at hdrop
    omega

end Header
end Wyrebox.Framing
