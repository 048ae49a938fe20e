import Wyrebox.HeaderDecoding

set_option autoImplicit false

/-!
# Pieces of a value

What a loop stops at in a part of a value is what it stops at there in the whole value.
-/
namespace Wyrebox.EncodedWordPieces
open AddressSyntax EncodedWords HeaderDecoding

/-! ## A word and the text around it -/

theorem splitEnd_append {text before after : List UInt8} (h : splitEnd text = some (before, after)) (more : List UInt8) :
    splitEnd (text ++ more) = some (before, after ++ more) := by
  induction text generalizing before with
  | nil => cases h
  | cons c rest ih =>
    rw [splitEnd] at h
    rw [List.cons_append, splitEnd]
    split at h
    · rename_i hmark
      cases h
      have hrest : rest ≠ [] := fun hnil => by simp [hnil] at hmark
      rw [List.head?_append_of_ne_nil _ hrest, if_pos hmark, List.tail_append_of_ne_nil hrest]
    · rename_i hmark
      rw [Option.map_eq_some_iff] at h
      obtain ⟨⟨before', after'⟩, hsplit, heq⟩ := h
      cases heq
      have hrest : rest ≠ [] := fun hnil => by rw [hnil] at hsplit; cases hsplit
      rw [List.head?_append_of_ne_nil _ hrest, if_neg hmark, ih hsplit]
      rfl

theorem splitEnd_shorten {text before after : List UInt8} (h : splitEnd text = some (before, after))
    (other : List UInt8) : splitEnd (before ++ 63 :: 61 :: other) = some (before, other) := by
  induction text generalizing before with
  | nil => cases h
  | cons c rest ih =>
    rw [splitEnd] at h
    split at h
    · cases h
      rfl
    · rename_i hmark
      rw [Option.map_eq_some_iff] at h
      obtain ⟨⟨before', after'⟩, hsplit, heq⟩ := h
      cases heq
      have hhead : (before' ++ 63 :: 61 :: other).head? = rest.head? := by
        rw [splitEnd_eq hsplit]
        cases before' <;> rfl
      rw [List.cons_append, splitEnd, hhead, if_neg hmark, ih hsplit]
      rfl

theorem findEncodedWord_of {charset rest : List UInt8} {encoding : UInt8} (hcharset : charset ≠ [])
    (hmarks : 63 ∉ charset) (hencoding : encoding ≠ 63) :
    findEncodedWord (61 :: 63 :: (charset ++ 63 :: encoding :: 63 :: rest)) =
      (splitEnd rest).map fun split => (⟨charset, encoding, split.1⟩, split.2) := by
  have hne : ∀ c ∈ charset, decide (c ≠ 63) = true := by
    intro c hc
    simpa using ne_of_mem_of_not_mem hc hmarks
  have htake : (charset ++ 63 :: encoding :: 63 :: rest).takeWhile (· ≠ 63) = charset := by
    rw [List.takeWhile_append_of_pos hne]
    simp
  have hdrop : (charset ++ 63 :: encoding :: 63 :: rest).dropWhile (· ≠ 63) = 63 :: encoding :: 63 :: rest := by
    rw [List.dropWhile_append_of_pos hne]
    simp
  simp only [findEncodedWord, htake, hdrop, hcharset, hencoding, or_self, if_false]

/-- A word that was found is found whatever follows it. -/
theorem findEncodedWord_word {text after : List UInt8} {word : EncodedWord} (h : findEncodedWord text = some (word, after))
    (other : List UInt8) : findEncodedWord (word.bytes ++ other) = some (word, other) := by
  unfold findEncodedWord at h
  split at h
  · rename_i rest
    split at h
    · rename_i mark encoding rest' hdrop
      dsimp only at h
      split at h
      · cases h
      · rename_i hvalid
        rw [not_or] at hvalid
        rw [Option.map_eq_some_iff] at h
        obtain ⟨⟨body, tail⟩, hsplit, heq⟩ := h
        cases heq
        have hmarks : (63 : UInt8) ∉ rest.takeWhile (· ≠ 63) := fun hin => by simpa using List.mem_takeWhile_imp hin
        have hbytes : (⟨rest.takeWhile (· ≠ 63), encoding, body⟩ : EncodedWord).bytes ++ other =
            61 :: 63 :: (rest.takeWhile (· ≠ 63) ++ 63 :: encoding :: 63 :: (body ++ 63 :: 61 :: other)) := by
          simp [EncodedWord.bytes]
        rw [hbytes, findEncodedWord_of hvalid.1 hmarks hvalid.2, splitEnd_shorten hsplit other]
        rfl
    · cases h
  · cases h

theorem findEncodedWord_append {text after : List UInt8} {word : EncodedWord}
    (h : findEncodedWord text = some (word, after)) (more : List UInt8) :
    findEncodedWord (text ++ more) = some (word, after ++ more) := by
  rw [findEncodedWord_bytes h, List.append_assoc]
  exact findEncodedWord_word h _

/-! ## Parts of a value -/

theorem tokens_cons {c : UInt8} {rest : List UInt8} {token : Token} {more : List Token}
    (h : tokens (c :: rest) = token :: more) : tokens (more.flatMap Token.bytes) = more := by
  cases hword : findEncodedWord (c :: rest) with
  | none =>
    rw [tokens_text hword, List.cons.injEq] at h
    rw [← h.2, tokens_bytes]
  | some found =>
    rw [tokens_word hword, List.cons.injEq] at h
    rw [← h.2, tokens_bytes]

theorem tokens_back {value : List UInt8} {pre post : List Token} (h : tokens value = pre ++ post) :
    tokens (post.flatMap Token.bytes) = post := by
  induction pre generalizing value with
  | nil =>
    rw [List.nil_append] at h
    rw [← h, tokens_bytes]
  | cons token pre ih =>
    cases value with
    | nil => cases h
    | cons c rest => exact ih (tokens_cons h)

theorem tokens_front {pre post : List Token} (h : tokens ((pre ++ post).flatMap Token.bytes) = pre ++ post) :
    tokens (pre.flatMap Token.bytes) = pre := by
  induction pre with
  | nil => rfl
  | cons token pre ih =>
    have hrest := ih (@tokens_back _ [token] _ h)
    rw [List.cons_append, List.flatMap_cons] at h
    rw [List.flatMap_cons]
    cases token with
    | text c =>
      have hnone : findEncodedWord (c :: pre.flatMap Token.bytes) = none := by
        cases hword : findEncodedWord (c :: pre.flatMap Token.bytes) with
        | none => rfl
        | some found =>
          have hlong : findEncodedWord (c :: (pre.flatMap Token.bytes ++ post.flatMap Token.bytes)) = _ :=
            findEncodedWord_append hword (post.flatMap Token.bytes)
          rw [List.flatMap_append] at h
          have hvalue : tokens (c :: (pre.flatMap Token.bytes ++ post.flatMap Token.bytes)) = .text c :: (pre ++ post) := h
          rw [tokens_word hlong] at hvalue
          cases hvalue
      change tokens (c :: pre.flatMap Token.bytes) = _
      rw [tokens_text hnone, hrest]
    | word word =>
      have hvalue : tokens (61 :: ((word.bytes ++ (pre ++ post).flatMap Token.bytes).tail)) = .word word :: (pre ++ post) := h
      cases hword : findEncodedWord (61 :: ((word.bytes ++ (pre ++ post).flatMap Token.bytes).tail)) with
      | none =>
        rw [tokens_text hword] at hvalue
        cases hvalue
      | some found =>
        rw [tokens_word hword, List.cons.injEq, Token.word.injEq] at hvalue
        obtain rfl := hvalue.1
        have hshort := findEncodedWord_word hword (pre.flatMap Token.bytes)
        change tokens (61 :: (found.1.bytes ++ pre.flatMap Token.bytes).tail) = _
        change findEncodedWord (61 :: (found.1.bytes ++ pre.flatMap Token.bytes).tail) = _ at hshort
        rw [tokens_word hshort, hrest]

theorem tokens_part {value : List UInt8} {pre mid post : List Token} (h : tokens value = pre ++ (mid ++ post)) :
    tokens (mid.flatMap Token.bytes) = mid :=
  tokens_front (tokens_back h)

/-! ## Pieces -/

def Token.piece : Token → Piece
  | .text c => .byte c
  | .word word => .word word.bytes

theorem piecesFrom_eq (n : ℕ) (value : List UInt8) : piecesFrom n value = (tokensFrom n value).map Token.piece := by
  induction n generalizing value with
  | zero => rfl
  | succ n ih =>
    cases value with
    | nil => rfl
    | cons c rest =>
      rw [piecesFrom, tokensFrom]
      cases findEncodedWord (c :: rest) with
      | none => exact congrArg _ (ih rest)
      | some found => exact congrArg _ (ih found.2)

theorem pieces_eq (value : List UInt8) : pieces value = (tokens value).map Token.piece := piecesFrom_eq _ value

theorem bytesOf_piece (found : List Token) : bytesOf (found.map Token.piece) = found.flatMap Token.bytes := by
  rw [bytesOf, List.flatMap_map]
  refine List.flatMap_congr fun token _ => ?_
  cases token <;> rfl

/-- The pieces of a value spell it. -/
theorem bytesOf_pieces (value : List UInt8) : bytesOf (pieces value) = value := by
  rw [pieces_eq, bytesOf_piece, tokens_bytes]

/-- A part of a value has the pieces that it has there. -/
theorem pieces_part {value : List UInt8} {mid : List Piece} (h : mid <:+: pieces value) : pieces (bytesOf mid) = mid := by
  obtain ⟨pre, post, hparts⟩ := h
  rw [pieces_eq] at hparts
  obtain ⟨front, post', htokens, hfront, rfl⟩ := List.map_eq_append_iff.mp hparts.symm
  obtain ⟨pre', mid', rfl, rfl, rfl⟩ := List.map_eq_append_iff.mp hfront
  rw [List.append_assoc] at htokens
  rw [bytesOf_piece, pieces_eq, tokens_part htokens]

end Wyrebox.EncodedWordPieces
