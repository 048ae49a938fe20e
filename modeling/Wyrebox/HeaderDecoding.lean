import Wyrebox.EncodedWords
import Wyrebox.JournalRecord

set_option autoImplicit false

/-!
# Decoding of header values

A header value is text and encoded words. Decoding is all or nothing, and the white space between two
words is not part of the result.
-/
namespace Wyrebox.HeaderDecoding
open EncodedWords

inductive Token where
  | text (c : UInt8)
  | word (word : EncodedWord)
  deriving DecidableEq

def Token.bytes : Token → List UInt8
  | .text c => [c]
  | .word found => found.bytes

def tokensFrom : ℕ → List UInt8 → List Token
  | 0, _ => []
  | _, [] => []
  | fuel + 1, c :: rest =>
    match findEncodedWord (c :: rest) with
    | some (word, after) => .word word :: tokensFrom fuel after
    | none => .text c :: tokensFrom fuel rest

/-- The words and the other bytes of a value, from the left. -/
def tokens (value : List UInt8) : List Token := tokensFrom value.length value

/-! ## Words at a position -/

theorem splitEnd_eq {text before after : List UInt8} (h : splitEnd text = some (before, after)) :
    text = before ++ 63 :: 61 :: after := by
  induction text generalizing before with
  | nil => cases h
  | cons c rest ih =>
    rw [splitEnd] at h
    split at h
    · rename_i hmark
      obtain ⟨rfl, hhead⟩ := hmark
      cases h
      rw [List.nil_append, List.cons_head?_tail hhead]
    · rw [Option.map_eq_some_iff] at h
      obtain ⟨⟨before', after'⟩, hsplit, heq⟩ := h
      cases heq
      rw [ih hsplit, List.cons_append]

/-- A word is taken from the front of the text. -/
theorem findEncodedWord_bytes {text after : List UInt8} {word : EncodedWord}
    (h : findEncodedWord text = some (word, after)) : text = word.bytes ++ after := by
  unfold findEncodedWord at h
  split at h
  · rename_i rest
    split at h
    · rename_i mark encoding rest' hdrop
      dsimp only at h
      split at h
      · cases h
      · rw [Option.map_eq_some_iff] at h
        obtain ⟨⟨body, tail⟩, hsplit, heq⟩ := h
        cases heq
        have hmark : mark = 63 := by
          have hhead := List.head?_dropWhile_not (fun c : UInt8 => decide (c ≠ 63)) rest
          rw [hdrop] at hhead
          simpa using hhead
        have hrest : rest = rest.takeWhile (· ≠ 63) ++ rest.dropWhile (· ≠ 63) := by simp
        rw [hdrop, hmark, splitEnd_eq hsplit] at hrest
        rw [EncodedWord.bytes]
        simp only [List.cons_append, List.append_assoc, List.cons.injEq, true_and, List.nil_append]
        exact hrest
    · cases h
  · cases h

theorem findEncodedWord_length {text after : List UInt8} {word : EncodedWord}
    (h : findEncodedWord text = some (word, after)) : after.length < text.length := by
  rw [findEncodedWord_bytes h, EncodedWord.bytes]
  simp only [List.cons_append, List.length_cons, List.length_append]
  omega

theorem findEncodedWord_start {c : UInt8} {rest after : List UInt8} {word : EncodedWord}
    (h : findEncodedWord (c :: rest) = some (word, after)) : c = 61 ∧ rest.head? = some 63 := by
  have hbytes := findEncodedWord_bytes h
  rw [EncodedWord.bytes] at hbytes
  cases hbytes
  exact ⟨rfl, rfl⟩

/-! ## Tokens of a value -/

theorem tokensFrom_eq (n m : ℕ) (value : List UInt8) (hn : value.length ≤ n) (hm : value.length ≤ m) :
    tokensFrom n value = tokensFrom m value := by
  induction n generalizing m value with
  | zero =>
    rw [List.eq_nil_of_length_eq_zero (Nat.le_zero.mp hn)]
    cases m <;> rfl
  | succ n ih =>
    cases value with
    | nil => cases m <;> rfl
    | cons c rest =>
      rw [List.length_cons] at hn hm
      obtain ⟨m, rfl⟩ : ∃ k, m = k + 1 := ⟨m - 1, by omega⟩
      rw [tokensFrom, tokensFrom]
      cases hword : findEncodedWord (c :: rest) with
      | none => simp only [ih m rest (by omega) (by omega)]
      | some found =>
        have hlt := findEncodedWord_length hword
        rw [List.length_cons] at hlt
        simp only [ih m found.2 (by omega) (by omega)]

@[simp] theorem tokens_nil : tokens [] = [] := rfl

theorem tokens_text {c : UInt8} {rest : List UInt8} (h : findEncodedWord (c :: rest) = none) :
    tokens (c :: rest) = .text c :: tokens rest := by
  rw [tokens, List.length_cons, tokensFrom, h, tokens]

theorem tokens_word {c : UInt8} {rest after : List UInt8} {word : EncodedWord}
    (h : findEncodedWord (c :: rest) = some (word, after)) : tokens (c :: rest) = .word word :: tokens after := by
  have hlt := findEncodedWord_length h
  rw [List.length_cons] at hlt
  rw [tokens, List.length_cons, tokensFrom, h, tokens]
  simp only [tokensFrom_eq rest.length after.length after (by omega) le_rfl]

theorem tokens_bytes (value : List UInt8) : (tokens value).flatMap Token.bytes = value := by
  induction hlength : value.length using Nat.strong_induction_on generalizing value with
  | h n ih =>
    cases value with
    | nil => rfl
    | cons c rest =>
      cases hword : findEncodedWord (c :: rest) with
      | none =>
        rw [tokens_text hword, List.flatMap_cons, ih rest.length (by simp [← hlength]) rest rfl]
        rfl
      | some found =>
        have hlt := findEncodedWord_length hword
        rw [tokens_word hword, List.flatMap_cons, ih found.2.length (by omega) found.2 rfl,
          findEncodedWord_bytes hword]
        rfl

/-- White space is text. -/
theorem tokens_space {c : UInt8} {rest : List UInt8} (h : isSpace c = true) :
    tokens (c :: rest) = .text c :: tokens rest := by
  cases hword : findEncodedWord (c :: rest) with
  | none => exact tokens_text hword
  | some found =>
    rw [(findEncodedWord_start hword).1] at h
    cases h

/-! ## White space between words -/

def Token.isBlank : Token → Bool
  | .text c => isSpace c
  | .word _ => false

def startsWithWord : List Token → Bool
  | .word _ :: _ => true
  | _ => false

/-- The text goes on with `=?`. -/
def startsLikeWord : List Token → Bool
  | .word _ :: _ => true
  | .text 61 :: .text 63 :: _ => true
  | _ => false

/-- Leave out white space that follows a word where `closes` holds of what follows the white space. -/
def suppress (closes : List Token → Bool) : Bool → List Token → List Token
  | _, [] => []
  | _, .word word :: rest => .word word :: suppress closes true rest
  | afterWord, .text c :: rest =>
    if afterWord && isSpace c && closes (rest.dropWhile Token.isBlank) then suppress closes true rest
    else .text c :: suppress closes false rest

/-- The white space between adjacent words is left out. -/
def suppressGaps (tokens : List Token) : List Token := suppress startsWithWord false tokens

section
variable (glib : GLib)

def render : Token → Option (List UInt8)
  | .text c => some [c]
  | .word word => decodeRfc2047Word glib word

/-- Every word is decoded. -/
def decodeTokens (tokens : List Token) : Option (List UInt8) := (tokens.mapM (render glib)).map List.flatten

/-- What decoding is for: all words or none, and no other text changed. -/
def decodedValue (value : List UInt8) : List UInt8 := (decodeTokens glib (suppressGaps (tokens value))).getD value

/-! ## The decoder on tokens -/

theorem startsLikeWord_tokens (value : List UInt8) : startsLikeWord (tokens value) = ([61, 63] <+: value : Bool) := by
  rcases value with _ | ⟨c, rest⟩
  · rfl
  · cases hword : findEncodedWord (c :: rest) with
    | some found =>
      obtain ⟨rfl, hhead⟩ := findEncodedWord_start hword
      rw [tokens_word hword, ← List.cons_head?_tail hhead]
      simp [startsLikeWord]
    | none =>
      rw [tokens_text hword]
      rcases rest with _ | ⟨d, rest⟩
      · simp [startsLikeWord]
      · cases hnext : findEncodedWord (d :: rest) with
        | some found =>
          obtain ⟨rfl, -⟩ := findEncodedWord_start hnext
          rw [tokens_word hnext]
          simp [startsLikeWord]
        | none =>
          rw [tokens_text hnext]
          by_cases hc : c = 61
          · by_cases hd : d = 63
            · simp [startsLikeWord, hc, hd]
            · simp [startsLikeWord, hc, hd, Ne.symm hd]
          · simp [startsLikeWord, hc, Ne.symm hc]

theorem dropWhile_tokens (value : List UInt8) :
    (tokens value).dropWhile Token.isBlank = tokens (value.dropWhile isSpace) := by
  induction value with
  | nil => rfl
  | cons c rest ih =>
    by_cases hc : isSpace c = true
    · have hblank : Token.isBlank (.text c) = true := hc
      rw [tokens_space hc, List.dropWhile_cons_of_pos hblank, List.dropWhile_cons_of_pos hc, ih]
    · have hblank : ¬Token.isBlank (.text c) = true := hc
      rw [List.dropWhile_cons_of_neg hc]
      cases hword : findEncodedWord (c :: rest) with
      | some found => rw [tokens_word hword, List.dropWhile_cons_of_neg (by simp [Token.isBlank])]
      | none => rw [tokens_text hword, List.dropWhile_cons_of_neg hblank]

/-- The decoder passes over white space that follows a word where `=?` comes next. -/
theorem suppress_skipGap (after : List UInt8) :
    suppress startsLikeWord true (tokens after) = suppress startsLikeWord false (tokens (skipGap after)) := by
  induction after with
  | nil => rfl
  | cons c rest ih =>
    by_cases hc : isSpace c = true
    · have hcloses : startsLikeWord ((tokens rest).dropWhile Token.isBlank) =
          ([61, 63] <+: rest.dropWhile isSpace : Bool) := by
        rw [dropWhile_tokens, startsLikeWord_tokens]
      have hdrop : (c :: rest).dropWhile isSpace = rest.dropWhile isSpace := List.dropWhile_cons_of_pos hc
      by_cases hlike : [61, 63] <+: rest.dropWhile isSpace
      · have hskip : skipGap (c :: rest) = skipGap rest := by simp [skipGap, hdrop, hlike]
        rw [tokens_space hc, suppress, hcloses, hskip, ← ih]
        simp [hc, hlike]
      · have hskip : skipGap (c :: rest) = c :: rest := by simp [skipGap, hdrop, hlike]
        rw [hskip, tokens_space hc, suppress, suppress, hcloses]
        simp [hlike]
    · have hskip : skipGap (c :: rest) = c :: rest := by
        simp [skipGap, List.dropWhile_cons_of_neg hc]
      rw [hskip]
      cases hword : findEncodedWord (c :: rest) with
      | some found => rw [tokens_word hword, suppress, suppress]
      | none => rw [tokens_text hword, suppress, suppress]; simp [hc]

theorem decodeTokens_text (c : UInt8) (rest : List Token) :
    decodeTokens glib (.text c :: rest) = (decodeTokens glib rest).map (c :: ·) := by
  rw [decodeTokens, decodeTokens, List.mapM_cons]
  cases rest.mapM (render glib) with
  | none => rfl
  | some parts => rfl

theorem decodeTokens_word (word : EncodedWord) (rest : List Token) :
    decodeTokens glib (.word word :: rest) =
      (decodeRfc2047Word glib word).bind fun decoded => (decodeTokens glib rest).map (decoded ++ ·) := by
  rw [decodeTokens, decodeTokens, List.mapM_cons, render]
  cases decodeRfc2047Word glib word with
  | none => rfl
  | some decoded =>
    cases rest.mapM (render glib) with
    | none => rfl
    | some parts => rfl

theorem skipGap_length (after : List UInt8) : (skipGap after).length ≤ after.length := by
  rw [skipGap]
  split
  · exact List.length_dropWhile_le _ _
  · exact le_rfl

theorem decodeFrom_eq (fuel : ℕ) (value : List UInt8) (hfuel : value.length ≤ fuel) :
    decodeFrom glib fuel value = decodeTokens glib (suppress startsLikeWord false (tokens value)) := by
  induction fuel generalizing value with
  | zero =>
    rw [List.eq_nil_of_length_eq_zero (Nat.le_zero.mp hfuel)]
    rfl
  | succ fuel ih =>
    cases value with
    | nil => rfl
    | cons c rest =>
      rw [List.length_cons] at hfuel
      cases hword : findEncodedWord (c :: rest) with
      | none =>
        rw [decodeFrom, hword, tokens_text hword, suppress, ih rest (by omega)]
        simp only [Bool.false_and, Bool.false_eq_true, if_false, decodeTokens_text]
      | some found =>
        have hlt := findEncodedWord_length hword
        have hle := skipGap_length found.2
        rw [List.length_cons] at hlt
        rw [decodeFrom, hword, tokens_word hword, suppress, suppress_skipGap, decodeTokens_word]
        simp only [ih (skipGap found.2) (by omega)]
        cases decodeRfc2047Word glib found.1 with
        | none => rfl
        | some decoded =>
          cases decodeTokens glib (suppress startsLikeWord false (tokens (skipGap found.2))) with
          | none => rfl
          | some output => rfl

/-! ## Look-alikes -/

/-- White space after a word that only looks as if another word followed. -/
structure Token.LookAlike (value : List Token) (pre : List Token) (word : EncodedWord) (gap : List UInt8)
    (post : List Token) : Prop where
  eq : value = pre ++ .word word :: (gap.map .text ++ post)
  blank : ∀ c ∈ gap, isSpace c = true
  ne_nil : gap ≠ []
  like : startsLikeWord post = true
  not_word : startsWithWord post = false

/-- `=?` that begins no encoded word, behind an encoded word and white space. -/
def HasLookAlike (value : List UInt8) : Prop :=
  ∃ pre word gap post, Token.LookAlike (tokens value) pre word gap post

theorem startsLikeWord_of_startsWithWord {value : List Token} (h : startsWithWord value = true) :
    startsLikeWord value = true := by
  rcases value with _ | ⟨_ | _, _⟩
  · cases h
  · cases h
  · rfl

def Token.isText : Token → Bool
  | .text _ => true
  | .word _ => false

def texts (value : List Token) : ℕ := value.countP Token.isText

@[simp] theorem texts_text (c : UInt8) (rest : List Token) : texts (.text c :: rest) = texts rest + 1 :=
  List.countP_cons_of_pos rfl

@[simp] theorem texts_word (word : EncodedWord) (rest : List Token) : texts (.word word :: rest) = texts rest :=
  List.countP_cons_of_neg (by simp [Token.isText])

/-- The decoder keeps no white space that should go. -/
theorem texts_suppress_le (value : List Token) {inGap inGap' : Bool} (h : inGap' = true → inGap = true) :
    texts (suppress startsLikeWord inGap value) ≤ texts (suppress startsWithWord inGap' value) := by
  induction value generalizing inGap inGap' with
  | nil => exact le_rfl
  | cons token rest ih =>
    cases token with
    | word word => simpa [suppress] using ih (fun h => h)
    | text c =>
      rw [suppress, suppress]
      by_cases hspec : (inGap' && isSpace c && startsWithWord (rest.dropWhile Token.isBlank)) = true
      · simp only [Bool.and_eq_true] at hspec
        obtain ⟨⟨hgap, hc⟩, hword⟩ := hspec
        simp only [hgap, h hgap, hc, hword, startsLikeWord_of_startsWithWord hword, Bool.and_self, if_true]
        exact ih (fun h => h)
      · rw [if_neg hspec]
        split
        · exact (ih (fun h => absurd h Bool.false_ne_true)).trans (by rw [texts_text]; exact Nat.le_succ _)
        · rw [texts_text, texts_text]
          exact Nat.succ_le_succ (ih (fun h => h))

theorem dropWhile_blank {gap : List UInt8} {post : List Token} (hblank : ∀ c ∈ gap, isSpace c = true) :
    (gap.map Token.text ++ post).dropWhile Token.isBlank = post.dropWhile Token.isBlank := by
  induction gap with
  | nil => rfl
  | cons c gap ih =>
    have hc : Token.isBlank (.text c) = true := hblank c (by simp)
    rw [List.map_cons, List.cons_append, List.dropWhile_cons_of_pos hc, ih fun d hd => hblank d (by simp [hd])]

theorem dropWhile_like {post : List Token} (h : startsLikeWord post = true) : post.dropWhile Token.isBlank = post := by
  unfold startsLikeWord at h
  split at h
  · exact List.dropWhile_cons_of_neg (by simp [Token.isBlank])
  · exact List.dropWhile_cons_of_neg (by simp [Token.isBlank, isSpace])
  · cases h

/-- At a look-alike the decoder leaves out more than it should. -/
theorem texts_suppress_lt {value pre : List Token} {word : EncodedWord} {gap : List UInt8} {post : List Token}
    (h : Token.LookAlike value pre word gap post) {inGap inGap' : Bool} (hgap : inGap' = true → inGap = true) :
    texts (suppress startsLikeWord inGap value) < texts (suppress startsWithWord inGap' value) := by
  induction pre generalizing value inGap inGap' with
  | nil =>
    obtain ⟨heq, hblank, hne, hlike, hword⟩ := h
    subst heq
    rcases gap with _ | ⟨c, gap⟩
    · exact absurd rfl hne
    · have hc := hblank c (by simp)
      have hdrop := @dropWhile_blank gap post fun d hd => hblank d (List.mem_cons_of_mem c hd)
      rw [dropWhile_like hlike] at hdrop
      simp only [List.nil_append, suppress, List.map_cons, List.cons_append, hdrop, hc, hlike, hword, Bool.and_self,
        Bool.and_false, if_true, Bool.false_eq_true, if_false, texts_word, texts_text]
      exact Nat.lt_succ_of_le (texts_suppress_le _ fun h => absurd h Bool.false_ne_true)
  | cons token pre ih =>
    obtain ⟨heq, hblank, hne, hlike, hword⟩ := h
    have hrest : Token.LookAlike (pre ++ .word word :: (gap.map .text ++ post)) pre word gap post :=
      ⟨rfl, hblank, hne, hlike, hword⟩
    subst heq
    rw [List.cons_append]
    cases token with
    | word first => simpa [suppress] using ih hrest (fun h => h)
    | text c =>
      rw [suppress, suppress]
      generalize hrestEq : pre ++ .word word :: (gap.map .text ++ post) = rest at hrest
      by_cases hspec : (inGap' && isSpace c && startsWithWord (rest.dropWhile Token.isBlank)) = true
      · simp only [Bool.and_eq_true] at hspec
        obtain ⟨⟨hin, hc⟩, hnext⟩ := hspec
        simp only [hin, hgap hin, hc, hnext, startsLikeWord_of_startsWithWord hnext, Bool.and_self, if_true]
        exact ih hrest (fun h => h)
      · rw [if_neg hspec]
        split
        · exact (ih hrest (fun h => absurd h Bool.false_ne_true)).trans (by rw [texts_text]; exact Nat.lt_succ_self _)
        · rw [texts_text, texts_text]
          exact Nat.succ_lt_succ (ih hrest (fun h => h))

theorem blank_prefix (value : List Token) : ∃ gap : List UInt8,
    value = gap.map .text ++ value.dropWhile Token.isBlank ∧ ∀ c ∈ gap, isSpace c = true := by
  induction value with
  | nil => exact ⟨[], rfl, by simp⟩
  | cons token rest ih =>
    cases token with
    | word word => exact ⟨[], rfl, by simp⟩
    | text c =>
      by_cases hc : isSpace c = true
      · have hblank : Token.isBlank (.text c) = true := hc
        obtain ⟨gap, heq, hgap⟩ := ih
        refine ⟨c :: gap, ?_, List.forall_mem_cons.mpr ⟨hc, hgap⟩⟩
        rw [List.dropWhile_cons_of_pos hblank, List.map_cons, List.cons_append, ← heq]
      · have hblank : ¬Token.isBlank (.text c) = true := hc
        exact ⟨[], by rw [List.dropWhile_cons_of_neg hblank]; rfl, by simp⟩

/-- Without look-alikes the decoder leaves out what it should. -/
theorem suppress_eq {value : List Token} (h : ∀ pre word gap post, ¬Token.LookAlike value pre word gap post) {inGap : Bool}
    (hgap : inGap = true → ∀ gap post, value = gap.map .text ++ post → (∀ c ∈ gap, isSpace c = true) → gap ≠ [] →
      startsLikeWord post = true → startsWithWord post = true) :
    suppress startsLikeWord inGap value = suppress startsWithWord inGap value := by
  induction value generalizing inGap with
  | nil => rfl
  | cons token rest ih =>
    have hrest : ∀ pre word gap post, ¬Token.LookAlike rest pre word gap post := by
      rintro pre word gap post ⟨rfl, hblank, hne, hlike, hword⟩
      exact h (token :: pre) word gap post ⟨rfl, hblank, hne, hlike, hword⟩
    cases token with
    | word word =>
      rw [suppress, suppress, ih hrest]
      rintro - gap post rfl hblank hne hlike
      cases hword : startsWithWord post with
      | true => rfl
      | false => exact absurd ⟨rfl, hblank, hne, hlike, hword⟩ (h [] word gap post)
    | text c =>
      rw [suppress, suppress]
      have hfalse : suppress startsLikeWord false rest = suppress startsWithWord false rest :=
        ih hrest fun h => absurd h Bool.false_ne_true
      by_cases hin : inGap = true ∧ isSpace c = true
      · obtain ⟨rfl, hc⟩ := hin
        obtain ⟨blanks, heq, hblanks⟩ := blank_prefix rest
        have hcloses : startsLikeWord (rest.dropWhile Token.isBlank) = startsWithWord (rest.dropWhile Token.isBlank) := by
          refine Bool.eq_iff_iff.mpr ⟨fun hlike => ?_, startsLikeWord_of_startsWithWord⟩
          exact hgap rfl (c :: blanks) _ (congrArg (.text c :: ·) heq) (List.forall_mem_cons.mpr ⟨hc, hblanks⟩) (by simp) hlike
        have htrue : suppress startsLikeWord true rest = suppress startsWithWord true rest := by
          refine ih hrest fun _ gap post hsplit hblank hne hlike => ?_
          exact hgap rfl (c :: gap) post (congrArg (.text c :: ·) hsplit) (List.forall_mem_cons.mpr ⟨hc, hblank⟩)
            (by simp) hlike
        rw [hcloses, hfalse, htrue]
      · have hskip : (inGap && isSpace c) = false := by
          rw [Bool.and_eq_false_iff]
          cases inGap with
          | false => exact .inl rfl
          | true => exact .inr (by simpa using hin)
        simp only [hskip, Bool.false_and, Bool.false_eq_true, if_false, hfalse]

/-! ## What is decoded -/

theorem mem_suppress {closes : List Token → Bool} {inGap : Bool} {value : List Token} {word : EncodedWord} :
    .word word ∈ suppress closes inGap value ↔ .word word ∈ value := by
  induction value generalizing inGap with
  | nil => rfl
  | cons token rest ih =>
    cases token with
    | word first => simp [suppress, ih]
    | text c =>
      rw [suppress]
      split
      · simp [ih]
      · simp [ih]

variable {glib : GLib}

theorem decodeTokens_eq_none {value : List Token} :
    decodeTokens glib value = none ↔ ∃ word, .word word ∈ value ∧ decodeRfc2047Word glib word = none := by
  induction value with
  | nil => simp [decodeTokens]
  | cons token rest ih =>
    cases token with
    | text c => simp [decodeTokens_text, ih]
    | word word =>
      rw [decodeTokens_word]
      cases hword : decodeRfc2047Word glib word with
      | none => simp only [Option.bind_none, true_iff]; exact ⟨word, by simp, hword⟩
      | some decoded =>
        simp only [Option.bind_some, Option.map_eq_none_iff, ih, List.mem_cons, Token.word.injEq]
        refine exists_congr fun other => ⟨fun h => ⟨.inr h.1, h.2⟩, fun h => ⟨?_, h.2⟩⟩
        rcases h.1 with rfl | hmem
        · rw [hword] at h
          cases h.2
        · exact hmem

/-- The bytes that the words of a value decode to. -/
def decodedLength (glib : GLib) : List Token → ℕ
  | [] => 0
  | .text _ :: rest => decodedLength glib rest
  | .word word :: rest => ((decodeRfc2047Word glib word).getD []).length + decodedLength glib rest

theorem decodedLength_suppress (closes : List Token → Bool) (inGap : Bool) (value : List Token) :
    decodedLength glib (suppress closes inGap value) = decodedLength glib value := by
  induction value generalizing inGap with
  | nil => rfl
  | cons token rest ih =>
    cases token with
    | word word => simp only [suppress, decodedLength, ih]
    | text c =>
      rw [suppress]
      split
      · rw [ih, decodedLength]
      · rw [decodedLength, ih, decodedLength]

theorem decodeTokens_length {value : List Token} {output : List UInt8} (h : decodeTokens glib value = some output) :
    output.length = texts value + decodedLength glib value := by
  induction value generalizing output with
  | nil => cases h; rfl
  | cons token rest ih =>
    cases token with
    | text c =>
      rw [decodeTokens_text, Option.map_eq_some_iff] at h
      obtain ⟨tail, htail, rfl⟩ := h
      rw [List.length_cons, ih htail, texts_text, decodedLength]
      omega
    | word word =>
      rw [decodeTokens_word, Option.bind_eq_some_iff] at h
      obtain ⟨decoded, hword, h⟩ := h
      obtain ⟨tail, htail, rfl⟩ := Option.map_eq_some_iff.mp h
      rw [List.length_append, ih htail, texts_word, decodedLength, hword, Option.getD_some]
      omega

/-- Decoding meets its purpose exactly where no text passes for the word that it is not. -/
theorem decodeHeaderValue_iff (glib : GLib) (value : List UInt8) :
    decodeHeaderValue glib value = decodedValue glib value ↔
      (∃ word, .word word ∈ tokens value ∧ decodeRfc2047Word glib word = none) ∨ ¬HasLookAlike value := by
  rw [decodeHeaderValue, decodedValue, suppressGaps, decodeFrom_eq glib value.length value le_rfl]
  by_cases hbad : ∃ word, .word word ∈ tokens value ∧ decodeRfc2047Word glib word = none
  · have hnone : ∀ closes, decodeTokens glib (suppress closes false (tokens value)) = none := fun closes => by
      simpa only [decodeTokens_eq_none, mem_suppress] using hbad
    simp [hnone, hbad]
  · have hsome : ∀ closes, ∃ output, decodeTokens glib (suppress closes false (tokens value)) = some output :=
      fun closes => by
        rw [← Option.ne_none_iff_exists', ne_eq, decodeTokens_eq_none]
        simpa only [mem_suppress] using hbad
    obtain ⟨output, houtput⟩ := hsome startsLikeWord
    obtain ⟨wanted, hwanted⟩ := hsome startsWithWord
    rw [houtput, hwanted, Option.getD_some, Option.getD_some, or_iff_right hbad]
    constructor
    · rintro rfl ⟨pre, word, gap, post, hlike⟩
      have hlt : texts (suppress startsLikeWord false (tokens value)) < texts (suppress startsWithWord false (tokens value)) :=
        texts_suppress_lt hlike fun h => h
      have hlength := decodeTokens_length houtput
      have hlength' := decodeTokens_length hwanted
      rw [decodedLength_suppress] at hlength hlength'
      omega
    · intro hnot
      have heq : suppress startsLikeWord false (tokens value) = suppress startsWithWord false (tokens value) :=
        suppress_eq (fun pre word gap post hlike => hnot ⟨pre, word, gap, post, hlike⟩) fun h => absurd h Bool.false_ne_true
      rw [heq, hwanted] at houtput
      exact (Option.some.inj houtput).symm

end

/-- Charsets that keep every byte. -/
def plainText : GLib where
  convert _ bytes := some (bytes.length, bytes)
  strdown text := text.map fun c => if 65 ≤ c ∧ c ≤ 90 then c + 32 else c
  hostnameToAscii text := some text
  validate _ := true

/-- The blank between a word and text that only starts like one is lost. -/
theorem lookAlike_loses_blank :
    decodeHeaderValue plainText (JournalRecord.ascii "=?UTF-8?Q?a?= =?x") = JournalRecord.ascii "a=?x" ∧
      decodedValue plainText (JournalRecord.ascii "=?UTF-8?Q?a?= =?x") = JournalRecord.ascii "a =?x" := by
  decide +kernel

end Wyrebox.HeaderDecoding
