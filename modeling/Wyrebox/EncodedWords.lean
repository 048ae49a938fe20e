import Mathlib.Data.List.DropRight
import Wyrebox.AddressSyntax

set_option autoImplicit false

/-!
# Encoded words

`=?charset?encoding?text?=` in a header value, how such words are found, and how a value is decoded.
-/
namespace Wyrebox.EncodedWords
open AddressSyntax

/-- The functions on text that the extractor calls: `g_convert` to UTF-8 with how much it read,
    `g_utf8_strdown` and `g_hostname_to_ascii`. -/
structure GLib where
  convert : List UInt8 → List UInt8 → Option (ℕ × List UInt8)
  strdown : List UInt8 → List UInt8
  hostnameToAscii : List UInt8 → Option (List UInt8)
  validate : List UInt8 → Bool

/-- `g_ascii_isspace`. -/
def isSpace (c : UInt8) : Bool := c = 32 ∨ c = 9 ∨ c = 10 ∨ c = 12 ∨ c = 13

/-- `g_ascii_isalnum`. -/
def isAlnum (c : UInt8) : Bool := 48 ≤ c ∧ c ≤ 57 ∨ 65 ≤ c ∧ c ≤ 90 ∨ 97 ≤ c ∧ c ≤ 122

/-- `g_strstrip`. -/
def strip (text : List UInt8) : List UInt8 := (text.dropWhile isSpace).rdropWhile isSpace

/-! ## Finding -/

structure EncodedWord where
  charset : List UInt8
  encoding : UInt8
  text : List UInt8
  deriving DecidableEq

def EncodedWord.bytes (word : EncodedWord) : List UInt8 :=
  61 :: 63 :: (word.charset ++ 63 :: word.encoding :: 63 :: (word.text ++ [63, 61]))

/-- `strstr (text, "?=")`: what precedes the first `?=` and what follows it. -/
def splitEnd : List UInt8 → Option (List UInt8 × List UInt8)
  | [] => none
  | c :: rest =>
    if c = 63 ∧ rest.head? = some 61 then some ([], rest.tail)
    else (splitEnd rest).map fun split => (c :: split.1, split.2)

/-- `find_encoded_word_end`: the word at the start of the text, and the text after it. -/
def findEncodedWord : List UInt8 → Option (EncodedWord × List UInt8)
  | 61 :: 63 :: rest =>
    let charset := rest.takeWhile (· ≠ 63)
    match rest.dropWhile (· ≠ 63) with
    | _ :: encoding :: 63 :: rest =>
      if charset = [] ∨ encoding = 63 then none
      else (splitEnd rest).map fun split => (⟨charset, encoding, split.1⟩, split.2)
    | _ => none
  | _ => none

/-- What the cursor of a scanning loop stops at: it passes over an encoded word whole and over
    anything else a byte at a time. -/
def piecesFrom : ℕ → List UInt8 → List Piece
  | 0, _ => []
  | _, [] => []
  | fuel + 1, c :: rest =>
    match findEncodedWord (c :: rest) with
    | some (word, after) => .word word.bytes :: piecesFrom fuel after
    | none => .byte c :: piecesFrom fuel rest

def pieces (text : List UInt8) : List Piece := piecesFrom text.length text

/-! ## Decoding -/

/-- `hex_digit_value`. -/
def hexDigitValue (c : UInt8) : Option ℕ :=
  if 48 ≤ c ∧ c ≤ 57 then some (c.toNat - 48)
  else if 65 ≤ c ∧ c ≤ 70 then some (c.toNat - 55)
  else if 97 ≤ c ∧ c ≤ 102 then some (c.toNat - 87)
  else none

/-- `base64_digit_value`. -/
def base64DigitValue (c : UInt8) : Option ℕ :=
  if 65 ≤ c ∧ c ≤ 90 then some (c.toNat - 65)
  else if 97 ≤ c ∧ c ≤ 122 then some (c.toNat - 97 + 26)
  else if 48 ≤ c ∧ c ≤ 57 then some (c.toNat - 48 + 52)
  else if c = 43 then some 62
  else if c = 47 then some 63
  else none

/-- The loop of `decode_base64_word`: the number of padding characters. -/
def base64Padding (length : ℕ) : ℕ → ℕ → List UInt8 → Option ℕ
  | _, padding, [] => some padding
  | i, padding, c :: rest =>
    if c = 61 then
      if i < length - 2 ∨ 2 < padding + 1 then none else base64Padding length (i + 1) (padding + 1) rest
    else if padding ≠ 0 ∨ !(isAlnum c ∨ c = 43 ∨ c = 47) then none
    else base64Padding length (i + 1) padding rest

/-- `g_base64_decode` of whole quanta: a padding character stands for no byte. -/
def base64Decode : List UInt8 → List UInt8
  | a :: b :: c :: d :: rest =>
    let value (x : UInt8) := (base64DigitValue x).getD 0
    let quantum := ((value a * 64 + value b) * 64 + value c) * 64 + value d
    UInt8.ofNat (quantum / 65536) ::
      ((if c = 61 then [] else [UInt8.ofNat (quantum / 256)]) ++
        (if d = 61 then [] else [UInt8.ofNat quantum]) ++ base64Decode rest)
  | _ => []

/-- `decode_base64_word`. -/
def decodeBase64Word (encoded : List UInt8) : Option (List UInt8) :=
  if encoded = [] ∨ encoded.length % 4 ≠ 0 then none
  else
    match base64Padding encoded.length 0 0 encoded with
    | none => none
    | some padding =>
      let digit (back : ℕ) := (base64DigitValue (encoded.getD (encoded.length - back) 0)).getD 0
      -- the bits of the last quantum that no byte takes must be zero
      if (padding = 2 ∧ digit 3 % 16 ≠ 0) ∨ (padding = 1 ∧ digit 2 % 4 ≠ 0) then none
      else if base64Decode encoded = [] then none
      else some (base64Decode encoded)

/-- `decode_quoted_printable_word`. -/
def decodeQuotedPrintableWord : List UInt8 → Option (List UInt8)
  | [] => some []
  | 61 :: high :: low :: rest => do
    let high ← hexDigitValue high
    let low ← hexDigitValue low
    let decoded ← decodeQuotedPrintableWord rest
    return UInt8.ofNat (high * 16 + low) :: decoded
  | c :: rest =>
    if c = 95 then (decodeQuotedPrintableWord rest).map (32 :: ·)
    else if c = 61 ∨ c < 0x21 ∨ 0x7e < c ∨ c = 63 then none
    else (decodeQuotedPrintableWord rest).map (c :: ·)

section
variable (glib : GLib)

/-- `decode_rfc2047_word`. -/
def decodeRfc2047Word (word : EncodedWord) : Option (List UInt8) := do
  let bytes ←
    if word.encoding = 66 ∨ word.encoding = 98 then decodeBase64Word word.text
    else if word.encoding = 81 ∨ word.encoding = 113 then decodeQuotedPrintableWord word.text
    else none
  let (bytesRead, converted) ← glib.convert word.charset bytes
  if bytesRead ≠ bytes.length ∨ 0 ∈ converted ∨ !glib.validate converted then none else some converted

/-- The white space after a word is passed over where `=?` follows it. -/
def skipGap (after : List UInt8) : List UInt8 :=
  let next := after.dropWhile isSpace
  if [61, 63] <+: next then next else after

def decodeFrom : ℕ → List UInt8 → Option (List UInt8)
  | 0, _ => some []
  | _, [] => some []
  | fuel + 1, c :: rest =>
    match findEncodedWord (c :: rest) with
    | none => (decodeFrom fuel rest).map (c :: ·)
    | some (word, after) => do
      let decoded ← decodeRfc2047Word glib word
      let output ← decodeFrom fuel (skipGap after)
      return decoded ++ output

/-- `decode_header_value`. -/
def decodeHeaderValue (value : List UInt8) : List UInt8 := (decodeFrom glib value.length value).getD value

end

end Wyrebox.EncodedWords
