import Wyrebox.EncodedWords
import Wyrebox.EmlMetadata
import Wyrebox.FactRecords

set_option autoImplicit false

/-!
# Address facts

The participants of a message: how the extractor splits an address header into members, reads the
address and the display name of each, and what facts it makes of them.
-/
namespace Wyrebox.AddressList
open AddressSyntax EncodedWords FactRecords Event
open JournalRecord (ascii)

/-- `ParsedAddress`. -/
structure ParsedAddress where
  address : List UInt8
  displayName : Option (List UInt8)
  deriving DecidableEq

/-! ## Comments -/

structure CommentScan where
  output : List UInt8
  depth : ℕ
  quoted : Bool
  escaped : Bool

namespace CommentScan

def initial : CommentScan := ⟨[], 0, false, false⟩

def step (s : CommentScan) (p : Piece) : CommentScan :=
  match p with
  | .word text => if s.depth = 0 then { s with output := s.output ++ text } else s
  | .byte c =>
    let copied := { s with output := s.output ++ [c] }
    if 0 < s.depth then
      if s.escaped then { s with escaped := false }
      else if c = 92 then { s with escaped := true }
      else if c = 40 then { s with depth := s.depth + 1 }
      else if c = 41 then { s with depth := s.depth - 1 }
      else s
    else if s.escaped then { copied with escaped := false }
    else if s.quoted = true ∧ c = 92 then { copied with escaped := true }
    else if c = 34 then { copied with quoted := !s.quoted }
    else if s.quoted = false ∧ c = 40 then { s with output := s.output ++ [32], depth := 1 }
    else copied

end CommentScan

/-- `remove_comments`: the text with a blank for each comment, and whether it is valid. -/
def removeComments (value : List UInt8) : List UInt8 × Bool :=
  let s := (pieces value).foldl CommentScan.step .initial
  (s.output, s.depth = 0 ∧ s.escaped = false)

/-! ## Addresses -/

structure SeparatorScan where
  separator : Option ℕ
  quoted : Bool
  escaped : Bool
  domainLiteral : Bool

namespace SeparatorScan

def initial : SeparatorScan := ⟨none, false, false, false⟩

/-- The byte at `i`; `none` where the address is refused. -/
def step (s : SeparatorScan) (i : ℕ) (c : UInt8) : Option SeparatorScan :=
  if s.escaped then some { s with escaped := false }
  else if s.quoted = true ∧ c = 92 then some { s with escaped := true }
  else if c = 34 then some { s with quoted := !s.quoted }
  else if s.quoted = false ∧ c = 64 ∧ s.domainLiteral = false then
    if s.separator ≠ none then none else some { s with separator := some i }
  else if s.quoted = false ∧ s.separator ≠ none ∧ c = 91 then
    if s.domainLiteral then none else some { s with domainLiteral := true }
  else if s.quoted = false ∧ s.separator ≠ none ∧ c = 93 then
    if s.domainLiteral then some { s with domainLiteral := false } else none
  else if s.quoted = false ∧ isSpace c then none
  else some s

def run : SeparatorScan → ℕ → List UInt8 → Option SeparatorScan
  | s, _, [] => some s
  | s, i, c :: rest => (s.step i c).bind fun s => run s (i + 1) rest

end SeparatorScan

/-- `find_address_separator`. -/
def findAddressSeparator (value : List UInt8) : Option ℕ :=
  match SeparatorScan.initial.run 0 value with
  | none => none
  | some s => if s.quoted ∨ s.escaped ∨ s.domainLiteral then none else s.separator

/-- The printable characters other than letters and digits that an atom may hold. -/
def atomSpecials : List UInt8 := [33, 35, 36, 37, 38, 39, 42, 43, 45, 47, 61, 63, 94, 95, 96, 123, 124, 125, 126]

/-- The bytes between the marks of a quoted local part. -/
def quotedLocalIsValid : Bool → List UInt8 → Bool
  | escaped, [] => !escaped
  | escaped, c :: rest =>
    if escaped then quotedLocalIsValid false rest
    else if c = 92 then quotedLocalIsValid true rest
    else if c = 34 ∨ c = 13 ∨ c = 10 ∨ c < 0x20 ∨ c = 0x7f then false
    else quotedLocalIsValid false rest

/-- The bytes of a local part without quotes; `previous` is the byte before them. -/
def atomsAreValid : Option UInt8 → List UInt8 → Bool
  | _, [] => true
  | previous, c :: rest =>
    if c = 46 then if previous = some 46 then false else atomsAreValid (some c) rest
    else if c < 0x80 ∧ !(isAlnum c ∨ c ∈ atomSpecials) then false
    else atomsAreValid (some c) rest

/-- The labels of a domain. -/
def labelsAreValid : (labelHasCharacter previousWasHyphen : Bool) → List UInt8 → Bool
  | labelHasCharacter, previousWasHyphen, [] => labelHasCharacter ∧ !previousWasHyphen
  | labelHasCharacter, previousWasHyphen, c :: rest =>
    if c = 46 then if !labelHasCharacter ∨ previousWasHyphen then false else labelsAreValid false false rest
    else if c = 45 then if !labelHasCharacter then false else labelsAreValid true true rest
    else if 0x80 ≤ c ∨ isAlnum c then labelsAreValid true false rest
    else false

section
variable (glib : GLib)

/-- `local_part_is_valid`. -/
def localPartIsValid (localPart : List UInt8) : Bool :=
  if localPart = [] ∨ !glib.validate localPart then false
  else if localPart.head? = some 34 then
    if localPart.length < 2 ∨ localPart.getLast? ≠ some 34 then false
    else quotedLocalIsValid false localPart.tail.dropLast
  else if localPart.head? = some 46 ∨ localPart.getLast? = some 46 then false
  else atomsAreValid none localPart

/-- `domain_is_valid`. -/
def domainIsValid (domain : List UInt8) : Bool :=
  if domain = [] then false
  else if domain.head? = some 91 then
    if domain.length < 3 ∨ domain.getLast? ≠ some 93 then false
    else domain.tail.dropLast.all fun c => !(c ≤ 0x20 ∨ c = 0x7f ∨ c = 91 ∨ c = 93)
  else if !glib.validate domain then false
  else if domain.head? = some 46 ∨ domain.getLast? = some 46 then false
  else labelsAreValid false false domain ∧ (glib.hostnameToAscii domain).isSome

/-- `normalize_address`. -/
def normalizeAddress (value : List UInt8) : Option (List UInt8) :=
  let trimmed := strip value
  match findAddressSeparator trimmed with
  | none => none
  | some at' =>
    let localPart := trimmed.take at'
    let rest := trimmed.drop (at' + 1)
    if at' = 0 ∨ rest = [] then none
    else if !glib.validate rest then none
    else
      let domain := glib.strdown rest
      if !localPartIsValid glib localPart ∨ !domainIsValid glib domain then none
      else some (localPart ++ 64 :: domain)

/-- `extract_domain_from_normalized_address`. -/
def extractDomain (address : List UInt8) : Option (List UInt8) :=
  match findAddressSeparator address with
  | none => none
  | some at' =>
    let rest := address.drop (at' + 1)
    if rest = [] then none else some (rest.map Eml.toLower)

end

/-! ## Display names -/

/-- `phrase_atext_is_valid`. -/
def phraseAtextIsValid (c : UInt8) : Bool := 0x80 ≤ c ∨ isAlnum c ∨ c = 46 ∨ c ∈ atomSpecials

/-- The text after the mark that closes a quoted word, if no control character precedes it. -/
def afterQuotedWord : Bool → List UInt8 → Option (List UInt8)
  | _, [] => none
  | escaped, c :: rest =>
    if escaped then afterQuotedWord false rest
    else if c = 92 then afterQuotedWord true rest
    else if c = 34 then some rest
    else if c < 0x20 ∨ c = 0x7f then none
    else afterQuotedWord false rest

/-- The words of a phrase from the cursor on. -/
def phraseFrom : ℕ → Bool → List UInt8 → Bool
  | 0, hasWord, _ => hasWord
  | fuel + 1, hasWord, text =>
    let rest := text.dropWhile isSpace
    if rest = [] then hasWord
    else if hasWord = true ∧ rest = text then false
    else if rest.head? = some 34 then
      match afterQuotedWord false rest.tail with
      | none => false
      | some after => phraseFrom fuel true after
    else if [61, 63] <+: rest then
      match findEncodedWord rest with
      | none => false
      | some (_, after) => phraseFrom fuel true after
    else if (rest.takeWhile fun c => !isSpace c).all phraseAtextIsValid then
      phraseFrom fuel true (rest.dropWhile fun c => !isSpace c)
    else false

/-- What precedes the first `target` outside quoted strings and, once it is found, what follows. -/
structure TargetScan where
  before : List UInt8
  quoted : Bool
  escaped : Bool
  after : Option (List UInt8)

namespace TargetScan

def initial : TargetScan := ⟨[], false, false, none⟩

def step (target : UInt8) (s : TargetScan) (p : Piece) : TargetScan :=
  match s.after with
  | some after => { s with after := some (after ++ p.bytes) }
  | none =>
    let longer := { s with before := s.before ++ p.bytes }
    match p with
    | .word _ => longer
    | .byte c =>
      if s.escaped then { longer with escaped := false }
      else if s.quoted = true ∧ c = 92 then { longer with escaped := true }
      else if c = 34 then { longer with quoted := !s.quoted }
      else if s.quoted = false ∧ c = target then { s with after := some [] }
      else longer

end TargetScan

/-- The two loops of `display_name_from_segment` that look for a bracket. -/
def findTarget (target : UInt8) (text : List UInt8) : Option (List UInt8 × List UInt8) :=
  let s := (pieces text).foldl (TargetScan.step target) .initial
  s.after.map fun after => (s.before, after)

section
variable (glib : GLib)

/-- `display_name_phrase_is_valid`. -/
def displayNamePhraseIsValid (value : List UInt8) : Bool :=
  glib.validate value ∧ phraseFrom (value.length + 1) false value

/-- A display name without the marks of a quoted string around it. -/
def unquoteDisplayName (name : List UInt8) : Option (List UInt8) :=
  let name := if name.head? = some 34 ∧ name.getLast? = some 34 then name.dropLast.tail else name
  if name = [] then none else some name

/-- `display_name_from_segment`: the display name and the text of the address. -/
def displayNameFromSegment (segment : List UInt8) : Option (List UInt8) × List UInt8 :=
  let (withoutComments, commentsValid) := removeComments segment
  if !commentsValid then (none, [])
  else
    match findTarget 60 withoutComments with
    | none => (none, withoutComments)
    | some (beforeAngle, afterAngle) =>
      match findTarget 62 afterAngle with
      | none => (none, [])
      | some (addressText, trailing) =>
        if !trailing.all isSpace then (none, [])
        else
          let displayName := strip beforeAngle
          if displayName ≠ [] ∧ !displayNamePhraseIsValid glib displayName then (none, [])
          else (unquoteDisplayName displayName, addressText)

/-- `append_address_segment`. -/
def addressOfSegment (segment : List UInt8) : Option ParsedAddress :=
  let trimmed := strip segment
  if trimmed = [] then none
  else
    let (displayName, addressText) := displayNameFromSegment glib trimmed
    let (addressWithoutComments, commentsValid) := removeComments addressText
    if !commentsValid then none
    else (normalizeAddress glib addressWithoutComments).map fun address =>
      ⟨address, displayName.map (decodeHeaderValue glib)⟩

/-! ## Lists -/

structure ListScan where
  addresses : List ParsedAddress
  segment : List UInt8
  commentDepth : ℕ
  angleDepth : ℕ
  domainLiteralDepth : ℕ
  quoted : Bool
  escaped : Bool
  inGroup : Bool

namespace ListScan

def initial : ListScan := ⟨[], [], 0, 0, 0, false, false, false⟩

def appendSegment (s : ListScan) : ListScan :=
  { s with addresses := s.addresses ++ (addressOfSegment glib s.segment).toList }

def step (s : ListScan) (p : Piece) : ListScan :=
  let longer := { s with segment := s.segment ++ p.bytes }
  match p with
  | .word _ => longer
  | .byte c =>
    if 0 < s.commentDepth then
      if s.escaped then { longer with escaped := false }
      else if c = 92 then { longer with escaped := true }
      else if c = 40 then { longer with commentDepth := s.commentDepth + 1 }
      else if c = 41 then { longer with commentDepth := s.commentDepth - 1 }
      else longer
    else if s.escaped then { longer with escaped := false }
    else if s.quoted = true ∧ c = 92 then { longer with escaped := true }
    else if c = 34 then { longer with quoted := !s.quoted }
    else if s.quoted = false ∧ c = 40 then { longer with commentDepth := 1 }
    else if s.quoted = false ∧ c = 60 then { longer with angleDepth := s.angleDepth + 1 }
    else if s.quoted = false ∧ c = 62 ∧ 0 < s.angleDepth then { longer with angleDepth := s.angleDepth - 1 }
    else if s.quoted = false ∧ s.angleDepth = 0 ∧ c = 91 then
      { longer with domainLiteralDepth := s.domainLiteralDepth + 1 }
    else if s.quoted = false ∧ s.angleDepth = 0 ∧ c = 93 ∧ 0 < s.domainLiteralDepth then
      { longer with domainLiteralDepth := s.domainLiteralDepth - 1 }
    else if s.quoted = false ∧ s.angleDepth = 0 ∧ s.domainLiteralDepth = 0 ∧ c = 58 ∧ s.inGroup = false then
      { s with segment := [], inGroup := true }
    else if s.quoted = false ∧ s.angleDepth = 0 ∧ s.domainLiteralDepth = 0 ∧ (c = 44 ∨ c = 59) then
      { s.appendSegment glib with segment := [], inGroup := if c = 59 then false else s.inGroup }
    else longer

end ListScan

/-- `parse_address_list`. -/
def parseAddressList (value : Option CString) : List ParsedAddress :=
  match value with
  | none => []
  | some value =>
    if value.bytes = [] then []
    else (((pieces value.bytes).foldl (ListScan.step glib) .initial).appendSegment glib).addresses

/-! ## Facts -/

/-- `append_fact_with_args`. -/
def factWithArgs (predicate : CString) (args : List CString) (source : CString) (createdAtUnixUs : ℕ) :
    Except FactError FactRecord :=
  recordInit predicate args source confidenceExact createdAtUnixUs

/-- The facts about one address of `append_parsed_participant_facts`. -/
def participantFacts (mailId source : CString) (createdAtUnixUs : ℕ) (parsed : ParsedAddress) :
    Except FactError (List FactRecord) := do
  let address := CString.ofBuffer parsed.address
  let participant ← factWithArgs (.literal "participant") [mailId, address] source createdAtUnixUs
  match parsed.displayName with
  | none => return [participant]
  | some name =>
    let displayName ← factWithArgs (.literal "participant_display_name") [mailId, address, CString.ofBuffer name] source
      createdAtUnixUs
    return [participant, displayName]

/-- `append_parsed_participant_facts`. -/
def parsedParticipantFacts (mailId source : CString) (createdAtUnixUs : ℕ) (addresses : List ParsedAddress) :
    Except FactError (List FactRecord) := do
  let facts ← addresses.mapM (participantFacts mailId source createdAtUnixUs)
  return facts.flatten

def senderDomain (addresses : List ParsedAddress) : Option (List UInt8) :=
  addresses.head?.bind fun sender => extractDomain sender.address

def senderDomainFacts (mailId : CString) (createdAtUnixUs : ℕ) (addresses : List ParsedAddress) :
    Except FactError (List FactRecord) :=
  match senderDomain addresses with
  | none => return []
  | some domain => do
    let fact ← factWithArgs (.literal "sender_domain") [mailId, CString.ofBuffer domain] (.literal "header:from")
      createdAtUnixUs
    return [fact]

/-- `append_address_facts`. -/
def headerFacts (mailId source : CString) (createdAtUnixUs : ℕ) (value : Option CString) :
    Except FactError (List FactRecord) :=
  parsedParticipantFacts mailId source createdAtUnixUs (parseAddressList glib value)

/-- The address facts of `wyrebox_deterministic_fact_extract_from_metadata_with_rules`. -/
def addressFacts (mailId : CString) (metadata : Metadata) (createdAtUnixUs : ℕ) :
    Except FactError (List FactRecord) := do
  let senderAddresses := parseAddressList glib metadata.fromAddr
  let domain ← senderDomainFacts mailId createdAtUnixUs senderAddresses
  let sender ← parsedParticipantFacts mailId (.literal "header:from") createdAtUnixUs senderAddresses
  let recipients ← headerFacts glib mailId (.literal "header:to") createdAtUnixUs metadata.toAddr
  let cc ← headerFacts glib mailId (.literal "header:cc") createdAtUnixUs metadata.cc
  let bcc ← headerFacts glib mailId (.literal "header:bcc") createdAtUnixUs metadata.bcc
  return domain ++ sender ++ recipients ++ cc ++ bcc

end

end Wyrebox.AddressList
