import Mathlib.Data.List.Induction
import Mathlib.Data.List.Infix

set_option autoImplicit false

/-!
# Lexical items of an address list

Text is read as pieces: bytes, and words that are copied as they are. Outside quoted strings and
comments a piece stands for itself; a quoted string ends at the next mark that no backslash escapes,
a comment at the parenthesis that matches its own.
-/
namespace Wyrebox.AddressSyntax

inductive Piece where
  | byte (c : UInt8)
  | word (text : List UInt8)
  deriving DecidableEq

def Piece.bytes : Piece → List UInt8
  | .byte c => [c]
  | .word text => text

def bytesOf (pieces : List Piece) : List UInt8 := pieces.flatMap Piece.bytes

@[simp] lemma bytesOf_nil : bytesOf [] = [] := rfl

@[simp] lemma bytesOf_cons (p : Piece) (pieces : List Piece) : bytesOf (p :: pieces) = p.bytes ++ bytesOf pieces :=
  rfl

@[simp] lemma bytesOf_append (ps qs : List Piece) : bytesOf (ps ++ qs) = bytesOf ps ++ bytesOf qs :=
  List.flatMap_append

/-! ## Quoted strings and comments -/

/-- What stands between the marks of a quoted string. A backslash escapes the next byte. -/
inductive QuotedText : List Piece → Prop
  | nil : QuotedText []
  | word {text pieces} : QuotedText pieces → QuotedText (.word text :: pieces)
  | text {c pieces} : c ≠ 34 → c ≠ 92 → QuotedText pieces → QuotedText (.byte c :: pieces)
  | pair {words c pieces} : QuotedText pieces →
      QuotedText (.byte 92 :: (List.map Piece.word words ++ .byte c :: pieces))

/-- What stands between the parentheses of a comment. Comments nest. -/
inductive CommentText : List Piece → Prop
  | nil : CommentText []
  | word {text pieces} : CommentText pieces → CommentText (.word text :: pieces)
  | text {c pieces} : c ≠ 40 → c ≠ 41 → c ≠ 92 → CommentText pieces → CommentText (.byte c :: pieces)
  | pair {words c pieces} : CommentText pieces →
      CommentText (.byte 92 :: (List.map Piece.word words ++ .byte c :: pieces))
  | nested {inner pieces} : CommentText inner → CommentText pieces →
      CommentText (.byte 40 :: (inner ++ .byte 41 :: pieces))

lemma QuotedText.append {ps qs : List Piece} (hp : QuotedText ps) (hq : QuotedText qs) : QuotedText (ps ++ qs) := by
  induction hp with
  | nil => exact hq
  | word _ ih => exact .word ih
  | text hmark hslash _ ih => exact .text hmark hslash ih
  | pair _ ih =>
    simp only [List.cons_append, List.append_assoc]
    exact .pair ih

lemma CommentText.append {ps qs : List Piece} (hp : CommentText ps) (hq : CommentText qs) :
    CommentText (ps ++ qs) := by
  induction hp with
  | nil => exact hq
  | word _ ih => exact .word ih
  | text hopen hclose hslash _ ih => exact .text hopen hclose hslash ih
  | pair _ ih =>
    simp only [List.cons_append, List.append_assoc]
    exact .pair ih
  | nested hinner _ _ ih =>
    simp only [List.cons_append, List.append_assoc]
    exact .nested hinner ih

/-- The text of a comment in which some are still open: `depth` counts them with the comment itself. -/
inductive NestedText : ℕ → List Piece → Prop
  | one {pieces} : CommentText pieces → NestedText 1 pieces
  | deeper {depth outer pieces} : NestedText depth outer → CommentText pieces →
      NestedText (depth + 1) (outer ++ .byte 40 :: pieces)

lemma NestedText.append {depth : ℕ} {ps qs : List Piece} (hp : NestedText depth ps) (hq : CommentText qs) :
    NestedText depth (ps ++ qs) := by
  induction hp with
  | one hp => exact .one (hp.append hq)
  | deeper houter hp _ =>
    rw [List.append_assoc, List.cons_append]
    exact .deeper houter (hp.append hq)

lemma NestedText.pos {depth : ℕ} {ps : List Piece} (hp : NestedText depth ps) : 0 < depth := by
  cases hp <;> exact Nat.succ_pos _

lemma NestedText.text {ps : List Piece} (hp : NestedText 1 ps) : CommentText ps := by
  cases hp with
  | one hp => exact hp
  | deeper houter _ => cases houter

/-- The innermost comment ends. -/
lemma NestedText.close {depth : ℕ} {ps : List Piece} (hp : NestedText depth ps) (hdepth : depth ≠ 1) :
    NestedText (depth - 1) (ps ++ [.byte 41]) := by
  cases hp with
  | one _ => exact absurd rfl hdepth
  | deeper houter hp =>
    rw [List.append_assoc, List.cons_append]
    exact houter.append (.nested hp .nil)

/-! ## Items -/

inductive Item where
  | plain (c : UInt8)
  | word (text : List UInt8)
  | quoted (text : List Piece)
  | comment (text : List Piece)
  deriving DecidableEq

def Item.pieces : Item → List Piece
  | .plain c => [.byte c]
  | .word text => [.word text]
  | .quoted text => .byte 34 :: (text ++ [.byte 34])
  | .comment text => .byte 40 :: (text ++ [.byte 41])

def Item.bytes (item : Item) : List UInt8 := bytesOf item.pieces

/-- The item is what the text that spells it says. -/
def Item.WellFormed (comments : Bool) : Item → Prop
  | .plain c => c ≠ 34 ∧ (comments = true → c ≠ 40)
  | .word _ => True
  | .quoted text => QuotedText text
  | .comment text => comments = true ∧ CommentText text

/-- A quoted string or comment that has no end. -/
inductive Pending where
  | closed
  | quote (text : List Piece) (escaped : Bool)
  | comment (text : List Piece) (depth : ℕ) (escaped : Bool)
  deriving DecidableEq

def Pending.pieces : Pending → List Piece
  | .closed => []
  | .quote text _ => .byte 34 :: text
  | .comment text _ _ => .byte 40 :: text

@[simp] lemma Pending.pieces_closed : Pending.closed.pieces = [] := rfl

@[simp] lemma Pending.pieces_quote (text : List Piece) (escaped : Bool) :
    (Pending.quote text escaped).pieces = .byte 34 :: text :=
  rfl

@[simp] lemma Pending.pieces_comment (text : List Piece) (depth : ℕ) (escaped : Bool) :
    (Pending.comment text depth escaped).pieces = .byte 40 :: text :=
  rfl

/-- The text so far, whose last byte may be a backslash that escapes the next one. -/
def Escapable (escaped : Bool) (Text : List Piece → Prop) (text : List Piece) : Prop :=
  if escaped then ∃ before words, text = before ++ .byte 92 :: List.map Piece.word words ∧ Text before else Text text

def Pending.WellFormed (comments : Bool) : Pending → Prop
  | .closed => True
  | .quote text escaped => Escapable escaped QuotedText text
  | .comment text depth escaped => comments = true ∧ Escapable escaped (NestedText depth) text

structure Lexical where
  items : List Item
  pending : Pending

namespace Lexical

def empty : Lexical := ⟨[], .closed⟩

def pieces (l : Lexical) : List Piece := l.items.flatMap Item.pieces ++ l.pending.pieces

def bytes (l : Lexical) : List UInt8 := bytesOf l.pieces

def WellFormed (comments : Bool) (l : Lexical) : Prop :=
  (∀ item ∈ l.items, item.WellFormed comments) ∧ l.pending.WellFormed comments

/-- One more piece. Without `comments` a parenthesis is a byte like any other. -/
def step (comments : Bool) (l : Lexical) (p : Piece) : Lexical :=
  match l.pending, p with
  | .closed, .word text => ⟨l.items ++ [.word text], .closed⟩
  | .closed, .byte c =>
    if c = 34 then ⟨l.items, .quote [] false⟩
    else if comments = true ∧ c = 40 then ⟨l.items, .comment [] 1 false⟩
    else ⟨l.items ++ [.plain c], .closed⟩
  | .quote text escaped, .word word => ⟨l.items, .quote (text ++ [.word word]) escaped⟩
  | .quote text escaped, .byte c =>
    if escaped then ⟨l.items, .quote (text ++ [.byte c]) false⟩
    else if c = 92 then ⟨l.items, .quote (text ++ [.byte c]) true⟩
    else if c = 34 then ⟨l.items ++ [.quoted text], .closed⟩
    else ⟨l.items, .quote (text ++ [.byte c]) false⟩
  | .comment text depth escaped, .word word => ⟨l.items, .comment (text ++ [.word word]) depth escaped⟩
  | .comment text depth escaped, .byte c =>
    if escaped then ⟨l.items, .comment (text ++ [.byte c]) depth false⟩
    else if c = 92 then ⟨l.items, .comment (text ++ [.byte c]) depth true⟩
    else if c = 40 then ⟨l.items, .comment (text ++ [.byte c]) (depth + 1) false⟩
    else if c = 41 then
      if depth = 1 then ⟨l.items ++ [.comment text], .closed⟩
      else ⟨l.items, .comment (text ++ [.byte c]) (depth - 1) false⟩
    else ⟨l.items, .comment (text ++ [.byte c]) depth false⟩

end Lexical

def lex (comments : Bool) (pieces : List Piece) : Lexical := pieces.foldl (Lexical.step comments) .empty

/-! ## What the items say -/

section
variable {comments escaped : Bool} {l : Lexical} {text ps qs : List Piece} {Text : List Piece → Prop} {c : UInt8}

lemma Lexical.pieces_step (comments : Bool) (l : Lexical) (p : Piece) :
    (l.step comments p).pieces = l.pieces ++ [p] := by
  obtain ⟨items, pending⟩ := l
  cases pending with
  | closed =>
    cases p with
    | word text => simp [step, pieces, Item.pieces]
    | byte c =>
      simp only [step]
      split
      · rename_i hmark
        simp [pieces, hmark]
      · split
        · rename_i hopen
          simp [pieces, hopen.2]
        · simp [pieces, Item.pieces]
  | quote text escaped =>
    cases p with
    | word word => simp [step, pieces]
    | byte c =>
      simp only [step]
      split_ifs with hescaped hslash hmark
      · simp [pieces]
      · simp [pieces]
      · simp [pieces, Item.pieces, hmark]
      · simp [pieces]
  | comment text depth escaped =>
    cases p with
    | word word => simp [step, pieces]
    | byte c =>
      simp only [step]
      split_ifs with hescaped hslash hopen hclose hdepth
      · simp [pieces]
      · simp [pieces]
      · simp [pieces]
      · simp [pieces, Item.pieces, hclose]
      · simp [pieces]
      · simp [pieces]

lemma Lexical.pieces_foldl (comments : Bool) (l : Lexical) (ps : List Piece) :
    (ps.foldl (Lexical.step comments) l).pieces = l.pieces ++ ps := by
  induction ps generalizing l with
  | nil => simp
  | cons p ps ih =>
    rw [List.foldl_cons, ih, pieces_step, List.append_assoc]
    rfl

/-- The items spell the text. -/
theorem pieces_lex (comments : Bool) (ps : List Piece) : (lex comments ps).pieces = ps :=
  Lexical.pieces_foldl comments .empty ps

lemma Escapable.word {w : List UInt8} (hText : ∀ {ps}, Text ps → Text (ps ++ [.word w]))
    (h : Escapable escaped Text text) : Escapable escaped Text (text ++ [.word w]) := by
  cases escaped with
  | false => exact hText h
  | true =>
    obtain ⟨before, words, rfl, hbefore⟩ := h
    exact ⟨before, words ++ [w], by simp, hbefore⟩

lemma Escapable.pair (hText : ∀ {ps words}, Text ps → Text (ps ++ .byte 92 :: (List.map Piece.word words ++ [.byte c])))
    (h : Escapable true Text text) : Text (text ++ [.byte c]) := by
  obtain ⟨before, words, rfl, hbefore⟩ := h
  rw [List.append_assoc, List.cons_append]
  exact hText hbefore

lemma Escapable.backslash (h : Text text) : Escapable true Text (text ++ [.byte 92]) := ⟨text, [], rfl, h⟩

lemma Lexical.wellFormed_step (h : l.WellFormed comments) (p : Piece) : (l.step comments p).WellFormed comments := by
  obtain ⟨items, pending⟩ := l
  obtain ⟨hitems, hpending⟩ := h
  have hsnoc : ∀ {item : Item}, item.WellFormed comments → ∀ i ∈ items ++ [item], i.WellFormed comments := by
    intro item hitem i hi
    rcases List.mem_append.mp hi with hi | hi
    · exact hitems i hi
    · exact List.mem_singleton.mp hi ▸ hitem
  cases pending with
  | closed =>
    cases p with
    | word text => exact ⟨hsnoc trivial, trivial⟩
    | byte c =>
      simp only [step]
      split_ifs with hmark hopen
      · exact ⟨hitems, QuotedText.nil⟩
      · exact ⟨hitems, hopen.1, NestedText.one .nil⟩
      · exact ⟨hsnoc ⟨hmark, fun hcomments hc => hopen ⟨hcomments, hc⟩⟩, trivial⟩
  | quote text escaped =>
    cases p with
    | word word => exact ⟨hitems, Escapable.word (fun ht => ht.append (.word .nil)) hpending⟩
    | byte c =>
      simp only [step]
      split_ifs with hescaped hslash hmark
      · subst hescaped
        exact ⟨hitems, Escapable.pair (fun ht => ht.append (.pair .nil)) hpending⟩
      · rw [Bool.not_eq_true] at hescaped
        subst hescaped hslash
        exact ⟨hitems, Escapable.backslash hpending⟩
      · rw [Bool.not_eq_true] at hescaped
        subst hescaped
        exact ⟨hsnoc hpending, trivial⟩
      · rw [Bool.not_eq_true] at hescaped
        subst hescaped
        exact ⟨hitems, QuotedText.append hpending (.text hmark hslash .nil)⟩
  | comment text depth escaped =>
    obtain ⟨hcomments, htext⟩ := hpending
    cases p with
    | word word => exact ⟨hitems, hcomments, Escapable.word (fun ht => ht.append (.word .nil)) htext⟩
    | byte c =>
      simp only [step]
      split_ifs with hescaped hslash hopen hclose hdepth
      · subst hescaped
        exact ⟨hitems, hcomments, Escapable.pair (fun ht => ht.append (.pair .nil)) htext⟩
      all_goals
        rw [Bool.not_eq_true] at hescaped
        subst hescaped
        replace htext : NestedText depth text := htext
      · subst hslash
        exact ⟨hitems, hcomments, Escapable.backslash htext⟩
      · subst hopen
        exact ⟨hitems, hcomments, NestedText.deeper htext .nil⟩
      · subst hdepth
        exact ⟨hsnoc ⟨hcomments, htext.text⟩, trivial⟩
      · subst hclose
        exact ⟨hitems, hcomments, htext.close hdepth⟩
      · exact ⟨hitems, hcomments, htext.append (.text hopen hclose hslash .nil)⟩

/-- Every item is what its text says: a quoted string holds no mark that is not escaped, a comment
    is balanced. -/
theorem wellFormed_lex (comments : Bool) (ps : List Piece) : (lex comments ps).WellFormed comments := by
  rw [lex]
  refine List.foldlRecOn ps (Lexical.step comments) ⟨?_, trivial⟩ fun l h p _ => l.wellFormed_step h p
  simp [Lexical.empty]

/-! ## What the text says is an item -/

lemma Lexical.foldl_words_quote (items : List Item) (text : List Piece) (escaped : Bool) (words : List (List UInt8)) :
    (words.map Piece.word).foldl (Lexical.step comments) ⟨items, .quote text escaped⟩ =
      ⟨items, .quote (text ++ words.map Piece.word) escaped⟩ := by
  induction words generalizing text with
  | nil => simp
  | cons word words ih =>
    simp only [List.map_cons, List.foldl_cons, step]
    rw [ih, List.append_assoc]
    rfl

lemma Lexical.foldl_words_comment (items : List Item) (text : List Piece) (depth : ℕ) (escaped : Bool)
    (words : List (List UInt8)) :
    (words.map Piece.word).foldl (Lexical.step comments) ⟨items, .comment text depth escaped⟩ =
      ⟨items, .comment (text ++ words.map Piece.word) depth escaped⟩ := by
  induction words generalizing text with
  | nil => simp
  | cons word words ih =>
    simp only [List.map_cons, List.foldl_cons, step]
    rw [ih, List.append_assoc]
    rfl

lemma Lexical.foldl_quoted (items : List Item) (h : QuotedText ps) :
    ps.foldl (Lexical.step comments) ⟨items, .quote text false⟩ = ⟨items, .quote (text ++ ps) false⟩ := by
  induction h generalizing text with
  | nil => simp
  | word _ ih => simp [step, ih]
  | text hmark hslash _ ih => simp [step, ih, hmark, hslash]
  | pair _ ih => simp [step, ih, foldl_words_quote]

/-- The depth at the end of a comment's text is that at its begin. -/
lemma Lexical.foldl_comment (items : List Item) (h : CommentText ps) {depth : ℕ} (hdepth : 0 < depth) :
    ps.foldl (Lexical.step comments) ⟨items, .comment text depth false⟩ = ⟨items, .comment (text ++ ps) depth false⟩ := by
  induction h generalizing text depth with
  | nil => simp
  | word _ ih => simp [step, ih hdepth]
  | text hopen hclose hslash _ ih => simp [step, ih hdepth, hopen, hclose, hslash]
  | pair _ ih => simp [step, ih hdepth, foldl_words_comment]
  | nested _ _ ihinner ih => simp [step, ihinner (Nat.succ_pos depth), ih hdepth, Nat.ne_of_gt hdepth]

lemma Lexical.foldl_item {item : Item} (items : List Item) (h : item.WellFormed comments) :
    item.pieces.foldl (Lexical.step comments) ⟨items, .closed⟩ = ⟨items ++ [item], .closed⟩ := by
  cases item with
  | plain c =>
    simp only [Item.pieces, List.foldl_cons, List.foldl_nil, step, if_neg h.1]
    rw [if_neg fun hopen => h.2 hopen.1 hopen.2]
  | word text => rfl
  | quoted text => simp [Item.pieces, step, foldl_quoted items (show QuotedText text from h)]
  | comment text =>
    obtain ⟨rfl, htext⟩ := h
    simp [Item.pieces, step, foldl_comment items htext]

lemma Lexical.foldl_items (items rest : List Item) (h : ∀ item ∈ rest, item.WellFormed comments) :
    (rest.flatMap Item.pieces).foldl (Lexical.step comments) ⟨items, .closed⟩ = ⟨items ++ rest, .closed⟩ := by
  induction rest generalizing items with
  | nil => simp
  | cons item rest ih =>
    rw [List.flatMap_cons, List.foldl_append, foldl_item items (h item (List.mem_cons_self ..)),
      ih _ fun i hi => h i (List.mem_cons_of_mem _ hi), List.append_assoc]
    rfl

/-- Whatever the items, their text is read as these items. -/
theorem lex_items {items : List Item} (h : ∀ item ∈ items, item.WellFormed comments) :
    lex comments (items.flatMap Item.pieces) = ⟨items, .closed⟩ :=
  Lexical.foldl_items [] items h

end

/-! ## The bytes of items -/

@[simp] lemma Item.bytes_plain (c : UInt8) : (Item.plain c).bytes = [c] := rfl

@[simp] lemma Item.bytes_word (text : List UInt8) : (Item.word text).bytes = text := List.append_nil text

@[simp] lemma Item.bytes_quoted (text : List Piece) : (Item.quoted text).bytes = 34 :: (bytesOf text ++ [34]) := by
  simp [Item.bytes, Item.pieces, Piece.bytes]

@[simp] lemma Item.bytes_comment (text : List Piece) : (Item.comment text).bytes = 40 :: (bytesOf text ++ [41]) := by
  simp [Item.bytes, Item.pieces, Piece.bytes]

/-- What was read stays read. -/
lemma Lexical.items_step (comments : Bool) (l : Lexical) (p : Piece) :
    ∃ extra, (l.step comments p).items = l.items ++ extra := by
  obtain ⟨items, pending⟩ := l
  have hsame : ∃ extra, items = items ++ extra := ⟨[], (List.append_nil items).symm⟩
  cases pending with
  | closed =>
    cases p with
    | word text => exact ⟨_, rfl⟩
    | byte c =>
      simp only [step]
      split_ifs
      · exact hsame
      · exact hsame
      · exact ⟨_, rfl⟩
  | quote text escaped =>
    cases p with
    | word text => exact hsame
    | byte c =>
      simp only [step]
      split_ifs
      · exact hsame
      · exact hsame
      · exact ⟨_, rfl⟩
      · exact hsame
  | comment text depth escaped =>
    cases p with
    | word text => exact hsame
    | byte c =>
      simp only [step]
      split_ifs
      · exact hsame
      · exact hsame
      · exact hsame
      · exact ⟨_, rfl⟩
      · exact hsame
      · exact hsame

lemma Lexical.bytes_step (comments : Bool) (l : Lexical) (p : Piece) :
    (l.step comments p).bytes = l.bytes ++ p.bytes := by
  rw [bytes, pieces_step, bytesOf_append]
  simp [bytes]

lemma bytesOf_flatMap_pieces (items : List Item) : bytesOf (items.flatMap Item.pieces) = items.flatMap Item.bytes := by
  rw [bytesOf, List.flatMap_assoc]
  rfl

lemma Lexical.bytes_eq (l : Lexical) : l.bytes = l.items.flatMap Item.bytes ++ bytesOf l.pending.pieces := by
  rw [bytes, pieces, bytesOf_append, bytesOf_flatMap_pieces]

/-! ## Members -/

/-- How a list is split: the members that have ended, the items of the next one, how many angle and
    square brackets are open, and whether a group is. -/
structure Split where
  done : List (List Item)
  current : List Item
  angle : ℕ
  literal : ℕ
  group : Bool

namespace Split

def empty : Split := ⟨[], [], 0, 0, false⟩

/-- One more item. A comma or semicolon ends a member, and the colon of a group drops the group's
    name; neither does so between brackets, and no other item does. -/
def step (s : Split) (item : Item) : Split :=
  let longer := { s with current := s.current ++ [item] }
  match item with
  | .plain c =>
    if c = 60 then { longer with angle := s.angle + 1 }
    else if c = 62 ∧ 0 < s.angle then { longer with angle := s.angle - 1 }
    else if s.angle = 0 ∧ c = 91 then { longer with literal := s.literal + 1 }
    else if s.angle = 0 ∧ c = 93 ∧ 0 < s.literal then { longer with literal := s.literal - 1 }
    else if s.angle = 0 ∧ s.literal = 0 ∧ c = 58 ∧ s.group = false then { s with current := [], group := true }
    else if s.angle = 0 ∧ s.literal = 0 ∧ (c = 44 ∨ c = 59) then
      { s with done := s.done ++ [s.current], current := [], group := if c = 59 then false else s.group }
    else longer
  | _ => longer

end Split

/-- The members of a list. What has no end belongs to the last one. -/
def members (l : Lexical) : List Lexical :=
  let s := l.items.foldl Split.step .empty
  s.done.map (fun items => ⟨items, .closed⟩) ++ [⟨s.current, l.pending⟩]

/-! ## A member read by itself -/

section
variable {comments : Bool} {l m : Lexical} {items : List Item}

lemma Split.done_step (s : Split) (item : Item) : (s.step item).done = s.done ∨ (s.step item).done = s.done ++ [s.current] := by
  cases item with
  | plain c =>
    simp only [step]
    split_ifs <;> simp
  | word text => exact .inl rfl
  | quoted text => exact .inl rfl
  | comment text => exact .inl rfl

lemma Split.current_step (s : Split) (item : Item) :
    (s.step item).current = s.current ++ [item] ∨ (s.step item).current = [] := by
  cases item with
  | plain c =>
    simp only [step]
    split_ifs <;> simp
  | word text => exact .inl rfl
  | quoted text => exact .inl rfl
  | comment text => exact .inl rfl

/-- Members are made of items that stand together. -/
lemma Split.part_items (items : List Item) : (∀ member ∈ (items.foldl step empty).done, member <:+: items) ∧
    (items.foldl step empty).current <:+ items := by
  induction items using List.reverseRecOn with
  | nil => exact ⟨fun member hmember => by simp [empty] at hmember, List.nil_suffix⟩
  | append_singleton items item ih =>
    obtain ⟨hdone, hcurrent⟩ := ih
    have hlonger : items <:+: items ++ [item] := (List.prefix_append items [item]).isInfix
    rw [List.foldl_append, List.foldl_cons, List.foldl_nil]
    constructor
    · intro member hmember
      rcases done_step (items.foldl step empty) item with h | h
      · rw [h] at hmember
        exact (hdone member hmember).trans hlonger
      · rw [h, List.mem_append, List.mem_singleton] at hmember
        rcases hmember with hmember | rfl
        · exact (hdone member hmember).trans hlonger
        · exact hcurrent.isInfix.trans hlonger
    · rcases current_step (items.foldl step empty) item with h | h
      · rw [h]
        obtain ⟨front, hfront⟩ := hcurrent
        exact ⟨front, by rw [← List.append_assoc, hfront]⟩
      · rw [h]
        exact List.nil_suffix

/-- A member that has ended is followed by a comma or a semicolon. -/
lemma Split.separator_items (items : List Item) : ∀ member ∈ (items.foldl step empty).done,
    ∃ front c back, items = front ++ (member ++ .plain c :: back) ∧ (c = 44 ∨ c = 59) := by
  induction items using List.reverseRecOn with
  | nil =>
    intro member hmember
    simp [empty] at hmember
  | append_singleton items item ih =>
    intro member hmember
    rw [List.foldl_append, List.foldl_cons, List.foldl_nil] at hmember
    have hkept : member ∈ (items.foldl step empty).done →
        ∃ front c back, items ++ [item] = front ++ (member ++ .plain c :: back) ∧ (c = 44 ∨ c = 59) := by
      intro hdone
      obtain ⟨front, c, back, hitems, hc⟩ := ih member hdone
      exact ⟨front, c, back ++ [item], by simp [hitems], hc⟩
    cases item with
    | plain c =>
      by_cases hends : (step (items.foldl step empty) (.plain c)).done = (items.foldl step empty).done
      · rw [hends] at hmember
        exact hkept hmember
      · have hsep : c = 44 ∨ c = 59 := by
          revert hends
          simp only [step]
          split_ifs <;> simp_all
        have hdone := (done_step (items.foldl step empty) (.plain c)).resolve_left hends
        rw [hdone, List.mem_append, List.mem_singleton] at hmember
        rcases hmember with hmember | rfl
        · exact hkept hmember
        · obtain ⟨front, hcurrent⟩ := (part_items items).2
          exact ⟨front, c, [], by rw [← List.append_assoc, hcurrent], hsep⟩
    | word text => exact hkept hmember
    | quoted text => exact hkept hmember
    | comment text => exact hkept hmember

lemma Lexical.step_frame (before items : List Item) (pending : Pending) (p : Piece) :
    step comments ⟨before ++ items, pending⟩ p =
      ⟨before ++ (step comments ⟨items, pending⟩ p).items, (step comments ⟨items, pending⟩ p).pending⟩ := by
  cases pending with
  | closed =>
    cases p with
    | word text => simp [step]
    | byte c =>
      simp only [step]
      split_ifs <;> simp
  | quote text escaped =>
    cases p with
    | word word => rfl
    | byte c =>
      simp only [step]
      split_ifs <;> simp
  | comment text depth escaped =>
    cases p with
    | word word => rfl
    | byte c =>
      simp only [step]
      split_ifs <;> simp

/-- The items before do not change how a text is read. -/
lemma Lexical.foldl_frame (before items : List Item) (pending : Pending) (ps : List Piece) :
    ps.foldl (step comments) ⟨before ++ items, pending⟩ =
      ⟨before ++ (ps.foldl (step comments) ⟨items, pending⟩).items, (ps.foldl (step comments) ⟨items, pending⟩).pending⟩ := by
  induction ps generalizing items pending with
  | nil => rfl
  | cons p ps ih =>
    rw [List.foldl_cons, step_frame, ih]
    rfl

/-- What has no end is read as such wherever it starts. -/
lemma Lexical.foldl_pending {ps : List Piece} (before : List Item) :
    (lex comments ps).pending.pieces.foldl (step comments) ⟨before, .closed⟩ = ⟨before, (lex comments ps).pending⟩ := by
  have hitems := (wellFormed_lex comments ps).1
  have hread : lex comments (lex comments ps).pieces = lex comments ps := congrArg _ (pieces_lex comments ps)
  rw [lex, pieces, List.foldl_append, empty, foldl_items [] _ hitems, List.nil_append] at hread
  have hframe := @foldl_frame comments (lex comments ps).items [] .closed (lex comments ps).pending.pieces
  rw [List.append_nil, hread] at hframe
  have hnothing : ((lex comments ps).pending.pieces.foldl (step comments) ⟨[], .closed⟩).items = [] := by
    have hlength := congrArg (fun l : Lexical => l.items.length) hframe
    simpa using hlength
  have hpending := congrArg Lexical.pending hframe
  have hbefore := @foldl_frame comments before [] .closed (lex comments ps).pending.pieces
  rw [List.append_nil] at hbefore
  rw [hbefore, hnothing, List.append_nil]
  exact congrArg _ hpending.symm

variable {ps : List Piece}

lemma members_part (hm : m ∈ members l) : m.pieces <:+: l.pieces := by
  obtain ⟨hdone, hcurrent⟩ := Split.part_items l.items
  rw [members, List.mem_append, List.mem_singleton, List.mem_map] at hm
  rcases hm with ⟨items, hitems, rfl⟩ | rfl
  · obtain ⟨front, back, hparts⟩ := hdone items hitems
    refine ⟨front.flatMap Item.pieces, back.flatMap Item.pieces ++ l.pending.pieces, ?_⟩
    rw [Lexical.pieces, Lexical.pieces, ← hparts]
    simp
  · obtain ⟨front, hparts⟩ := hcurrent
    have hpieces := congrArg (fun items : List Item => items.flatMap Item.pieces ++ l.pending.pieces) hparts
    refine ⟨front.flatMap Item.pieces, [], ?_⟩
    rw [Lexical.pieces, Lexical.pieces, ← hpieces]
    simp

/-- A member read by itself has the items that it has in the list. -/
lemma lex_members (hm : m ∈ members (lex comments ps)) : lex comments m.pieces = m := by
  obtain ⟨hdone, hcurrent⟩ := Split.part_items (lex comments ps).items
  have hwell := (wellFormed_lex comments ps).1
  rw [members, List.mem_append, List.mem_singleton, List.mem_map] at hm
  rcases hm with ⟨items, hitems, rfl⟩ | rfl
  · have hmember := lex_items fun item hitem => hwell item ((hdone items hitems).mem hitem)
    rw [Lexical.pieces, Pending.pieces_closed, List.append_nil, hmember]
  · have hmember := Lexical.foldl_items [] _ fun item hitem => hwell item (hcurrent.mem hitem)
    rw [Lexical.pieces, lex, List.foldl_append, Lexical.empty, hmember, List.nil_append]
    exact Lexical.foldl_pending _

end

/-! ## A member -/

/-- The text with a blank in the place of each comment. -/
def Lexical.withoutComments (l : Lexical) : List UInt8 :=
  (l.items.flatMap fun
    | .comment _ => [32]
    | item => item.bytes) ++
  match l.pending with
  | .comment _ _ _ => [32]
  | pending => bytesOf pending.pieces

/-- No comment is open, and no backslash waits for the byte it escapes. -/
def Pending.Settled : Pending → Prop
  | .closed => True
  | .quote _ escaped => escaped = false
  | .comment _ _ _ => False

instance (pending : Pending) : Decidable pending.Settled := by
  cases pending <;> unfold Pending.Settled <;> infer_instance

/-- What stands before and after the first `target` that is outside quoted strings. -/
def Lexical.splitAt (target : UInt8) (l : Lexical) : Option (List UInt8 × List UInt8) :=
  match l.items.dropWhile (· ≠ .plain target) with
  | [] => none
  | _ :: after =>
    some ((l.items.takeWhile (· ≠ .plain target)).flatMap Item.bytes,
      after.flatMap Item.bytes ++ bytesOf l.pending.pieces)

end Wyrebox.AddressSyntax
