import Wyrebox.AddressGrammar
import Wyrebox.EncodedWordPieces

set_option autoImplicit false

/-!
# Address lists and their members

The scanning loops keep flags; here each is the reading of the text's items. A list is the members
between separators outside quoted strings, comments and encoded words, and an address is the whole
of a member without its comments, or the whole of what its angle brackets hold.
-/
namespace Wyrebox.AddressList
open AddressSyntax EncodedWords EncodedWordPieces AddressGrammar FactRecords Event

/-! ## Flags -/

section
variable {σ : Type} {comments : Bool} {l : Lexical} {p : Piece} {ps : List Piece}

lemma lex_concat (comments : Bool) (ps : List Piece) (p : Piece) :
    lex comments (ps ++ [p]) = (lex comments ps).step comments p := by
  simp [lex]

/-- A loop whose state is a function of the items read so far. -/
lemma foldl_eq_lex {step : σ → Piece → σ} {initial : σ} (image : Lexical → σ) (hinitial : image .empty = initial)
    (hstep : ∀ l p, l.WellFormed comments → image (l.step comments p) = step (image l) p) (ps : List Piece) :
    ps.foldl step initial = image (lex comments ps) := by
  induction ps using List.reverseRecOn with
  | nil => exact hinitial.symm
  | append_singleton ps p ih =>
    rw [List.foldl_append, List.foldl_cons, List.foldl_nil, ih, lex_concat, hstep _ _ (wellFormed_lex comments ps)]

def depthOf : Pending → ℕ
  | .comment _ depth _ => depth
  | _ => 0

def isQuote : Pending → Bool
  | .quote _ _ => true
  | _ => false

def isEscaped : Pending → Bool
  | .quote _ escaped => escaped
  | .comment _ _ escaped => escaped
  | .closed => false

attribute [local simp] depthOf isQuote isEscaped Piece.bytes

lemma depth_pos {text : List Piece} {depth : ℕ} {escaped : Bool}
    (h : (Pending.comment text depth escaped).WellFormed comments) : 0 < depth := by
  obtain ⟨-, h⟩ := h
  cases escaped with
  | false => exact NestedText.pos h
  | true =>
    obtain ⟨before, words, -, h⟩ := h
    exact h.pos

lemma settled_iff (pending : Pending) (h : pending.WellFormed comments) :
    pending.Settled ↔ depthOf pending = 0 ∧ isEscaped pending = false := by
  cases pending with
  | closed => simp [Pending.Settled, depthOf, isEscaped]
  | quote text escaped => simp [Pending.Settled, depthOf, isEscaped]
  | comment text depth escaped => simp [Pending.Settled, depthOf, (depth_pos h).ne']

/-! ## Comments -/

def commentImage (l : Lexical) : CommentScan :=
  ⟨l.withoutComments, depthOf l.pending, isQuote l.pending, isEscaped l.pending⟩

lemma commentImage_step (h : l.WellFormed true) (p : Piece) :
    commentImage (l.step true p) = (commentImage l).step p := by
  obtain ⟨items, pending⟩ := l
  cases pending with
  | closed =>
    cases p with
    | word text => simp [Lexical.step, commentImage, CommentScan.step, Lexical.withoutComments]
    | byte c =>
      simp only [Lexical.step, commentImage, CommentScan.step, depthOf, isQuote, isEscaped]
      split_ifs with hmark hopen <;> simp_all [Lexical.withoutComments]
  | quote text escaped =>
    cases p with
    | word word => simp [Lexical.step, commentImage, CommentScan.step, Lexical.withoutComments]
    | byte c =>
      simp only [Lexical.step, commentImage, CommentScan.step, depthOf, isQuote, isEscaped]
      split_ifs with hescaped hslash hmark <;> simp_all [Lexical.withoutComments]
  | comment text depth escaped =>
    have hpos := depth_pos h.2
    cases p with
    | word word => simp [Lexical.step, commentImage, CommentScan.step, Lexical.withoutComments, hpos.ne']
    | byte c =>
      simp only [Lexical.step, commentImage, CommentScan.step, depthOf, isQuote, isEscaped, if_pos hpos]
      split_ifs with hescaped hslash hopen hclose hdepth <;> simp_all [Lexical.withoutComments]

/-- Removing the comments leaves a blank for each comment of the text. -/
lemma removeComments_eq (value : List UInt8) :
    removeComments value =
      ((lex true (pieces value)).withoutComments, decide (lex true (pieces value)).pending.Settled) := by
  have hscan := @foldl_eq_lex _ _ _ .initial commentImage rfl (fun l p h => commentImage_step h p) (pieces value)
  have hsettled := settled_iff _ (wellFormed_lex true (pieces value)).2
  simp only [removeComments, hscan, commentImage, hsettled, Bool.decide_and]

/-! ## Brackets -/

lemma splitAt_of_notMem {target : UInt8} (h : .plain target ∉ l.items) : l.splitAt target = none := by
  have hdrop : l.items.dropWhile (· ≠ .plain target) = [] := by
    rw [List.dropWhile_eq_nil_iff]
    intro item hitem
    simpa using ne_of_mem_of_not_mem hitem h
  rw [Lexical.splitAt, hdrop]

lemma splitAt_append {target : UInt8} {before after : List Item} (hitems : l.items = before ++ .plain target :: after)
    (h : .plain target ∉ before) :
    l.splitAt target = some (before.flatMap Item.bytes, after.flatMap Item.bytes ++ bytesOf l.pending.pieces) := by
  have hne : ∀ item ∈ before, decide (item ≠ .plain target) = true := by
    intro item hitem
    simpa using ne_of_mem_of_not_mem hitem h
  rw [Lexical.splitAt, hitems, List.dropWhile_append_of_pos hne, List.takeWhile_append_of_pos hne]
  simp

def targetImage (target : UInt8) (l : Lexical) : TargetScan :=
  match l.splitAt target with
  | none => ⟨l.bytes, isQuote l.pending, isEscaped l.pending, none⟩
  | some (before, after) => ⟨before, false, false, some after⟩

/-- The byte that the loop looks for, where it is not in quotes. -/
def IsTarget (target : UInt8) (l : Lexical) (p : Piece) : Prop := l.pending = .closed ∧ p = .byte target

lemma targetScan_step {target : UInt8} (h : l.WellFormed false) (hp : ¬IsTarget target l p)
    (before : List UInt8) :
    TargetScan.step target ⟨before, isQuote l.pending, isEscaped l.pending, none⟩ p =
      ⟨before ++ p.bytes, isQuote (l.step false p).pending, isEscaped (l.step false p).pending, none⟩ := by
  obtain ⟨items, pending⟩ := l
  cases pending with
  | closed =>
    cases p with
    | word text => rfl
    | byte c =>
      have hc : c ≠ target := fun hc => hp ⟨rfl, congrArg _ hc⟩
      by_cases hmark : c = 34
      · simp [TargetScan.step, Lexical.step, hmark]
      · simp [TargetScan.step, Lexical.step, hmark, hc]
  | quote text escaped =>
    cases p with
    | word word => rfl
    | byte c =>
      simp only [TargetScan.step, Lexical.step, isQuote, isEscaped]
      split_ifs <;> simp_all
  | comment text depth escaped => exact absurd h.2.1 Bool.false_ne_true

lemma notMem_step {target : UInt8} (hmem : .plain target ∉ l.items) (h : l.WellFormed false)
    (hp : ¬IsTarget target l p) : .plain target ∉ (l.step false p).items := by
  obtain ⟨items, pending⟩ := l
  have hsnoc : ∀ item, item ≠ .plain target → .plain target ∉ items ++ [item] := by
    intro item hne hin
    rcases List.mem_append.mp hin with hin | hin
    · exact hmem hin
    · exact hne (List.mem_singleton.mp hin).symm
  cases pending with
  | closed =>
    cases p with
    | word text => exact hsnoc _ (by simp)
    | byte c =>
      have hc : c ≠ target := fun hc => hp ⟨rfl, congrArg _ hc⟩
      simp only [Lexical.step, Bool.false_eq_true, false_and, if_false]
      split_ifs
      · exact hmem
      · exact hsnoc _ (by simpa using hc)
  | quote text escaped =>
    cases p with
    | word word => exact hmem
    | byte c =>
      simp only [Lexical.step]
      split_ifs
      · exact hmem
      · exact hmem
      · exact hsnoc _ (by simp)
      · exact hmem
  | comment text depth escaped => exact absurd h.2.1 Bool.false_ne_true

lemma targetImage_step {target : UInt8} (htarget : target ≠ 34) (h : l.WellFormed false) (p : Piece) :
    targetImage target (l.step false p) = (targetImage target l).step target p := by
  have hbytes := l.bytes_step false p
  by_cases hmem : .plain target ∈ l.items
  · obtain ⟨before, after, hitems, hbefore⟩ := List.eq_append_cons_of_mem hmem
    obtain ⟨extra, hextra⟩ := l.items_step false p
    have hitems' : (l.step false p).items = before ++ .plain target :: (after ++ extra) := by simp [hextra, hitems]
    rw [Lexical.bytes_eq, Lexical.bytes_eq, hextra, List.flatMap_append, List.append_assoc, List.append_assoc,
      List.append_cancel_left_eq] at hbytes
    rw [targetImage, targetImage, splitAt_append hitems hbefore, splitAt_append hitems' hbefore]
    simp [TargetScan.step, List.append_assoc, hbytes]
  · by_cases hp : IsTarget target l p
    · obtain ⟨items, pending⟩ := l
      obtain ⟨rfl, rfl⟩ : pending = .closed ∧ p = .byte target := hp
      have hstep : (⟨items, .closed⟩ : Lexical).step false (.byte target) = ⟨items ++ [.plain target], .closed⟩ := by
        simp [Lexical.step, htarget]
      have hsplit := @splitAt_append ⟨items ++ [.plain target], .closed⟩ target items [] rfl hmem
      rw [targetImage, targetImage, splitAt_of_notMem hmem, hstep, hsplit]
      simp [TargetScan.step, htarget, Lexical.bytes_eq]
    · rw [targetImage, targetImage, splitAt_of_notMem hmem, splitAt_of_notMem (notMem_step hmem h hp),
        targetScan_step h hp, hbytes]

/-- The loops find what the items say. -/
lemma findTarget_eq {target : UInt8} (htarget : target ≠ 34) (text : List UInt8) :
    findTarget target text = (lex false (pieces text)).splitAt target := by
  have hscan := @foldl_eq_lex _ _ _ .initial (targetImage target) rfl (fun l p h => targetImage_step htarget h p)
    (pieces text)
  rw [findTarget, hscan, targetImage]
  cases (lex false (pieces text)).splitAt target <;> rfl

/-! ## Members -/

variable (glib : GLib)

def splitOf (l : Lexical) : Split := l.items.foldl Split.step .empty

/-- The addresses of the members that have ended. -/
def addressesOf (done : List (List Item)) : List ParsedAddress :=
  done.filterMap fun items => addressOfSegment glib (items.flatMap Item.bytes)

def listImage (l : Lexical) : ListScan :=
  ⟨addressesOf glib (splitOf l).done, (splitOf l).current.flatMap Item.bytes ++ bytesOf l.pending.pieces,
    depthOf l.pending, (splitOf l).angle, (splitOf l).literal, isQuote l.pending, isEscaped l.pending, (splitOf l).group⟩

@[simp] lemma splitOf_snoc (items : List Item) (item : Item) (pending pending' : Pending) :
    splitOf ⟨items ++ [item], pending⟩ = (splitOf ⟨items, pending'⟩).step item := by
  simp [splitOf]

@[simp] lemma addressesOf_snoc (done : List (List Item)) (items : List Item) :
    addressesOf glib (done ++ [items]) =
      addressesOf glib done ++ (addressOfSegment glib (items.flatMap Item.bytes)).toList := by
  rw [addressesOf, List.filterMap_append]
  cases haddress : addressOfSegment glib (items.flatMap Item.bytes) <;> simp [addressesOf, haddress]

lemma listImage_plain (items : List Item) {c : UInt8} (hquote : c ≠ 34) (hopen : c ≠ 40) :
    listImage glib ⟨items ++ [.plain c], .closed⟩ = (listImage glib ⟨items, .closed⟩).step glib (.byte c) := by
  simp only [listImage, splitOf_snoc items (.plain c) .closed .closed]
  generalize splitOf ⟨items, .closed⟩ = s
  simp only [Split.step, ListScan.step, isQuote, isEscaped, depthOf, Nat.lt_irrefl, if_false, Bool.false_eq_true,
    false_and, hquote, hopen, and_false, true_and]
  split_ifs <;> simp [ListScan.appendSegment]

lemma listImage_step (h : l.WellFormed true) (p : Piece) :
    listImage glib (l.step true p) = (listImage glib l).step glib p := by
  obtain ⟨items, pending⟩ := l
  cases pending with
  | closed =>
    cases p with
    | word text => simp [Lexical.step, listImage, ListScan.step, Split.step, splitOf_snoc items _ .closed .closed]
    | byte c =>
      by_cases hquote : c = 34
      · simp [Lexical.step, listImage, ListScan.step, hquote, splitOf]
      · by_cases hopen : c = 40
        · simp [Lexical.step, listImage, ListScan.step, hopen, splitOf]
        · have hstep : (⟨items, .closed⟩ : Lexical).step true (.byte c) = ⟨items ++ [.plain c], .closed⟩ := by
            simp [Lexical.step, hquote, hopen]
          rw [hstep]
          exact listImage_plain glib items hquote hopen
  | quote text escaped =>
    cases p with
    | word word => simp [Lexical.step, listImage, ListScan.step, splitOf]
    | byte c =>
      cases escaped with
      | true => simp [Lexical.step, listImage, ListScan.step, splitOf]
      | false =>
        by_cases hslash : c = 92
        · simp [Lexical.step, listImage, ListScan.step, hslash, splitOf]
        · by_cases hmark : c = 34
          · simp [Lexical.step, listImage, ListScan.step, hmark, splitOf, Split.step]
          · simp [Lexical.step, listImage, ListScan.step, hslash, hmark, splitOf]
  | comment text depth escaped =>
    have hpos := depth_pos h.2
    cases p with
    | word word => simp [Lexical.step, listImage, ListScan.step, splitOf]
    | byte c =>
      cases escaped with
      | true => simp [Lexical.step, listImage, ListScan.step, hpos, splitOf]
      | false =>
        by_cases hslash : c = 92
        · simp [Lexical.step, listImage, ListScan.step, hpos, hslash, splitOf]
        · by_cases hopen : c = 40
          · simp [Lexical.step, listImage, ListScan.step, hpos, hopen, splitOf]
          · by_cases hclose : c = 41
            · by_cases hdepth : depth = 1
              · simp [Lexical.step, listImage, ListScan.step, hclose, hdepth, splitOf, Split.step]
              · simp [Lexical.step, listImage, ListScan.step, hpos, hclose, hdepth, splitOf]
            · simp [Lexical.step, listImage, ListScan.step, hpos, hslash, hopen, hclose, splitOf]

/-- The list is read as its members. -/
lemma parseAddressList_eq (value : CString) : parseAddressList glib (some value) =
    (members (lex true (pieces value.bytes))).filterMap fun m => addressOfSegment glib m.bytes := by
  have hscan := @foldl_eq_lex _ _ _ .initial (listImage glib) rfl (fun l p h => listImage_step glib h p)
    (pieces value.bytes)
  by_cases hempty : value.bytes = []
  · rw [parseAddressList, if_pos hempty, hempty]
    rfl
  · rw [parseAddressList, if_neg hempty, hscan]
    generalize lex true (pieces value.bytes) = l
    have hdone : (splitOf l).done.filterMap (fun items => addressOfSegment glib (Lexical.bytes ⟨items, .closed⟩)) =
        addressesOf glib (splitOf l).done := by
      simp [addressesOf, Lexical.bytes_eq]
    have hlast : Lexical.bytes ⟨(splitOf l).current, l.pending⟩ =
        (splitOf l).current.flatMap Item.bytes ++ bytesOf l.pending.pieces := Lexical.bytes_eq _
    rw [members, List.filterMap_append, List.filterMap_map, ListScan.appendSegment]
    change addressesOf glib (splitOf l).done ++ _ = _
    rw [← hdone]
    refine congrArg _ ?_
    change _ = [(⟨(splitOf l).current, l.pending⟩ : Lexical)].filterMap _
    rw [List.filterMap_cons, hlast]
    change (addressOfSegment glib ((splitOf l).current.flatMap Item.bytes ++ bytesOf l.pending.pieces)).toList = _
    cases addressOfSegment glib ((splitOf l).current.flatMap Item.bytes ++ bytesOf l.pending.pieces) <;> rfl

/-! ## The address of a member -/

/-- The text with a blank for each comment, if all comments end. -/
def uncommented (text : List UInt8) : Option (List UInt8) :=
  let l := lex true (pieces text)
  if l.pending.Settled then some l.withoutComments else none

/-- All that the angle brackets hold, or the whole text where there are none. A phrase may precede the brackets
    and white space follow them. -/
def bracketed (text : List UInt8) : Option (List UInt8) :=
  match (lex false (pieces text)).splitAt 60 with
  | none => some text
  | some (name, rest) =>
    match (lex false (pieces rest)).splitAt 62 with
    | none => none
    | some (address, trailing) =>
      if trailing.all isSpace = true ∧ (strip name = [] ∨ displayNamePhraseIsValid glib (strip name) = true) then some address
      else none

/-- The address that a text without brackets is. -/
def plainAddress (text : List UInt8) : Option (List UInt8) := (uncommented text).bind (normalizeAddress glib)

/-- The address of a member is that of its text, or of what its brackets hold. -/
def memberAddress (member : List UInt8) : Option (List UInt8) :=
  (uncommented (strip member)).bind fun text => (bracketed glib text).bind (plainAddress glib)

lemma uncommented_eq (text : List UInt8) :
    uncommented text = if (removeComments text).2 = true then some (removeComments text).1 else none := by
  rw [removeComments_eq, uncommented]
  simp only [decide_eq_true_eq]

lemma plainAddress_nil : plainAddress glib [] = none := rfl

lemma displayNameFromSegment_text (text : List UInt8) :
    (displayNameFromSegment glib text).2 = ((uncommented text).bind (bracketed glib)).getD [] := by
  rw [uncommented_eq, displayNameFromSegment]
  obtain ⟨output, valid⟩ := removeComments text
  cases valid with
  | false => rfl
  | true =>
    have hopen := @findTarget_eq 60 (by decide) output
    simp only [Bool.not_true, Bool.false_eq_true, if_false, if_true, Option.bind_some, bracketed, ← hopen]
    cases findTarget 60 output with
    | none => rfl
    | some found =>
      obtain ⟨name, rest⟩ := found
      have hclose := @findTarget_eq 62 (by decide) rest
      simp only [← hclose]
      cases findTarget 62 rest with
      | none => rfl
      | some found =>
        obtain ⟨address, trailing⟩ := found
        dsimp only
        by_cases htrailing : trailing.all isSpace = true
        · by_cases hname : strip name = [] ∨ displayNamePhraseIsValid glib (strip name) = true
          · have hphrase : ¬(strip name ≠ [] ∧ (!displayNamePhraseIsValid glib (strip name)) = true) := by
              simpa [or_iff_not_imp_left] using hname
            simp only [htrailing, hphrase, hname, Bool.not_true, Bool.false_eq_true, if_false, and_self, if_true,
              Option.getD_some]
          · have hphrase : strip name ≠ [] ∧ (!displayNamePhraseIsValid glib (strip name)) = true := by
              simpa [not_or] using hname
            have hnone : ¬(trailing.all isSpace = true ∧
                (strip name = [] ∨ displayNamePhraseIsValid glib (strip name) = true)) := fun h => hname h.2
            rw [if_neg hnone, if_neg (by simp [htrailing]), if_pos hphrase]
            rfl
        · simp [htrailing]

lemma addressOfSegment_eq (segment : List UInt8) :
    (addressOfSegment glib segment).map ParsedAddress.address = memberAddress glib segment := by
  have htext : memberAddress glib segment = plainAddress glib (displayNameFromSegment glib (strip segment)).2 := by
    rw [displayNameFromSegment_text, memberAddress, ← Option.bind_assoc]
    cases (uncommented (strip segment)).bind (bracketed glib) <;> rfl
  rw [htext, plainAddress, uncommented_eq, addressOfSegment]
  split
  · rename_i hempty
    rw [hempty]
    rfl
  · obtain ⟨displayName, text⟩ := displayNameFromSegment glib (strip segment)
    simp only
    cases (removeComments text).2 with
    | false => rfl
    | true =>
      simp only [Bool.not_true, Bool.false_eq_true, if_false, if_true, Option.bind_some, Option.map_map]
      exact Option.map_id'

/-! ## Text without NUL -/

variable {glib}

lemma bytes_lex (comments : Bool) (text : List UInt8) : (lex comments (pieces text)).bytes = text := by
  rw [Lexical.bytes, pieces_lex, bytesOf_pieces]

lemma mem_withoutComments {c : UInt8} (h : c ∈ l.withoutComments) : c ∈ l.bytes ∨ c = 32 := by
  rw [Lexical.bytes_eq, List.mem_append]
  rw [Lexical.withoutComments, List.mem_append, List.mem_flatMap] at h
  rcases h with ⟨item, hitem, hc⟩ | hc
  · cases item with
    | comment text => exact .inr (List.mem_singleton.mp hc)
    | plain d => exact .inl (.inl (List.mem_flatMap.mpr ⟨_, hitem, hc⟩))
    | word text => exact .inl (.inl (List.mem_flatMap.mpr ⟨_, hitem, hc⟩))
    | quoted text => exact .inl (.inl (List.mem_flatMap.mpr ⟨_, hitem, hc⟩))
  · generalize l.pending = pending at hc ⊢
    cases pending with
    | comment text depth escaped => exact .inr (List.mem_singleton.mp hc)
    | closed => exact .inl (.inr hc)
    | quote text escaped => exact .inl (.inr hc)

lemma mem_uncommented {text output : List UInt8} (h : uncommented text = some output) {c : UInt8} (hc : c ∈ output) :
    c ∈ text ∨ c = 32 := by
  simp only [uncommented, Option.ite_none_right_eq_some, Option.some_inj] at h
  rw [← h.2] at hc
  have hmem := mem_withoutComments hc
  rwa [bytes_lex] at hmem

lemma mem_splitAt {target : UInt8} {before after : List UInt8} (h : l.splitAt target = some (before, after)) {c : UInt8}
    (hc : c ∈ before ∨ c ∈ after) : c ∈ l.bytes := by
  by_cases hmem : .plain target ∈ l.items
  · obtain ⟨front, back, hitems, hfront⟩ := List.eq_append_cons_of_mem hmem
    rw [splitAt_append hitems hfront, Option.some_inj, Prod.mk.injEq] at h
    rw [Lexical.bytes_eq, hitems, List.flatMap_append, List.flatMap_cons]
    rw [← h.1, ← h.2, List.mem_append] at hc
    simp only [List.mem_append]
    tauto
  · rw [splitAt_of_notMem hmem] at h
    cases h

lemma mem_bracketed {text address : List UInt8} (h : bracketed glib text = some address) {c : UInt8} (hc : c ∈ address) :
    c ∈ text := by
  unfold bracketed at h
  split at h
  · rw [Option.some_inj] at h
    exact h ▸ hc
  · rename_i name rest hopen
    split at h
    · cases h
    · rename_i address' trailing hclose
      rw [Option.ite_none_right_eq_some, Option.some_inj] at h
      have hrest := mem_splitAt hclose (.inl (h.2 ▸ hc))
      rw [bytes_lex] at hrest
      have htext := mem_splitAt hopen (.inr hrest)
      rwa [bytes_lex] at htext

lemma mem_strip {text : List UInt8} {c : UInt8} (h : c ∈ strip text) : c ∈ text :=
  (List.dropWhile_sublist _).mem ((List.rdropWhile_prefix _ _).sublist.mem h)

/-- The address of a member, as a text without brackets and comments. -/
lemma memberAddress_eq_some {member address : List UInt8} (h : memberAddress glib member = some address) :
    ∃ text, normalizeAddress glib text = some address ∧ ∀ c ∈ text, c ∈ member ∨ c = 32 := by
  simp only [memberAddress, plainAddress, Option.bind_eq_some_iff] at h
  obtain ⟨output, houtput, inner, hinner, text, htext, haddress⟩ := h
  refine ⟨text, haddress, fun c hc => ?_⟩
  rcases mem_uncommented htext hc with hc | hc
  · rcases mem_uncommented houtput (mem_bracketed hinner hc) with hc | hc
    · exact .inl (mem_strip hc)
    · exact .inr hc
  · exact .inr hc

/-- A member of a text without NUL has an address without. -/
lemma no_nul_memberAddress (hlower : LowersText glib) {member address : List UInt8} (hmember : 0 ∉ member)
    (h : memberAddress glib member = some address) : 0 ∉ address := by
  obtain ⟨text, hnormal, htext⟩ := memberAddress_eq_some h
  obtain ⟨localPart, rest, -, -, hstrip, haddress, -, hutf8, -⟩ := normalizeAddress_eq_some hnormal
  have hzero : (0 : UInt8) ∉ localPart ++ 64 :: rest := by
    intro hin
    rw [← hstrip] at hin
    rcases htext 0 (mem_strip hin) with hin | hin
    · exact hmember hin
    · exact absurd hin (by decide)
  rw [haddress]
  rw [List.mem_append, List.mem_cons, not_or, not_or] at hzero ⊢
  exact ⟨hzero.1, hzero.2.1, no_nul_lowered (hlower rest hutf8) hzero.2.2⟩

end

end Wyrebox.AddressList
