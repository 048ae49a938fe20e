import Wyrebox.AddressFacts
import Wyrebox.CatalogSchema

set_option autoImplicit false

/-!
# The sender's domain in facts and in the catalog

A fact takes the domain of the first valid address of From. The materializer and the migration take what
follows the last `@`. The two meet where that `@` is the address's own.
-/
namespace Wyrebox.SenderDomain
open AddressSyntax AddressList AddressGrammar AddressFacts EncodedWords
open HeaderDecoding (plainText)
open JournalRecord (ascii)
open Schema (extractSenderDomain afterLast)

/-! ## Text without comments -/

/-- A text, and the same with a blank in the place of some of its comments. -/
inductive Blanked : List UInt8 → List UInt8 → Prop
  | nil : Blanked [] []
  | byte {c text blanked} : Blanked text blanked → Blanked (c :: text) (c :: blanked)
  | comment {inner text blanked} : Blanked text blanked → Blanked (40 :: (inner ++ text)) (32 :: blanked)

theorem Blanked.refl (text : List UInt8) : Blanked text text := by
  induction text with
  | nil => exact .nil
  | cons c text ih => exact .byte ih

theorem Blanked.append {text blanked text' blanked' : List UInt8} (h : Blanked text blanked) (h' : Blanked text' blanked') :
    Blanked (text ++ text') (blanked ++ blanked') := by
  induction h with
  | nil => exact h'
  | byte _ ih => exact .byte ih
  | comment _ ih =>
    rw [List.cons_append, List.append_assoc]
    exact .comment ih

/-- What stands for the first part, and what stands for the second. -/
theorem Blanked.parts {text front back : List UInt8} (h : Blanked text (front ++ back)) :
    ∃ before after, text = before ++ after ∧ Blanked before front ∧ Blanked after back := by
  induction front generalizing text with
  | nil => exact ⟨[], text, rfl, .nil, h⟩
  | cons c front ih =>
    cases h with
    | byte h =>
      obtain ⟨before, after, rfl, hbefore, hafter⟩ := ih h
      exact ⟨c :: before, after, rfl, .byte hbefore, hafter⟩
    | @comment inner _ _ h =>
      obtain ⟨before, after, rfl, hbefore, hafter⟩ := ih h
      exact ⟨40 :: (inner ++ before), after, by simp, .comment hbefore, hafter⟩

/-- Bytes other than blanks are in the text itself. -/
theorem Blanked.eq_of_no_blank {text blanked : List UInt8} (h : Blanked text blanked) (hblank : 32 ∉ blanked) :
    text = blanked := by
  induction h with
  | nil => rfl
  | byte _ ih => rw [ih fun hin => hblank (List.mem_cons_of_mem _ hin)]
  | comment _ _ => exact absurd List.mem_cons_self hblank

theorem Blanked.trans {text middle blanked : List UInt8} (h : Blanked text middle) (h' : Blanked middle blanked) :
    Blanked text blanked := by
  induction h' generalizing text with
  | nil => exact h
  | byte _ ih =>
    cases h with
    | byte h => exact .byte (ih h)
    | comment h => exact .comment (ih h)
  | @comment inner rest blanked _ ih =>
    obtain ⟨before, after, rfl, hbefore, hafter⟩ := @Blanked.parts _ (40 :: inner) _ h
    cases hbefore with
    | @byte _ outer _ _ => exact .comment (ih hafter)

theorem Blanked.split {text front back : List UInt8} {c : UInt8} (h : Blanked text (front ++ c :: back)) (hc : c ≠ 32) :
    ∃ before after, text = before ++ c :: after ∧ Blanked before front ∧ Blanked after back := by
  obtain ⟨before, rest, rfl, hbefore, hrest⟩ := h.parts
  cases hrest with
  | byte hafter => exact ⟨before, _, rfl, hbefore, hafter⟩
  | comment _ => exact absurd rfl hc

theorem blanked_withoutComments {l : Lexical} (h : l.pending.Settled) : Blanked l.bytes l.withoutComments := by
  rw [Lexical.bytes_eq, Lexical.withoutComments]
  refine Blanked.append ?_ ?_
  · induction l.items with
    | nil => exact .nil
    | cons item items ih =>
      rw [List.flatMap_cons, List.flatMap_cons]
      refine Blanked.append ?_ ih
      cases item with
      | comment text =>
        rw [Item.bytes_comment]
        simpa using @Blanked.comment (bytesOf text ++ [41]) [] [] .nil
      | plain c => exact .refl _
      | word text => exact .refl _
      | quoted text => exact .refl _
  · generalize l.pending = pending at h ⊢
    cases pending with
    | closed => exact .refl _
    | quote text escaped => exact .refl _
    | comment text depth escaped => exact h.elim

theorem blanked_uncommented {text output : List UInt8} (h : uncommented text = some output) : Blanked text output := by
  simp only [uncommented, Option.ite_none_right_eq_some, Option.some_inj] at h
  obtain ⟨hsettled, rfl⟩ := h
  have hblanked := blanked_withoutComments hsettled
  rwa [bytes_lex] at hblanked

/-! ## Where an address stands -/

theorem splitAt_bytes {l : Lexical} {target : UInt8} {before after : List UInt8}
    (h : l.splitAt target = some (before, after)) : l.bytes = before ++ target :: after := by
  by_cases hmem : .plain target ∈ l.items
  · obtain ⟨front, back, hitems, hfront⟩ := List.eq_append_cons_of_mem hmem
    rw [splitAt_append hitems hfront, Option.some_inj, Prod.mk.injEq] at h
    rw [Lexical.bytes_eq, hitems, ← h.1, ← h.2]
    simp
  · rw [splitAt_of_notMem hmem] at h
    cases h

/-- The text of an address, and what stands around it: nothing, or a bracket before and after. -/
theorem bracketed_parts {glib : GLib} {text address : List UInt8} (h : bracketed glib text = some address) :
    ∃ before after, text = before ++ address ++ after ∧ (after = [] ∨ after.head? = some 62) := by
  unfold bracketed at h
  split at h
  · rw [Option.some_inj] at h
    exact ⟨[], [], by simp [h], .inl rfl⟩
  · rename_i name rest hopen
    split at h
    · cases h
    · rename_i address' trailing hclose
      rw [Option.ite_none_right_eq_some, Option.some_inj] at h
      have htext := splitAt_bytes hopen
      have hrest := splitAt_bytes hclose
      rw [bytes_lex] at htext hrest
      refine ⟨name ++ [60], 62 :: trailing, ?_, .inr rfl⟩
      rw [htext, hrest, h.2]
      simp

theorem strip_parts (text : List UInt8) : ∃ before after, text = before ++ strip text ++ after ∧
    ∀ c ∈ after, isSpace c = true := by
  refine ⟨text.takeWhile isSpace, (text.dropWhile isSpace).rtakeWhile isSpace, ?_, fun c hc => ?_⟩
  · rw [strip, List.append_assoc, List.rdropWhile_append_rtakeWhile, List.takeWhile_append_dropWhile]
  · exact List.mem_rtakeWhile_imp hc

theorem members_parts {l m : Lexical} (hm : m ∈ members l) : ∃ before after, l.bytes = before ++ m.bytes ++ after ∧
    (after = [] ∨ after.head? = some 44 ∨ after.head? = some 59) := by
  rw [members, List.mem_append, List.mem_singleton, List.mem_map] at hm
  rcases hm with ⟨items, hitems, rfl⟩ | rfl
  · obtain ⟨front, c, back, hparts, hc⟩ := Split.separator_items l.items items hitems
    refine ⟨front.flatMap Item.bytes, c :: (back.flatMap Item.bytes ++ bytesOf l.pending.pieces), ?_, .inr ?_⟩
    · rw [Lexical.bytes_eq, Lexical.bytes_eq, hparts]
      simp
    · rcases hc with rfl | rfl
      · exact .inl rfl
      · exact .inr rfl
  · obtain ⟨front, hparts⟩ := (Split.part_items l.items).2
    have hbytes := congrArg (fun items : List Item => items.flatMap Item.bytes ++ bytesOf l.pending.pieces) hparts
    refine ⟨front.flatMap Item.bytes, [], ?_, .inl rfl⟩
    rw [Lexical.bytes_eq, Lexical.bytes_eq, ← hbytes]
    simp

/-- What can follow an address: white space, a comment, a bracket, or the next member. -/
def IsEnd (c : UInt8) : Prop := isSpace c = true ∨ c = 40 ∨ c = 62 ∨ c = 44 ∨ c = 59

def Ended (text : List UInt8) : Prop := ∀ c ∈ text.head?, IsEnd c

theorem Ended.append {text more : List UInt8} (h : Ended text) (h' : Ended more) : Ended (text ++ more) := by
  cases text with
  | nil => exact h'
  | cons c text => exact h

theorem ended_blanked {text blanked : List UInt8} (h : Blanked text blanked) (hended : Ended blanked) : Ended text := by
  cases h with
  | nil => exact hended
  | byte _ => exact hended
  | comment _ =>
    intro c hc
    obtain rfl : 40 = c := by simpa using hc
    exact .inr (.inl rfl)

theorem ended_spaces {text : List UInt8} (h : ∀ c ∈ text, isSpace c = true) : Ended text :=
  fun c hc => .inl (h c (List.mem_of_mem_head? hc))

/-- `@` stands between the two parts of the member. Comments apart, the local part of the address ends the part before,
    and the text of its domain begins the part after. -/
def MemberSeparator (glib : GLib) (member address before after : List UInt8) : Prop :=
  member = before ++ 64 :: after ∧ ∃ front localPart domain tail, Blanked before (front ++ localPart) ∧
    after = domain ++ tail ∧ glib.validate domain = true ∧ Address glib address localPart (glib.strdown domain) ∧
    Ended tail

theorem mem_lowered {text low : List UInt8} (h : Lowered text low) {c : UInt8} (hc : c ∈ text) (hascii : c < 0x80) :
    Eml.toLower c ∈ low := by
  induction h with
  | nil => cases hc
  | @ascii d text low _ _ ih =>
    rcases List.mem_cons.mp hc with rfl | hc
    · exact List.mem_cons_self
    · exact List.mem_cons_of_mem _ (ih hc)
  | @other character lowCharacter text low _ _ hhigh _ _ ih =>
    rcases List.mem_append.mp hc with hc | hc
    · exact absurd hascii (UInt8.not_lt.mpr (hhigh c hc))
    · exact List.mem_append_right _ (ih hc)

theorem domain_no_blank {domain : List UInt8} (h : Domain domain) : 32 ∉ domain := by
  intro hblank
  rcases h with ⟨labels, -, hlabels, rfl⟩ | ⟨inner, -, rfl, hinner⟩
  · rcases mem_intercalate hblank with h | ⟨label, hlabel, hblank⟩
    · exact absurd h (by decide)
    · exact absurd ((hlabels label hlabel).2.1 32 hblank) (by decide)
  · simp only [List.mem_cons, List.mem_append, List.not_mem_nil, or_false] at hblank
    rcases hblank with h | h | h
    · exact absurd h (by decide)
    · exact absurd (hinner 32 h).1 (by decide)
    · exact absurd h (by decide)

theorem memberSeparator_of {glib : GLib} (hlower : LowersText glib) {member address : List UInt8}
    (h : memberAddress glib member = some address) : ∃ before after, MemberSeparator glib member address before after := by
  simp only [memberAddress, plainAddress, Option.bind_eq_some_iff] at h
  obtain ⟨output, houtput, inner, hinner, text, htext, hnormal⟩ := h
  obtain ⟨localPart, rest, hstrip, hutf8, haddress, -⟩ := address_of_normalize hlower hnormal
  have hrest : 32 ∉ rest := fun hin =>
    domain_no_blank haddress.validDomain (mem_lowered (hlower rest hutf8) hin (by decide))
  obtain ⟨space, space', hspace, hspaces⟩ := strip_parts text
  obtain ⟨name, close, hname, hclose⟩ := bracketed_parts hinner
  obtain ⟨margin, margin', hmargin, hmargins⟩ := strip_parts member
  -- the comment-free text of the address, that of the member, and the member itself
  rw [hstrip] at hspace
  have hblanked : Blanked inner ((space ++ localPart) ++ 64 :: (rest ++ space')) := by
    have hwhole := blanked_uncommented htext
    rw [hspace] at hwhole
    simpa using hwhole
  obtain ⟨front, back, rfl, hfront, hback⟩ := hblanked.split (by decide)
  obtain ⟨domain, tail, rfl, hsame, htail⟩ := hback.parts
  obtain rfl := hsame.eq_of_no_blank hrest
  have hmember : Blanked (strip member) ((name ++ front) ++ 64 :: (domain ++ (tail ++ close))) := by
    have hwhole := blanked_uncommented houtput
    rw [hname] at hwhole
    simpa using hwhole
  obtain ⟨before, after, hparts, hbefore, hafter⟩ := hmember.split (by decide)
  obtain ⟨domain', tail', rfl, hsame', htail'⟩ := hafter.parts
  obtain rfl := hsame'.eq_of_no_blank hrest
  refine ⟨margin ++ before, domain' ++ (tail' ++ margin'), ?_, (margin ++ (name ++ space)), localPart, domain',
    tail' ++ margin', ?_, rfl, hutf8, haddress, ?_⟩
  · rw [hmargin, hparts]
    simp
  · have hlocal := hbefore.trans ((Blanked.refl name).append hfront)
    have hall := (Blanked.refl margin).append hlocal
    simpa using hall
  · have hclosed : Ended close := by
      rcases hclose with rfl | hhead
      · exact fun c hc => by cases hc
      · intro c hc
        rw [hhead] at hc
        obtain rfl : 62 = c := by simpa using hc
        exact .inr (.inr (.inl rfl))
    have hended := (ended_blanked htail (ended_spaces hspaces)).append hclosed
    exact (ended_blanked htail' hended).append (ended_spaces hmargins)

/-- `@` stands between the two parts of the value, in the first member that has an address. -/
def OwnSeparator (glib : GLib) (value : CString) (before after : List UInt8) : Prop :=
  ∃ m ∈ headerMembers (some value), ∃ address, memberAddress glib m.bytes = some address ∧
    (headerAddresses glib (some value)).head? = some address ∧
    ∃ front front' back' back, value.bytes = front ++ m.bytes ++ back ∧ MemberSeparator glib m.bytes address front' back' ∧
      before = front ++ front' ∧ after = back' ++ back ∧ Ended back

theorem ownSeparator_of {glib : GLib} (hlower : LowersText glib) {value : CString} {address : List UInt8}
    (h : (headerAddresses glib (some value)).head? = some address) :
    ∃ before after, OwnSeparator glib value before after := by
  obtain ⟨m, hm, hmember⟩ := List.mem_filterMap.mp (List.mem_of_head? h)
  obtain ⟨front', back', hseparator⟩ := memberSeparator_of hlower hmember
  obtain ⟨front, back, hvalue, hback⟩ := members_parts hm
  rw [bytes_lex] at hvalue
  have hended : Ended back := by
    intro c hc
    rcases hback with rfl | hhead | hhead
    · cases hc
    · obtain rfl : 44 = c := by simpa [hhead] using hc
      exact .inr (.inr (.inr (.inl rfl)))
    · obtain rfl : 59 = c := by simpa [hhead] using hc
      exact .inr (.inr (.inr (.inr rfl)))
  exact ⟨_, _, m, hm, address, hmember, h, front, front', back', back, hvalue, hseparator, rfl, rfl, hended⟩

/-! ## What follows the last `@` -/

def isStop (c : UInt8) : Bool := c = 62 ∨ c = 44 ∨ isSpace c

/-- The text that the materializer takes for the domain. -/
def lastRun (value : List UInt8) : List UInt8 := ((afterLast 64 value).getD []).takeWhile fun c => !isStop c

theorem not_isStop (c : UInt8) : (c ≠ 62 && c ≠ 44 && !Schema.isSpace c) = !isStop c := by
  simp [isStop, isSpace, Schema.isSpace, beq_eq_decide, Bool.and_assoc]

theorem extractSenderDomain_eq (value : CString) : (extractSenderDomain value).map CString.bytes =
    if lastRun value.bytes = [] then none else some ((lastRun value.bytes).map Eml.toLower) := by
  rw [extractSenderDomain]
  split
  · rename_i hnone
    simp [lastRun, hnone]
  · rename_i rest hrest
    have hrun : lastRun value.bytes = rest.takeWhile fun c => c ≠ 62 && c ≠ 44 && !Schema.isSpace c := by
      rw [lastRun, hrest, Option.getD_some, funext not_isStop]
    rw [hrun]
    dsimp only
    split
    · rfl
    · rfl

theorem afterLast_eq {before after : List UInt8} (h : 64 ∉ after) : afterLast 64 (before ++ 64 :: after) = some after := by
  have hmem : (64 : UInt8) ∈ before ++ 64 :: after := List.mem_append_right _ List.mem_cons_self
  have hne : ∀ c ∈ after.reverse, decide (c ≠ 64) = true := by
    intro c hc
    simpa using ne_of_mem_of_not_mem (List.mem_reverse.mp hc) h
  rw [afterLast, if_pos hmem, List.reverse_append, List.reverse_cons, List.append_assoc, List.takeWhile_append_of_pos hne]
  simp

theorem isEnd_ne {c : UInt8} (h : IsEnd c) : ¬(0x80 ≤ c ∨ isAlnum c = true ∨ c = 45) ∧ c ≠ 46 ∧ c ≠ 91 ∧ c ≠ 93 := by
  simp only [IsEnd, isSpace, decide_eq_true_eq] at h
  rcases h with (rfl | rfl | rfl | rfl | rfl) | rfl | rfl | rfl | rfl <;> decide

theorem hostName_chars {domain : List UInt8} (h : HostName domain) {c : UInt8} (hc : c ∈ domain) :
    c = 46 ∨ 0x80 ≤ c ∨ isAlnum c = true ∨ c = 45 := by
  obtain ⟨labels, -, hlabels, rfl⟩ := h
  rcases mem_intercalate hc with hdot | ⟨label, hlabel, hc⟩
  · exact .inl hdot
  · exact .inr ((hlabels label hlabel).2.1 c hc)

theorem hostName_ne_nil {domain : List UInt8} (h : HostName domain) : domain ≠ [] := by
  obtain ⟨labels, hlabels, hvalid, rfl⟩ := h
  cases labels with
  | nil => exact absurd rfl hlabels
  | cons first labels =>
    have hfirst := (hvalid first List.mem_cons_self).1
    by_cases hrest : labels = []
    · rwa [hrest, List.intercalate_singleton]
    · rw [intercalate_cons hrest]
      exact List.append_ne_nil_of_left_ne_nil hfirst _

/-- A domain does not go on with a byte that can follow it. -/
theorem domain_not_extended {domain rest : List UInt8} {c : UInt8} (h : Domain domain) (hc : IsEnd c) :
    ¬Domain (domain ++ c :: rest) := by
  obtain ⟨hchar, hdot, -⟩ := isEnd_ne hc
  rintro (hhost | ⟨inner, -, hliteral, hinner⟩)
  · rcases hostName_chars hhost (List.mem_append_right _ List.mem_cons_self) with h | h
    · exact hdot h
    · exact hchar h
  · rcases h with hhost | ⟨inner', -, rfl, -⟩
    · cases domain with
      | nil => exact hostName_ne_nil hhost rfl
      | cons d domain =>
        rw [List.cons_append, List.cons.injEq] at hliteral
        have hhead := hostName_chars hhost List.mem_cons_self
        rw [hliteral.1] at hhead
        exact absurd hhead (by decide)
    · rw [List.cons_append, List.cons.injEq, List.append_assoc] at hliteral
      obtain ⟨front, last, hlast⟩ := (List.eq_nil_or_concat' (c :: rest)).resolve_left (List.cons_ne_nil _ _)
      have hinside : inner' ++ 93 :: front ++ [last] = inner ++ [93] := by
        rw [← hliteral.2, hlast]
        simp
      obtain ⟨rfl, -⟩ := List.append_inj' hinside rfl
      exact (hinner 93 (List.mem_append_right _ List.mem_cons_self)).2.2.2 rfl

theorem lowered_ascii {front back low : List UInt8} (h : Lowered (front ++ back) low) (hascii : ∀ c ∈ front, c < 0x80) :
    ∃ rest, low = front.map Eml.toLower ++ rest ∧ Lowered back rest := by
  induction front generalizing low with
  | nil => exact ⟨low, rfl, h⟩
  | cons c front ih =>
    obtain ⟨hc, hfront⟩ := List.forall_mem_cons.mp hascii
    rw [List.cons_append] at h
    generalize htext : c :: (front ++ back) = text at h
    cases h with
    | nil => cases htext
    | ascii _ h =>
      cases htext
      obtain ⟨rest, rfl, hrest⟩ := ih h hfront
      exact ⟨rest, rfl, hrest⟩
    | @other character lowCharacter _ _ hne _ hhigh _ h =>
      cases character with
      | nil => exact absurd rfl hne
      | cons d character =>
        rw [List.cons_append, List.cons.injEq] at htext
        exact absurd hc (UInt8.not_lt.mpr (htext.1 ▸ hhigh d List.mem_cons_self))

/-! ## Agreement -/

theorem isEnd_ascii {c : UInt8} (h : IsEnd c) : c < 0x80 ∧ Eml.toLower c = c := by
  simp only [IsEnd, isSpace, decide_eq_true_eq] at h
  rcases h with (rfl | rfl | rfl | rfl | rfl) | rfl | rfl | rfl | rfl <;> decide

theorem isEnd_of_isStop {c : UInt8} (h : isStop c = true) : IsEnd c := by
  simp only [isStop, decide_eq_true_eq] at h
  rcases h with h | h | h
  · exact .inr (.inr (.inl h))
  · exact .inr (.inr (.inr (.inl h)))
  · exact .inl h

theorem lowered_nil {low : List UInt8} (h : Lowered [] low) : low = [] := by
  generalize htext : [] = text at h
  cases h with
  | nil => rfl
  | ascii _ _ => cases htext
  | other hne _ _ _ _ => exact absurd (List.append_eq_nil_iff.mp htext.symm).1 hne

theorem lowered_eq_map {text low : List UInt8} (h : Lowered text low) (hascii : ∀ c ∈ text, c < 0x80) :
    low = text.map Eml.toLower := by
  rw [← List.append_nil text] at h
  obtain ⟨rest, rfl, hrest⟩ := lowered_ascii h hascii
  rw [lowered_nil hrest, List.append_nil]

/-- Up to the first stop, the text after an address's own `@` is its domain or no domain. -/
theorem run_eq_domain {text low tail : List UInt8} (hlowered : Lowered text low) (hdomain : Domain low) (htail : Ended tail)
    (hascii : ∀ c ∈ (text ++ tail).takeWhile fun c => !isStop c, c < 0x80)
    (hrun : Domain (((text ++ tail).takeWhile fun c => !isStop c).map Eml.toLower)) :
    (text ++ tail).takeWhile (fun c => !isStop c) = text := by
  by_cases hall : ∀ c ∈ text, (!isStop c) = true
  · -- what follows the domain would belong to the run
    rw [List.takeWhile_append_of_pos hall] at hascii hrun ⊢
    have hlow := lowered_eq_map hlowered fun c hc => hascii c (List.mem_append_left _ hc)
    cases tail with
    | nil => exact List.append_nil text
    | cons c rest =>
      cases hstop : isStop c with
      | true => simp [hstop]
      | false =>
        have hc := htail c rfl
        rw [List.takeWhile_cons_of_pos (by simp [hstop]), List.map_append, List.map_cons, (isEnd_ascii hc).2, ← hlow] at hrun
        exact absurd hrun (domain_not_extended hdomain hc)
  · -- the run would end inside the domain
    have hrest : text.dropWhile (fun c => !isStop c) ≠ [] := by
      rw [Ne, List.dropWhile_eq_nil_iff]
      exact hall
    obtain ⟨c, back, hback⟩ := List.exists_cons_of_ne_nil hrest
    have hstop : isStop c = true := by
      have hhead := List.head_dropWhile_not (fun c => !isStop c) hrest
      simpa [hback] using hhead
    have htext : text = text.takeWhile (fun c => !isStop c) ++ c :: back := by
      rw [← hback, List.takeWhile_append_dropWhile]
    have hfront : (text ++ tail).takeWhile (fun c => !isStop c) = text.takeWhile fun c => !isStop c := by
      have hpass : ∀ c ∈ text.takeWhile fun c => !isStop c, (!isStop c) = true := by
        intro c hc
        have hpassed := List.mem_takeWhile_imp hc
        exact hpassed
      nth_rewrite 1 [htext]
      rw [List.append_assoc, List.takeWhile_append_of_pos hpass]
      simp [hstop]
    rw [hfront] at hascii hrun
    rw [htext] at hlowered
    obtain ⟨rest, rfl, hlast⟩ := lowered_ascii hlowered hascii
    have hc := isEnd_of_isStop hstop
    obtain ⟨rest', rfl, -⟩ := @lowered_ascii [c] back _ hlast (by simpa using (isEnd_ascii hc).1)
    rw [List.map_cons, (isEnd_ascii hc).2] at hdomain
    exact absurd hdomain (domain_not_extended hrun hc)

section
variable {glib : GLib} {value : CString} {domain : List UInt8}

/-- The domain of the fact is that of the first address. -/
theorem first_address (hlower : LowersText glib) (h : senderDomain (parseAddressList glib (some value)) = some domain) :
    ∃ address localPart, (headerAddresses glib (some value)).head? = some address ∧ Address glib address localPart domain ∧
      domainIsValid glib domain = true := by
  rw [senderDomain_eq] at h
  obtain ⟨address, hhead, hextract⟩ := Option.bind_eq_some_iff.mp h
  obtain ⟨localPart, domain', haddress, hvalid, hextract', -⟩ := address_of_header hlower (List.mem_of_head? hhead)
  obtain rfl : domain = domain' := Option.some.inj (hextract.symm.trans hextract')
  exact ⟨address, localPart, hhead, haddress, hvalid⟩

theorem ascii_of_toLower {c : UInt8} (h : Eml.toLower c < 0x80) : c < 0x80 := by
  rcases UInt8.lt_or_le c 0x80 with hlow | hhigh
  · exact hlow
  · rwa [toLower_high (.inl hhigh)] at h

/-- The run after the first address's own `@`, where no other follows. -/
theorem lastRun_own (hlower : LowersText glib) {localPart address before after : List UInt8}
    (hhead : (headerAddresses glib (some value)).head? = some address) (haddress : Address glib address localPart domain)
    (hown : OwnSeparator glib value before after) (hlast : 64 ∉ after) :
    ∃ text tail, Lowered text domain ∧ Ended tail ∧ lastRun value.bytes = (text ++ tail).takeWhile fun c => !isStop c := by
  obtain ⟨m, -, address', -, hhead', front, front', back', back, hvalue, hseparator, rfl, rfl, hback⟩ := hown
  obtain rfl : address' = address := Option.some.inj (hhead'.symm.trans hhead)
  obtain ⟨hmember, -, localPart', text, tail, -, rfl, hutf8, haddress', htail⟩ := hseparator
  have hdomain := address_unique haddress' haddress
  refine ⟨text, tail ++ back, hdomain ▸ hlower text hutf8, htail.append hback, ?_⟩
  have hparts : value.bytes = (front ++ front') ++ 64 :: (text ++ tail ++ back) := by
    rw [hvalue, hmember]
    simp
  rw [lastRun, hparts, afterLast_eq hlast, Option.getD_some, List.append_assoc]

/-- Where the last `@` is that of the first valid address, the catalog has the domain of the fact if and only if
    the text up to the next stop is a domain. Where another `@` follows, it has that domain only if the same text
    stands there. -/
theorem sender_domains_agree_iff (hlower : LowersText glib)
    (hdomain : senderDomain (parseAddressList glib (some value)) = some domain) (hascii : ∀ c ∈ domain, c < 0x80) :
    (∃ before after, OwnSeparator glib value before after) ∧
    ((∃ before after, OwnSeparator glib value before after ∧ 64 ∉ after) →
      ((extractSenderDomain value).map CString.bytes = some domain ↔
        domainIsValid glib ((lastRun value.bytes).map Eml.toLower) = true ∧ ∀ c ∈ lastRun value.bytes, c < 0x80)) ∧
    ((∀ before after, OwnSeparator glib value before after → 64 ∈ after) →
      ((extractSenderDomain value).map CString.bytes = some domain ↔
        (lastRun value.bytes).map Eml.toLower = domain)) := by
  obtain ⟨address, localPart, hhead, haddress, hvalid⟩ := first_address hlower hdomain
  refine ⟨ownSeparator_of hlower hhead, fun ⟨before, after, hown, hlast⟩ => ?_, fun _ => ?_⟩
  swap
  · have hne : (lastRun value.bytes).map Eml.toLower = domain → lastRun value.bytes ≠ [] := by
      intro hsame hnil
      simp [← hsame, hnil, domainIsValid] at hvalid
    rw [extractSenderDomain_eq, Option.ite_none_left_eq_some, Option.some_inj]
    exact ⟨And.right, fun h => ⟨hne h, h⟩⟩
  obtain ⟨text, tail, hlowered, htail, hrun⟩ := lastRun_own hlower hhead haddress hown hlast
  rw [extractSenderDomain_eq]
  constructor
  · intro hagree
    rw [Option.ite_none_left_eq_some, Option.some_inj] at hagree
    rw [hagree.2]
    refine ⟨hvalid, fun c hc => ascii_of_toLower (hascii _ ?_)⟩
    rw [← hagree.2]
    exact List.mem_map_of_mem hc
  · rintro ⟨hrunValid, hrunAscii⟩
    rw [hrun] at hrunValid hrunAscii ⊢
    have hsame := run_eq_domain hlowered haddress.validDomain htail hrunAscii (domain_of_valid hrunValid)
    rw [hsame] at hrunAscii ⊢
    have hlow := lowered_eq_map hlowered hrunAscii
    have hne : text ≠ [] := fun hnil => by simp [hlow, hnil, domainIsValid] at hvalid
    rw [if_neg hne, hlow]

end

theorem sender_domains_agree_plain : (∃ before after, OwnSeparator plainText (.literal "Ann <a@B.test>") before after) ∧
    ((∃ before after, OwnSeparator plainText (.literal "Ann <a@B.test>") before after ∧ 64 ∉ after) →
      ((extractSenderDomain (.literal "Ann <a@B.test>")).map CString.bytes = some (ascii "b.test") ↔
        domainIsValid plainText ((lastRun (ascii "Ann <a@B.test>")).map Eml.toLower) = true ∧
          ∀ c ∈ lastRun (ascii "Ann <a@B.test>"), c < 0x80)) ∧
    ((∀ before after, OwnSeparator plainText (.literal "Ann <a@B.test>") before after → 64 ∈ after) →
      ((extractSenderDomain (.literal "Ann <a@B.test>")).map CString.bytes = some (ascii "b.test") ↔
        (lastRun (ascii "Ann <a@B.test>")).map Eml.toLower = ascii "b.test")) :=
  sender_domains_agree_iff plainText_lowers (by decide +kernel) (by decide +kernel)

/-- The last `@` can be that of another address, and what follows the first address's own can go on with a comment. -/
theorem sender_domains_differ :
    senderDomain (parseAddressList plainText (some (.literal "a@b.test, c@d.test"))) = some (ascii "b.test") ∧
      (extractSenderDomain (.literal "a@b.test, c@d.test")).map CString.bytes = some (ascii "d.test") ∧
      senderDomain (parseAddressList plainText (some (.literal "a@b.test(home)"))) = some (ascii "b.test") ∧
      (extractSenderDomain (.literal "a@b.test(home)")).map CString.bytes = some (ascii "b.test(home)") := by
  decide +kernel

end Wyrebox.SenderDomain
