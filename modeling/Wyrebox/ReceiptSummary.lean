import Wyrebox.Event
import Wyrebox.NumberText

set_option autoImplicit false

/-!
# The summary of a receipt

COPY, MOVE and APPEND answer with a line of text that names the new UIDs. The plugin reads it again, for
the mailbox, the UIDVALIDITY and the source UIDs that it asked for.
-/
namespace Wyrebox.ReceiptSummary
open CString Event

/-! ## Writing -/

/-- `WyreboxDaemonMembershipsCopyMoveRequest`. -/
structure CopyMoveRequest where
  accountIdentity : CString
  sourceMailboxId : CString
  destMailboxId : CString
  sourceUidValidity : ℕ
  destUidValidity : ℕ
  sourceUids : List ℕ

/-- `CopyMoveResolvedSource`. -/
structure ResolvedSource where
  messageId : CString
  systemFlags : List CString
  userKeywords : List CString
  internalDateUnixUs : ℕ

def buildItems (resolve : ℕ → ResolvedSource) : ℕ → List ℕ → List MembershipsCopiedItem
  | _, [] => []
  | dstUid, srcUid :: sourceUids =>
    ⟨srcUid, dstUid, (resolve srcUid).internalDateUnixUs, (resolve srcUid).messageId, (resolve srcUid).systemFlags,
      (resolve srcUid).userKeywords⟩ :: buildItems resolve (dstUid + 1) sourceUids

/-- `build_payload`, once the sources are resolved and the destination UIDs reserved. -/
def buildPayload (request : CopyMoveRequest) (resolve : ℕ → ResolvedSource) (firstDstUid : ℕ) : MembershipsCopied :=
  ⟨request.accountIdentity, request.sourceMailboxId, request.destMailboxId, request.sourceUidValidity,
    request.destUidValidity, buildItems resolve firstDstUid request.sourceUids⟩

def copyPrefix (isMove : Bool) (destMailboxId : CString) (destUidValidity : ℕ) : CString :=
  (if isMove then literal "memberships_moved" else literal "memberships_copied") ++ literal " dest_mailbox_id=" ++
    destMailboxId ++ literal " dest_uidvalidity=" ++ decimal destUidValidity ++ literal " pairs="

def formatPairs : List MembershipsCopiedItem → CString
  | [] => .empty
  | [item] => decimal item.srcUid ++ literal ":" ++ decimal item.dstUid
  | item :: items => decimal item.srcUid ++ literal ":" ++ decimal item.dstUid ++ literal "," ++ formatPairs items

/-- `format_summary` of COPY and MOVE. -/
def formatCopySummary (isMove : Bool) (request : CopyMoveRequest) (payload : MembershipsCopied) : CString :=
  copyPrefix isMove request.destMailboxId request.destUidValidity ++ formatPairs payload.items

/-- The mailbox of `WyreboxDaemonMessageAppendRequest`. -/
structure AppendRequest where
  mailboxId : CString
  uidValidity : ℕ

def appendPrefix (mailboxId : CString) (uidValidity : ℕ) : CString :=
  literal "message_appended dest_mailbox_id=" ++ mailboxId ++ literal " dest_uidvalidity=" ++ decimal uidValidity ++
    literal " pairs=" ++ decimal uidValidity ++ literal ":"

/-- `format_summary` of APPEND. -/
def formatAppendSummary (request : AppendRequest) (assignedUid : ℕ) : CString :=
  appendPrefix request.mailboxId request.uidValidity ++ decimal assignedUid

/-! ## Reading -/

def maxUint32 : ℕ := 2 ^ 32 - 1

/-- What follows a prefix. -/
def afterPrefix (summary start : CString) : Option (List UInt8) :=
  if start.bytes.isPrefixOf summary.bytes then some (summary.bytes.drop start.bytes.length) else none

/-- The loop of `wyrebox_dovecot_parse_copy_summary`. -/
def parsePairs : List ℕ → List UInt8 → Option (List ℕ)
  | [], _ => some []
  | sourceUid :: sourceUids, pairs =>
    match strtoull pairs with
    | some (srcUid, 58 :: pairs) =>
      if srcUid ≠ sourceUid then none
      else match strtoull pairs with
        | none => none
        | some (destUid, rest) =>
          if destUid = 0 ∨ maxUint32 < destUid then none
          else match sourceUids, rest with
            | [], [] => some [destUid]
            | _ :: _, 44 :: pairs => (parsePairs sourceUids pairs).map (destUid :: ·)
            | _, _ => none
    | _ => none

/-- `wyrebox_dovecot_parse_copy_summary`. -/
def parseCopySummary (summary : CString) (moving : Bool) (destMailboxId : CString) (destUidValidity : ℕ)
    (sourceUids : List ℕ) : Option (List ℕ) :=
  (afterPrefix summary (copyPrefix moving destMailboxId destUidValidity)).bind (parsePairs sourceUids)

/-- `wyrebox_dovecot_parse_append_summary`. -/
def parseAppendSummary (summary mailboxId : CString) (uidValidity : ℕ) : Option ℕ :=
  (afterPrefix summary (appendPrefix mailboxId uidValidity)).bind fun uidText =>
    match strtoull uidText with
    | some (uid, []) => if uid = 0 ∨ maxUint32 < uid then none else some uid
    | _ => none

/-! ## What is accepted -/

def DestUid (uid : ℕ) : Prop := 0 < uid ∧ uid ≤ maxUint32

/-- The text has a numeral for each source UID, and with it a numeral for a destination UID. -/
inductive Pairs : List ℕ → List ℕ → List UInt8 → Prop where
  | last {srcUid destUid : ℕ} {src dest : List UInt8} (hsrc : Numeral src srcUid) (hdest : Numeral dest destUid)
      (huid : DestUid destUid) : Pairs [srcUid] [destUid] (src ++ 58 :: dest)
  | cons {srcUid destUid : ℕ} {src dest text : List UInt8} {sourceUids destUids : List ℕ}
      (hsrc : Numeral src srcUid) (hdest : Numeral dest destUid) (huid : DestUid destUid)
      (hrest : Pairs sourceUids destUids text) :
      Pairs (srcUid :: sourceUids) (destUid :: destUids) (src ++ 58 :: (dest ++ 44 :: text))

lemma head_colon (rest : List UInt8) : ∀ b ∈ (58 :: rest : List UInt8).head?, isDigit b = false := by
  simp [isDigit]

lemma head_comma (rest : List UInt8) : ∀ b ∈ (44 :: rest : List UInt8).head?, isDigit b = false := by
  simp [isDigit]

lemma destUid_iff {uid : ℕ} : DestUid uid ↔ ¬(uid = 0 ∨ maxUint32 < uid) := by
  rw [DestUid]
  omega

lemma Pairs.sources_ne {sourceUids destUids : List ℕ} {text : List UInt8} (h : Pairs sourceUids destUids text) :
    sourceUids ≠ [] := by
  cases h <;> simp

theorem parsePairs_iff {sourceUids destUids : List ℕ} {text : List UInt8} (hne : sourceUids ≠ []) :
    parsePairs sourceUids text = some destUids ↔ Pairs sourceUids destUids text := by
  constructor
  · intro h
    induction sourceUids generalizing destUids text with
    | nil => exact absurd rfl hne
    | cons sourceUid sourceUids ih =>
      rw [parsePairs] at h
      split at h
      case h_2 => cases h
      case h_1 srcUid pairs hread =>
        split at h
        · cases h
        case isFalse hsame =>
          rw [ne_eq, Decidable.not_not] at hsame
          subst hsame
          obtain ⟨src, rfl, hsrc, -⟩ := strtoull_numeral.mp hread
          split at h
          · cases h
          case h_2 destUid rest hread' =>
            obtain ⟨dest, rfl, hdest, -⟩ := strtoull_numeral.mp hread'
            split at h
            · cases h
            case isFalse huid =>
              split at h
              · obtain rfl := Option.some.inj h
                rw [List.append_nil]
                exact .last hsrc hdest (destUid_iff.mpr huid)
              case h_2 next later pairs' =>
                obtain ⟨destUids', hrest, rfl⟩ := Option.map_eq_some_iff.mp h
                exact .cons hsrc hdest (destUid_iff.mpr huid) (ih (List.cons_ne_nil _ _) hrest)
              · cases h
  · intro h
    induction h with
    | @last srcUid destUid src dest hsrc hdest huid =>
      have hdest' := @strtoull_append _ [] _ hdest (by simp)
      rw [List.append_nil] at hdest'
      rw [parsePairs, strtoull_append hsrc (head_colon dest)]
      simp [hdest', destUid_iff.mp huid]
    | @cons srcUid destUid src dest text sourceUids destUids hsrc hdest huid hrest ih =>
      rw [parsePairs, strtoull_append hsrc (head_colon _)]
      cases sourceUids with
      | nil => exact absurd rfl hrest.sources_ne
      | cons next later => simp [strtoull_append hdest (head_comma text), destUid_iff.mp huid, ih (List.cons_ne_nil _ _)]

lemma afterPrefix_iff {summary start : CString} {text : List UInt8} :
    afterPrefix summary start = some text ↔ summary.bytes = start.bytes ++ text := by
  rw [afterPrefix]
  constructor
  · intro h
    split at h
    case isFalse => cases h
    case isTrue hprefix =>
      obtain ⟨text', htext⟩ := List.isPrefixOf_iff_prefix.mp hprefix
      rw [← Option.some.inj h, ← htext, List.drop_left]
  · intro h
    rw [if_pos (List.isPrefixOf_iff_prefix.mpr ⟨text, h.symm⟩), h, List.drop_left]

theorem parseCopySummary_iff {summary destMailboxId : CString} {moving : Bool} {destUidValidity : ℕ}
    {sourceUids destUids : List ℕ} (hne : sourceUids ≠ []) :
    parseCopySummary summary moving destMailboxId destUidValidity sourceUids = some destUids ↔
      ∃ text, summary.bytes = (copyPrefix moving destMailboxId destUidValidity).bytes ++ text ∧
        Pairs sourceUids destUids text := by
  rw [parseCopySummary, Option.bind_eq_some_iff]
  simp only [afterPrefix_iff, parsePairs_iff hne]

theorem parseAppendSummary_iff {summary mailboxId : CString} {uidValidity uid : ℕ} :
    parseAppendSummary summary mailboxId uidValidity = some uid ↔
      ∃ text, summary.bytes = (appendPrefix mailboxId uidValidity).bytes ++ text ∧ Numeral text uid ∧ DestUid uid := by
  rw [parseAppendSummary, Option.bind_eq_some_iff]
  simp only [afterPrefix_iff]
  refine exists_congr fun text => and_congr_right fun _ => ?_
  rw [Numeral, destUid_iff]
  constructor
  · intro h
    split at h
    case h_2 => cases h
    case h_1 uid' hread =>
      split at h
      · cases h
      case isFalse huid =>
        obtain rfl := Option.some.inj h
        exact ⟨hread, huid⟩
  · rintro ⟨hread, huid⟩
    simp only [hread, huid, if_false]

/-! ## Summaries that were cut -/

/-- The text without its last bytes. -/
def cut (s : CString) (count : ℕ) : CString where
  bytes := s.bytes.take (s.bytes.length - count)
  no_nul := fun h => s.no_nul (List.mem_of_mem_take h)

lemma mem_of_prefix_concat {x y : List UInt8} {b : UInt8} (h : x ++ [b] <+: y ++ [b]) (hlt : x.length < y.length) :
    b ∈ y := by
  have hprefix : x ++ [b] <+: y := List.prefix_of_prefix_length_le h (List.prefix_append y [b])
    (by rw [List.length_append]; exact hlt)
  exact hprefix.subset (by simp)

lemma not_mem_decimal {b : UInt8} (hb : isDigit b = false) (n : ℕ) : b ∉ (decimal n).bytes := by
  intro h
  rw [isDigit_decimal h] at hb
  cases hb

lemma numeral_ne_nil {text : List UInt8} {n : ℕ} (h : Numeral text n) : text ≠ [] := by
  rintro rfl
  cases h

lemma Pairs.text_ne {sourceUids destUids : List ℕ} {text : List UInt8} (h : Pairs sourceUids destUids text) :
    text ≠ [] := by
  cases h <;> simp

/-- Nothing is read where the colon is the last byte, or is missing. -/
lemma parsePairs_short {srcUid uid : ℕ} {text : List UInt8} (h : text <+: (decimal srcUid).bytes ++ [58]) :
    parsePairs [uid] text = none := by
  by_contra hsome
  obtain ⟨destUids, hparse⟩ := Option.ne_none_iff_exists'.mp hsome
  cases (parsePairs_iff (List.cons_ne_nil _ _)).mp hparse with
  | cons _ _ _ hrest => exact absurd rfl hrest.sources_ne
  | @last _ _ src dest hsrc hdest huid =>
    have hlength := h.length_le
    have hpos := List.length_pos_iff.mpr (numeral_ne_nil hdest)
    simp only [List.length_append, List.length_cons, List.length_nil] at hlength
    have hcolon : src ++ [58] <+: (decimal srcUid).bytes ++ [58] :=
      List.IsPrefix.trans ⟨dest, by simp⟩ h
    exact not_mem_decimal (by decide) _ (mem_of_prefix_concat hcolon (by omega))

/-- Nor where the comma before the next pair is the last byte, or is missing. -/
lemma parsePairs_one {srcUid dstUid uid : ℕ} {sourceUids : List ℕ} {text : List UInt8} (hne : sourceUids ≠ [])
    (h : text <+: (decimal srcUid ++ literal ":" ++ decimal dstUid).bytes ++ [44]) :
    parsePairs (uid :: sourceUids) text = none := by
  by_contra hsome
  obtain ⟨destUids, hparse⟩ := Option.ne_none_iff_exists'.mp hsome
  cases (parsePairs_iff (List.cons_ne_nil _ _)).mp hparse with
  | last => exact absurd rfl hne
  | @cons _ _ src dest text' _ _ hsrc hdest huid hrest =>
    have hlength := h.length_le
    have hpos := List.length_pos_iff.mpr hrest.text_ne
    simp only [List.length_append, List.length_cons, List.length_nil] at hlength
    have hcomma : (src ++ 58 :: dest) ++ [44] <+: (decimal srcUid ++ literal ":" ++ decimal dstUid).bytes ++ [44] :=
      List.IsPrefix.trans ⟨text', by simp⟩ h
    have hmem := mem_of_prefix_concat hcomma (by simp only [List.length_append, List.length_cons]; omega)
    simp only [bytes_append, List.mem_append] at hmem
    rcases hmem with (hmem | hmem) | hmem
    · exact not_mem_decimal (by decide) _ hmem
    · exact absurd hmem (by decide)
    · exact not_mem_decimal (by decide) _ hmem

/-- The UIDs of a payload are those that IMAP admits. -/
structure ItemsValid (items : List MembershipsCopiedItem) : Prop where
  nonempty : items ≠ []
  source : ∀ item ∈ items, item.srcUid ≤ maxUint32
  dest : ∀ item ∈ items, DestUid item.dstUid

lemma formatPairs_cons {item : MembershipsCopiedItem} {items : List MembershipsCopiedItem} (hne : items ≠ []) :
    (formatPairs (item :: items)).bytes =
      (decimal item.srcUid).bytes ++ 58 :: ((decimal item.dstUid).bytes ++ 44 :: (formatPairs items).bytes) := by
  cases items with
  | nil => exact absurd rfl hne
  | cons next items =>
    rw [formatPairs]
    · simp only [bytes_append, List.append_assoc]
      rfl
    · simp

lemma formatPairs_single (item : MembershipsCopiedItem) :
    (formatPairs [item]).bytes = (decimal item.srcUid).bytes ++ 58 :: (decimal item.dstUid).bytes := by
  rw [formatPairs, bytes_append, bytes_append, List.append_assoc]
  rfl

lemma formatPairs_suffix {items : List MembershipsCopiedItem} (hne : items ≠ []) :
    (decimal (items.getLast hne).dstUid).bytes <:+ (formatPairs items).bytes := by
  induction items with
  | nil => exact absurd rfl hne
  | cons item items ih =>
    by_cases hitems : items = []
    · subst hitems
      rw [formatPairs_single]
      exact ⟨(decimal item.srcUid).bytes ++ [58], by simp⟩
    · rw [formatPairs_cons hitems, List.getLast_cons hitems]
      refine (ih hitems).trans ⟨(decimal item.srcUid).bytes ++ 58 :: ((decimal item.dstUid).bytes ++ [44]), ?_⟩
      simp

lemma lt_two_pow {uid : ℕ} (h : uid ≤ maxUint32) : uid < 2 ^ 64 := by
  rw [maxUint32] at h
  omega

lemma take_sub_right (front : List UInt8) {back : List UInt8} {count : ℕ} (h : count ≤ back.length) :
    (front ++ back).take ((front ++ back).length - count) = front ++ back.take (back.length - count) := by
  rw [List.length_append, Nat.add_sub_assoc h, List.take_length_add_append]

lemma take_sub_left (front : List UInt8) {back : List UInt8} {count : ℕ} (h : back.length ≤ count) :
    (front ++ back).take ((front ++ back).length - count) <+: front := by
  rw [List.take_append_of_le_length (by rw [List.length_append]; omega)]
  exact List.take_prefix _ _

/-- The last number of a text that was cut is read as what is left of it. -/
lemma numeral_cut {uid count : ℕ} (huid : uid ≤ maxUint32) (hcount : count < (decimal uid).bytes.length) :
    Numeral ((decimal uid).bytes.take ((decimal uid).bytes.length - count)) (uid / 10 ^ count) := by
  rw [decimal_take hcount]
  exact numeral_decimal (lt_two_pow ((Nat.div_le_self _ _).trans huid))

/-- A pair with the comma after it is read, however the text goes on. -/
lemma parsePairs_front {srcUid dstUid : ℕ} {sourceUids : List ℕ} {text : List UInt8} (hne : sourceUids ≠ [])
    (hsrc : Numeral (decimal srcUid).bytes srcUid) (hdst : Numeral (decimal dstUid).bytes dstUid) (huid : DestUid dstUid) :
    parsePairs (srcUid :: sourceUids) ((decimal srcUid ++ literal ":" ++ decimal dstUid).bytes ++ [44] ++ text) =
      (parsePairs sourceUids text).map (dstUid :: ·) := by
  have hbytes : (decimal srcUid ++ literal ":" ++ decimal dstUid).bytes ++ [44] ++ text =
      (decimal srcUid).bytes ++ 58 :: ((decimal dstUid).bytes ++ 44 :: text) := by
    simp only [bytes_append, List.append_assoc]
    rfl
  rw [hbytes, parsePairs, strtoull_append hsrc (head_colon _)]
  cases sourceUids with
  | nil => exact absurd rfl hne
  | cons next later => simp [strtoull_append hdst (head_comma text), destUid_iff.mp huid]

theorem parsePairs_cut {items : List MembershipsCopiedItem} (h : ItemsValid items) (count : ℕ) :
    parsePairs (items.map (·.srcUid)) ((formatPairs items).bytes.take ((formatPairs items).bytes.length - count)) =
      if count < (decimal (items.getLast h.nonempty).dstUid).bytes.length then
        some ((items.map (·.dstUid)).dropLast ++ [(items.getLast h.nonempty).dstUid / 10 ^ count])
      else none := by
  obtain ⟨hne, hsource, hdest⟩ := h
  induction items with
  | nil => exact absurd rfl hne
  | cons item items ih =>
    have hsrc : Numeral (decimal item.srcUid).bytes item.srcUid :=
      numeral_decimal (lt_two_pow (hsource item (List.mem_cons_self ..)))
    have huid : DestUid item.dstUid := hdest item (List.mem_cons_self ..)
    by_cases hitems : items = []
    · subst hitems
      rw [formatPairs_single, List.append_cons, List.getLast_singleton, List.map_singleton, List.map_singleton]
      by_cases hcount : count < (decimal item.dstUid).bytes.length
      · rw [take_sub_right _ hcount.le, ← List.append_cons, if_pos hcount]
        refine (parsePairs_iff (List.cons_ne_nil _ _)).mpr (.last hsrc (numeral_cut huid.2 hcount) ⟨?_, ?_⟩)
        · exact decimal_div_pos huid.1 hcount
        · exact (Nat.div_le_self _ _).trans huid.2
      · rw [if_neg hcount]
        exact parsePairs_short (take_sub_left _ (Nat.le_of_not_lt hcount))
    · have hrec := ih hitems (fun i hi => hsource i (List.mem_cons_of_mem _ hi))
        (fun i hi => hdest i (List.mem_cons_of_mem _ hi))
      have hsources : items.map (·.srcUid) ≠ [] := by simpa using hitems
      have hdests : items.map (·.dstUid) ≠ [] := by simpa using hitems
      have hsplit : (formatPairs (item :: items)).bytes =
          ((decimal item.srcUid ++ literal ":" ++ decimal item.dstUid).bytes ++ [44]) ++ (formatPairs items).bytes := by
        rw [formatPairs_cons hitems]
        simp only [bytes_append, List.append_assoc]
        rfl
      rw [hsplit, List.map_cons, List.map_cons, List.getLast_cons hitems, List.dropLast_cons_of_ne_nil hdests,
        List.cons_append]
      by_cases hcount : count ≤ (formatPairs items).bytes.length
      · have hdst : Numeral (decimal item.dstUid).bytes item.dstUid := numeral_decimal (lt_two_pow huid.2)
        rw [take_sub_right _ hcount]
        rw [parsePairs_front hsources hsrc hdst huid, hrec]
        split <;> rfl
      · have hlast : ¬count < (decimal (items.getLast hitems).dstUid).bytes.length := by
          have := (formatPairs_suffix hitems).length_le
          omega
        rw [if_neg hlast]
        exact parsePairs_one hsources (take_sub_left _ (by omega))

lemma cut_zero (s : CString) : cut s 0 = s := CString.ext (by simp [cut])

lemma afterPrefix_cut {start text : CString} (hstart : 0 < start.bytes.length) (count : ℕ) : afterPrefix (cut (start ++ text) count) start =
    if count ≤ text.bytes.length then some (text.bytes.take (text.bytes.length - count)) else none := by
  split
  case isTrue h => exact afterPrefix_iff.mpr (take_sub_right start.bytes h)
  case isFalse h =>
    by_contra hsome
    obtain ⟨rest, hrest⟩ := Option.ne_none_iff_exists'.mp hsome
    have hlength := congrArg List.length (afterPrefix_iff.mp hrest)
    simp only [cut, bytes_append, List.length_take, List.length_append] at hlength
    omega

lemma copyPrefix_pos (isMove : Bool) (destMailboxId : CString) (destUidValidity : ℕ) :
    0 < (copyPrefix isMove destMailboxId destUidValidity).bytes.length := by
  have hlast : 0 < (literal " pairs=").bytes.length := by decide
  rw [copyPrefix, bytes_append, List.length_append]
  omega

lemma appendPrefix_pos (mailboxId : CString) (uidValidity : ℕ) :
    0 < (appendPrefix mailboxId uidValidity).bytes.length := by
  have hlast : 0 < (literal ":").bytes.length := by decide
  rw [appendPrefix, bytes_append, List.length_append]
  omega

/-- What the plugin asked for is what the daemon journals. -/
structure Answers (request : CopyMoveRequest) (payload : MembershipsCopied) : Prop where
  mailbox : payload.destMailboxId = request.destMailboxId
  validity : payload.destUidvalidity = request.destUidValidity
  sources : payload.items.map (·.srcUid) = request.sourceUids

lemma buildItems_sources (resolve : ℕ → ResolvedSource) (dstUid : ℕ) (sourceUids : List ℕ) :
    (buildItems resolve dstUid sourceUids).map (·.srcUid) = sourceUids := by
  induction sourceUids generalizing dstUid with
  | nil => rfl
  | cons srcUid sourceUids ih => rw [buildItems, List.map_cons, ih]

lemma buildPayload_answers (request : CopyMoveRequest) (resolve : ℕ → ResolvedSource) (firstDstUid : ℕ) :
    Answers request (buildPayload request resolve firstDstUid) :=
  ⟨rfl, rfl, buildItems_sources resolve firstDstUid request.sourceUids⟩

section
variable {request : CopyMoveRequest} {payload : MembershipsCopied}

theorem parseCopySummary_cut (isMove : Bool) (hanswers : Answers request payload) (hitems : ItemsValid payload.items)
    (count : ℕ) : parseCopySummary (cut (formatCopySummary isMove request payload) count) isMove payload.destMailboxId
      payload.destUidvalidity request.sourceUids =
        if count < (decimal (payload.items.getLast hitems.nonempty).dstUid).bytes.length then
          some ((payload.items.map (·.dstUid)).dropLast ++ [(payload.items.getLast hitems.nonempty).dstUid / 10 ^ count])
        else none := by
  rw [hanswers.mailbox, hanswers.validity, parseCopySummary, formatCopySummary, afterPrefix_cut (copyPrefix_pos _ _ _),
    ← hanswers.sources]
  have hlength := (formatPairs_suffix hitems.nonempty).length_le
  split
  case isTrue h => exact parsePairs_cut hitems count
  case isFalse h =>
    rw [if_neg (by omega)]
    rfl

theorem parseCopySummary_format (isMove : Bool) (hanswers : Answers request payload) (hitems : ItemsValid payload.items) :
    parseCopySummary (formatCopySummary isMove request payload) isMove payload.destMailboxId payload.destUidvalidity
      request.sourceUids = some (payload.items.map (·.dstUid)) := by
  have hcut := parseCopySummary_cut isMove hanswers hitems 0
  have hne : payload.items.map (·.dstUid) ≠ [] := by simpa using hitems.nonempty
  rw [cut_zero, if_pos (List.length_pos_iff.mpr (decimal_ne_nil _)), pow_zero, Nat.div_one] at hcut
  have hlast := List.dropLast_append_getLast hne
  rw [List.getLast_map] at hlast
  rw [hcut, hlast]

end

theorem parseAppendSummary_cut (request : AppendRequest) {uid : ℕ} (huid : DestUid uid) (count : ℕ) :
    parseAppendSummary (cut (formatAppendSummary request uid) count) request.mailboxId request.uidValidity =
      if count < (decimal uid).bytes.length then some (uid / 10 ^ count) else none := by
  rw [parseAppendSummary, formatAppendSummary, afterPrefix_cut (appendPrefix_pos _ _)]
  by_cases hcount : count < (decimal uid).bytes.length
  · have hread : strtoull ((decimal uid).bytes.take ((decimal uid).bytes.length - count)) = some (uid / 10 ^ count, []) :=
      numeral_cut huid.2 hcount
    have hdest : DestUid (uid / 10 ^ count) :=
      ⟨decimal_div_pos huid.1 hcount, (Nat.div_le_self _ _).trans huid.2⟩
    rw [if_pos hcount.le, if_pos hcount, Option.bind_some]
    simp only [hread, if_neg (destUid_iff.mp hdest)]
  · rw [if_neg hcount]
    split
    case isFalse => rfl
    case isTrue h =>
      rw [Option.bind_some, show (decimal uid).bytes.length - count = 0 by omega]
      rfl

theorem parseAppendSummary_format (request : AppendRequest) {uid : ℕ} (huid : DestUid uid) :
    parseAppendSummary (formatAppendSummary request uid) request.mailboxId request.uidValidity = some uid := by
  have hcut := parseAppendSummary_cut request huid 0
  rwa [cut_zero, if_pos (List.length_pos_iff.mpr (decimal_ne_nil _)), pow_zero, Nat.div_one] at hcut

/-! ## Summaries survive -/

def sampleRequest : CopyMoveRequest := ⟨literal "a", literal "b", literal "c", 1, 1, [1]⟩

/-- One message is copied, to UID 23. -/
def samplePayload : MembershipsCopied := buildPayload sampleRequest (fun _ => ⟨literal "m", [], [], 0⟩) 23

lemma samplePayload_valid : ItemsValid samplePayload.items :=
  ⟨List.cons_ne_nil _ _, by decide, by simp [samplePayload, buildPayload, buildItems, sampleRequest, DestUid, maxUint32]⟩

end Wyrebox.ReceiptSummary
