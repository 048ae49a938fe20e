import Wyrebox.DateForms

set_option autoImplicit false

/-!
# The instant of a date

The parser takes the forms of a date and no other text. What is written for an instant in any zone is read
as that instant.
-/
namespace Wyrebox.Rfc5322Date
open Gregorian SplitWords
open CString (isDigit decimalValue)
open EncodedWords (strip isSpace)
open Eml (toLower)
open JournalRecord (ascii)

/-! ## White space around a date -/

theorem isSpace_of_isBlank {c : UInt8} (h : isBlank c = true) : isSpace c = true := by
  simp only [isBlank, decide_eq_true_eq] at h
  rcases h with rfl | rfl <;> rfl

theorem isSpace_lt {c : UInt8} (h : isSpace c = true) : c.toNat ≤ 32 := by
  simp only [isSpace, decide_eq_true_eq] at h
  rcases h with rfl | rfl | rfl | rfl | rfl <;> decide

/-- The text has no white space and no NUL. -/
def Printable (text : List UInt8) : Prop := ∀ c ∈ text, 33 ≤ c.toNat

theorem Printable.no_space {text : List UInt8} (h : Printable text) : ∀ c ∈ text, isSpace c = false := by
  intro c hc
  rw [Bool.eq_false_iff]
  intro hspace
  have hle := isSpace_lt hspace
  have hge := h c hc
  omega

theorem Printable.append {text other : List UInt8} (h : Printable text) (hother : Printable other) :
    Printable (text ++ other) := List.forall_mem_append.mpr ⟨h, hother⟩

theorem Printable.cons {c : UInt8} {text : List UInt8} (hc : 33 ≤ c.toNat) (h : Printable text) : Printable (c :: text) :=
  List.forall_mem_cons.mpr ⟨hc, h⟩

theorem Digits.printable {text : List UInt8} {n : ℕ} (h : Digits text n) : Printable text := by
  intro c hc
  have hdigit := h.digits c hc
  simp only [isDigit, Bool.and_eq_true, decide_eq_true_eq, UInt8.le_iff_toNat_le] at hdigit
  have h48 : (48 : UInt8).toNat = 48 := rfl
  omega

/-- A name in other case is as printable as the name. -/
theorem printable_of_sameText {text name : List UInt8} (h : sameText text name = true)
    (hname : Printable (name.map toLower)) : Printable text := by
  intro c hc
  by_contra hlt
  have hlower : toLower c = c := by
    rw [toLower, if_neg]
    rintro ⟨hle, -⟩
    rw [UInt8.le_iff_toNat_le] at hle
    have h65 : (65 : UInt8).toNat = 65 := rfl
    omega
  have hmem : c ∈ name.map toLower := by
    rw [← sameText_iff.mp h]
    exact List.mem_map.mpr ⟨c, hc, hlower⟩
  exact hlt (hname c hmem)

instance (text : List UInt8) : Decidable (Printable text) := 
  List.decidableBAll (fun c : UInt8 => 33 ≤ c.toNat) text

theorem WeekdayText.printable {text : List UInt8} {weekday : ℕ} (h : WeekdayText text weekday) : Printable text := by
  obtain ⟨i, names, name, hi, rfl, hname, -⟩ := h
  have hall : ∀ names ∈ weekdays, Printable (names.1.map toLower) ∧ Printable (names.2.map toLower) := by
    decide +kernel
  have hletters := hall names (List.mem_of_getElem? hi)
  rcases hname with hname | hname
  · exact (printable_of_sameText hname hletters.1).append (by decide)
  · exact (printable_of_sameText hname hletters.2).append (by decide)

theorem ZoneText.printable {text : List UInt8} {offset : ℤ} (h : ZoneText text offset) : Printable text := by
  cases h with
  | universal hname hsame =>
    have hall : ∀ name ∈ zoneNames, Printable (name.map toLower) := by decide +kernel
    exact printable_of_sameText hsame (hall _ hname)
  | east hhours hminutes _ _ => exact .cons (by decide) (hhours.1.printable.append hminutes.1.printable)
  | west hhours hminutes _ _ => exact .cons (by decide) (hhours.1.printable.append hminutes.1.printable)

/-! ## The weekday -/

theorem skipWeekdayToken_of_part {first five : List (List UInt8)} {weekday : Option ℕ} (h : WeekdayPart first weekday)
    (hfive : five.length = 5) (hcomma : ∀ token, five.head? = some token → endsWithComma token = false) :
    skipWeekdayToken (first ++ five) = some (first.length, weekday) := by
  obtain ⟨a, b, rest, rfl⟩ : ∃ a b rest, five = a :: b :: rest := by
    rcases five with _ | ⟨a, _ | ⟨b, rest⟩⟩
    · cases hfive
    · cases hfive
    · exact ⟨a, b, rest, rfl⟩
  cases h with
  | absent => simp [skipWeekdayToken, hcomma a rfl]
  | present hweekday =>
    have hparse := weekday_iff.mpr hweekday
    obtain ⟨i, names, name, -, rfl, -, -⟩ := hweekday
    have hends : endsWithComma (name ++ [44]) = true := by simp [endsWithComma]
    simp [skipWeekdayToken, hends, hparse]

theorem part_of_skipWeekdayToken {tokens : List (List UInt8)} {start : ℕ} {weekday : Option ℕ}
    (h : skipWeekdayToken tokens = some (start, weekday)) (hfive : (tokens.drop start).length = 5) :
    ∃ first, WeekdayPart first weekday ∧ tokens = first ++ tokens.drop start := by
  unfold skipWeekdayToken at h
  split at h
  · split at h
    · cases h
      exact ⟨[], .absent, rfl⟩
    · obtain ⟨w, hparse, heq⟩ := Option.map_eq_some_iff.mp h
      cases heq
      exact ⟨_, .present (weekday_iff.mp hparse), rfl⟩
  · cases h
    exact ⟨[], .absent, rfl⟩

/-! ## The instant -/

theorem instantOf_eq_some {reaches : ℤ → Bool} {weekday : Option ℕ} {year month day hour minute second : ℕ}
    {offset us : ℤ} (hyear : year ≤ 9999) (hhour : hour ≤ 23) (hminute : minute ≤ 59) (hsecond : second ≤ 59) :
    instantOf reaches weekday year month day hour minute second offset = some us ↔
      ∃ date : Date, date.year = year ∧ date.month = month ∧ date.day = day ∧
        (∀ w, weekday = some w → w = date.weekday) ∧
        reaches (unixSeconds date ((hour * 60 + minute) * 60 + second) - offset) = true ∧
        us = (unixSeconds date ((hour * 60 + minute) * 60 + second) - offset) * 1000000 := by
  constructor
  · intro h
    simp only [instantOf, dateTimeNewUtc, Option.bind_eq_bind, Option.bind_eq_some_iff] at h
    obtain ⟨found, hfound, h⟩ := h
    by_cases hvalid : 0 < year ∧ year ≤ 9999 ∧ 0 < month ∧ month ≤ 12 ∧ 0 < day ∧ day ≤ daysInMonth year month ∧
        hour ≤ 23 ∧ minute ≤ 59 ∧ second ≤ 59
    · rw [dif_pos hvalid] at hfound
      obtain rfl := Option.some.inj hfound
      split at h
      · cases h
      · rename_i hweekday
        split at h
        · rename_i hreaches
          cases h
          refine ⟨_, rfl, rfl, rfl, ?_, hreaches, rfl⟩
          rintro w rfl
          simpa using hweekday
        · cases h
    · rw [dif_neg hvalid] at hfound
      cases hfound
  · rintro ⟨date, rfl, rfl, rfl, hweekday, hreaches, rfl⟩
    have hvalid : 0 < date.year ∧ date.year ≤ 9999 ∧ 0 < date.month ∧ date.month ≤ 12 ∧ 0 < date.day ∧
        date.day ≤ daysInMonth date.year date.month ∧ hour ≤ 23 ∧ minute ≤ 59 ∧ second ≤ 59 :=
      ⟨date.year_pos, hyear, date.month_pos, date.month_le, date.day_pos, date.day_le, hhour, hminute, hsecond⟩
    have hmatches : (weekday.any fun w => decide (w ≠ date.weekday)) = false := by
      cases weekday with
      | none => rfl
      | some w => simp [hweekday w rfl]
    simp only [instantOf, dateTimeNewUtc, dif_pos hvalid, Option.bind_eq_bind, Option.bind_some]
    rw [if_neg (by simpa using hmatches), if_pos hreaches]

theorem decimalValue_concat (text : List UInt8) (c : UInt8) :
    decimalValue (text ++ [c]) = 10 * decimalValue text + (c.toNat - 48) := by
  rw [decimalValue, List.foldl_append]
  rfl

theorem decimalValue_lt {text : List UInt8} (h : ∀ c ∈ text, isDigit c = true) : decimalValue text < 10 ^ text.length := by
  induction text using List.reverseRecOn with
  | nil => decide
  | append_singleton text c ih =>
    have hdigit := h c (by simp)
    simp only [isDigit, Bool.and_eq_true, decide_eq_true_eq, UInt8.le_iff_toNat_le] at hdigit
    have h57 : (57 : UInt8).toNat = 57 := rfl
    have hlt := ih fun d hd => h d (by simp [hd])
    rw [decimalValue_concat, List.length_append, List.length_singleton, Nat.pow_succ]
    omega

theorem YearText.le {text : List UInt8} {year : ℕ} (h : YearText text year) : year ≤ 9999 := by
  cases h with
  | recent _ _ hlt => omega
  | late hdigits hlength _ =>
    have hlt := decimalValue_lt hdigits.digits
    rw [hdigits.value, hlength] at hlt
    omega
  | three hdigits hlength =>
    have hlt := decimalValue_lt hdigits.digits
    rw [hdigits.value, hlength] at hlt
    omega
  | four hdigits hlength _ =>
    have hlt := decimalValue_lt hdigits.digits
    rw [hdigits.value, hlength] at hlt
    omega

theorem TimeText.le {text : List UInt8} {hour minute second : ℕ} (h : TimeText text hour minute second) :
    hour ≤ 23 ∧ minute ≤ 59 ∧ second ≤ 59 := by
  cases h with
  | minutes _ _ hhour hminute => exact ⟨hhour, hminute, by decide⟩
  | seconds _ _ _ hhour hminute hsecond => exact ⟨hhour, hminute, hsecond⟩

theorem DayText.no_comma {text : List UInt8} {day : ℕ} (h : DayText text day) : endsWithComma text = false := by
  rw [endsWithComma, decide_eq_false_iff_not]
  intro hlast
  have hdigit := h.1.digits 44 (List.mem_of_getLast? hlast)
  cases hdigit

/-! ## Acceptance -/

/-- The tokens of a value are the words of what remains of it between white space. -/
theorem tokens_of_separated {lead trail text : List UInt8} {parts : List (List UInt8)}
    (hlead : ∀ c ∈ lead, isSpace c = true) (htrail : ∀ c ∈ trail, isSpace c = true)
    (hfirst : ∀ part, parts.head? = some part → ∀ c ∈ part, isSpace c = false)
    (hlast : ∀ part, parts.getLast? = some part → ∀ c ∈ part, isSpace c = false)
    (hwords : Separated isBlank parts text) :
    strip (lead ++ text ++ trail) = text ∧ text ≠ [] ∧ compact (text.splitOnP isBlank) = parts := by
  obtain ⟨first, hfirstPart, a, ha, hhead⟩ := hwords.head
  obtain ⟨last, hlastPart, b, hb, hgetLast⟩ := hwords.getLast
  refine ⟨?_, ?_, ?_⟩
  · have hhead' : ∃ a, (text ++ trail).head? = some a ∧ isSpace a = false :=
      ⟨a, by rw [List.head?_append, hhead]; rfl, hfirst first hfirstPart a ha⟩
    rw [strip, List.append_assoc, dropWhile_append_of_head hlead hhead',
      rdropWhile_append_of_getLast htrail ⟨b, hgetLast, hlast last hlastPart b hb⟩]
  · rintro rfl
    cases hhead
  · rw [compact_eq]
    exact words_of_separated hwords

theorem parseUnixUs_of_spells {reaches : ℤ → Bool} {value : CString} {weekday : Option ℕ} {date : Date}
    {hour minute second : ℕ} {offset : ℤ} (h : Spells value.bytes weekday date hour minute second offset) :
    parseUnixUs reaches (some value) = instantOf reaches weekday date.year date.month date.day hour minute second offset := by
  generalize hbytes : value.bytes = bytes at h
  cases h with
  | @mk lead trail text dayText monthText yearText timeText zoneText first _ _ _ _ _ _ hlead htrail hweekday hday
      hmonth hyear htime hzone hwords =>
    have hfirst : ∀ part, (first ++ [dayText, monthText, yearText, timeText, zoneText]).head? = some part →
        ∀ c ∈ part, isSpace c = false := by
      intro part hpart
      cases hweekday with
      | absent => cases hpart; exact hday.1.printable.no_space
      | present h => cases hpart; exact h.printable.no_space
    have hlast : ∀ part, (first ++ [dayText, monthText, yearText, timeText, zoneText]).getLast? = some part →
        ∀ c ∈ part, isSpace c = false := by
      intro part hpart
      rw [List.getLast?_append_of_ne_nil _ (by simp)] at hpart
      cases hpart
      exact hzone.printable.no_space
    obtain ⟨hstrip, hne, htokens⟩ := tokens_of_separated hlead htrail hfirst hlast hwords
    have hskip := @skipWeekdayToken_of_part first [dayText, monthText, yearText, timeText, zoneText] _ hweekday rfl
      fun token htoken => by cases htoken; exact hday.no_comma
    simp only [parseUnixUs, hbytes, hstrip, if_neg hne, htokens, hskip, List.drop_left, day_iff.mpr hday,
      month_iff.mpr hmonth, year_iff.mpr hyear, time_iff.mpr htime, zone_iff.mpr hzone, Option.bind_eq_bind,
      Option.bind_some]

theorem spells_of_parseUnixUs {reaches : ℤ → Bool} {value : CString} {us : ℤ} (h : parseUnixUs reaches (some value) = some us) :
    ∃ weekday date hour minute second offset, Spells value.bytes weekday date hour minute second offset := by
  simp only [parseUnixUs] at h
  split at h
  · cases h
  · rename_i hne
    split at h
    · cases h
    · rename_i start weekday hskip
      split at h
      · rename_i dayText monthText yearText timeText zoneText hfive
        simp only [Option.bind_eq_bind, Option.bind_eq_some_iff, day_iff, month_iff, year_iff, zone_iff] at h
        obtain ⟨day, hday, month, hmonth, year, hyear, ⟨hour, minute, second⟩, htime, offset, hzone, h⟩ := h
        rw [time_iff] at htime
        obtain ⟨hhour, hminute, hsecond⟩ := htime.le
        obtain ⟨date, rfl, rfl, rfl, -, -, -⟩ := (instantOf_eq_some hyear.le hhour hminute hsecond).mp h
        obtain ⟨first, hpart, htokens⟩ := part_of_skipWeekdayToken hskip (by rw [hfive]; rfl)
        rw [hfive, compact_eq] at htokens
        obtain ⟨lead, trail, hlead, htrail, hbytes⟩ := exists_surrounding isSpace value.bytes
        have hnotBlank : ∀ {c}, isSpace c = false → isBlank c = false := fun hc =>
          Bool.eq_false_iff.mpr fun hblank => Bool.false_ne_true (hc.symm.trans (isSpace_of_isBlank hblank))
        obtain ⟨a, hhead, ha⟩ := surrounded_head hne
        obtain ⟨b, hgetLast, hb⟩ := surrounded_getLast hne
        have hwords := separated_words ⟨a, hhead, hnotBlank ha⟩ ⟨b, hgetLast, hnotBlank hb⟩
        rw [words, ← strip, htokens] at hwords
        refine ⟨weekday, date, hour, minute, second, offset, ?_⟩
        rw [hbytes]
        exact .mk hlead htrail hpart hday hmonth hyear htime hzone hwords
      · cases h

/-- Exactly the forms of a date are accepted, each for its instant. -/
theorem parseUnixUs_eq_some_iff (reaches : ℤ → Bool) (value : CString) (us : ℤ) :
    parseUnixUs reaches (some value) = some us ↔
      ∃ weekday date hour minute second offset, Spells value.bytes weekday date hour minute second offset ∧
        (∀ w, weekday = some w → w = date.weekday) ∧
        reaches (unixSeconds date ((hour * 60 + minute) * 60 + second) - offset) = true ∧
        us = (unixSeconds date ((hour * 60 + minute) * 60 + second) - offset) * 1000000 := by
  have hinstant : ∀ {weekday date hour minute second offset}, Spells value.bytes weekday date hour minute second offset →
      (parseUnixUs reaches (some value) = some us ↔ (∀ w, weekday = some w → w = date.weekday) ∧
        reaches (unixSeconds date ((hour * 60 + minute) * 60 + second) - offset) = true ∧
        us = (unixSeconds date ((hour * 60 + minute) * 60 + second) - offset) * 1000000) := by
    intro weekday date hour minute second offset hspells
    have hranges : date.year ≤ 9999 ∧ hour ≤ 23 ∧ minute ≤ 59 ∧ second ≤ 59 := by
      generalize value.bytes = bytes at hspells
      cases hspells with
      | mk _ _ _ _ _ hyear htime _ _ => exact ⟨hyear.le, htime.le⟩
    rw [parseUnixUs_of_spells hspells, instantOf_eq_some hranges.1 hranges.2.1 hranges.2.2.1 hranges.2.2.2]
    constructor
    · rintro ⟨date', hyear, hmonth, hday, h⟩
      rwa [Date.ext hyear hmonth hday] at h
    · intro h
      exact ⟨date, rfl, rfl, rfl, h⟩
  constructor
  · intro h
    obtain ⟨weekday, date, hour, minute, second, offset, hspells⟩ := spells_of_parseUnixUs h
    exact ⟨weekday, date, hour, minute, second, offset, hspells, (hinstant hspells).mp h⟩
  · rintro ⟨weekday, date, hour, minute, second, offset, hspells, h⟩
    exact (hinstant hspells).mpr h

/-! ## Rendering -/

/-- A zone whose time is ahead of or behind universal time by hours and minutes. -/
structure Zone where
  west : Bool
  hours : Fin 24
  minutes : Fin 60

def Zone.offset (zone : Zone) : ℤ := (if zone.west then -1 else 1) * ((zone.hours.val * 60 + zone.minutes.val) * 60 : ℕ)

def digit (n : ℕ) : UInt8 := UInt8.ofNat (48 + n % 10)

def twoDigits (n : ℕ) : List UInt8 := [digit (n / 10), digit n]

def fourDigits (n : ℕ) : List UInt8 := twoDigits (n / 100) ++ twoDigits n

/-- The words of a date. -/
def dateWords (zone : Zone) (t : ℤ) : List (List UInt8) :=
  let ahead := t + zone.offset
  let date := Date.ofDayNumber (dayOfInstant ahead)
  let second := secondOfDay ahead
  [(weekdays.getD (date.weekday - 1) ([], [])).1 ++ [44], twoDigits date.day, months.getD (date.month - 1) [],
    fourDigits date.year,
    twoDigits (second / 3600) ++ 58 :: (twoDigits (second / 60 % 60) ++ 58 :: twoDigits (second % 60)),
    (if zone.west then 45 else 43) :: (twoDigits zone.hours.val ++ twoDigits zone.minutes.val)]

/-- An instant as the time of a zone: `Mon, 01 Jan 1900 00:00:00 +0000`. -/
def render (zone : Zone) (t : ℤ) : CString := .ofBuffer ([32].intercalate (dateWords zone t))

theorem digit_toNat (n : ℕ) : (digit n).toNat = 48 + n % 10 := by
  rw [digit, UInt8.toNat_ofNat']
  omega

theorem isDigit_digit (n : ℕ) : isDigit (digit n) = true := by
  have h := digit_toNat n
  simp only [isDigit, Bool.and_eq_true, decide_eq_true_eq, UInt8.le_iff_toNat_le]
  have h48 : (48 : UInt8).toNat = 48 := rfl
  have h57 : (57 : UInt8).toNat = 57 := rfl
  omega

theorem digits_twoDigits {n : ℕ} (h : n < 100) : TwoDigits (twoDigits n) n := by
  refine ⟨⟨by simp [twoDigits], ?_, ?_⟩, rfl⟩
  · simp [twoDigits, isDigit_digit]
  · simp only [twoDigits, decimalValue, List.foldl_cons, List.foldl_nil, digit_toNat]
    omega

theorem digits_fourDigits {n : ℕ} (h : n < 10000) : Digits (fourDigits n) n := by
  refine ⟨by simp [fourDigits, twoDigits], ?_, ?_⟩
  · simp [fourDigits, twoDigits, isDigit_digit]
  · simp only [fourDigits, twoDigits, List.cons_append, List.nil_append, decimalValue, List.foldl_cons, List.foldl_nil,
      digit_toNat]
    omega

theorem isBlank_eq_false {c : UInt8} (h : isSpace c = false) : isBlank c = false :=
  Bool.eq_false_iff.mpr fun hblank => Bool.false_ne_true (h.symm.trans (isSpace_of_isBlank hblank))

/-- Printable names, each under its number. -/
theorem monthText_getD {month : ℕ} (hpos : 0 < month) (hle : month ≤ 12) :
    MonthText (months.getD (month - 1) []) month ∧ months.getD (month - 1) [] ≠ [] ∧
      Printable (months.getD (month - 1) []) := by
  have hall : ∀ i < 12, months[i]? = some (months.getD i []) ∧ months.getD i [] ≠ [] ∧ Printable (months.getD i []) := by
    decide +kernel
  obtain ⟨hget, hne, hprintable⟩ := hall (month - 1) (by omega)
  exact ⟨⟨month - 1, _, hget, sameText_iff.mpr rfl, by omega⟩, hne, hprintable⟩

theorem weekdayText_getD (date : Date) :
    WeekdayText ((weekdays.getD (date.weekday - 1) ([], [])).1 ++ [44]) date.weekday := by
  have hall : ∀ i < 7, weekdays[i]? = some (weekdays.getD i ([], [])) := by decide +kernel
  have hlt : date.weekday - 1 < 7 := by
    rw [Date.weekday]
    omega
  exact ⟨date.weekday - 1, _, _, hall _ hlt, rfl, .inl (sameText_iff.mpr rfl), by rw [Date.weekday]; omega⟩

theorem zoneText_words (zone : Zone) :
    ZoneText ((if zone.west then 45 else 43) :: (twoDigits zone.hours.val ++ twoDigits zone.minutes.val)) zone.offset := by
  have hhours := zone.hours.isLt
  have hminutes := zone.minutes.isLt
  have hhoursText := @digits_twoDigits zone.hours.val (by omega)
  have hminutesText := @digits_twoDigits zone.minutes.val (by omega)
  rw [Zone.offset]
  cases zone.west with
  | true => simpa using ZoneText.west hhoursText hminutesText (by omega) (by omega)
  | false => simpa using ZoneText.east hhoursText hminutesText (by omega) (by omega)

theorem daysInMonth_le (year month : ℕ) : daysInMonth year month ≤ 31 := by
  unfold daysInMonth
  split <;> first | split <;> decide | decide

theorem ne_zero_of_intercalate {parts : List (List UInt8)} (h : ∀ part ∈ parts, Printable part) {c : UInt8}
    (hc : c ∈ [32].intercalate parts) : c ≠ 0 := by
  induction parts with
  | nil => cases hc
  | cons part rest ih =>
    have hzero : ∀ {d}, d ∈ part → d ≠ 0 := by
      rintro d hd rfl
      exact absurd (h part (by simp) 0 hd) (by decide)
    cases rest with
    | nil => exact hzero (by simpa [List.intercalate] using hc)
    | cons next rest =>
      have hcons : [32].intercalate (part :: next :: rest) = part ++ 32 :: [32].intercalate (next :: rest) := by
        simp [List.intercalate]
      rw [hcons, List.mem_append, List.mem_cons] at hc
      rcases hc with hc | rfl | hc
      · exact hzero hc
      · decide
      · exact ih (fun q hq => h q (by simp [hq])) hc

/-- What is rendered spells the time of the zone. -/
theorem spells_render {zone : Zone} {t : ℤ} (hfrom : yearStart 1900 ≤ t + zone.offset)
    (huntil : t + zone.offset < yearStart 10000) :
    Spells (render zone t).bytes (some (Date.ofDayNumber (dayOfInstant (t + zone.offset))).weekday)
      (.ofDayNumber (dayOfInstant (t + zone.offset))) (secondOfDay (t + zone.offset) / 3600)
      (secondOfDay (t + zone.offset) / 60 % 60) (secondOfDay (t + zone.offset) % 60) zone.offset := by
  obtain ⟨-, hyear, hyear'⟩ := year_of_instant (by decide) hfrom huntil
  have hsecond := secondOfDay_lt (t + zone.offset)
  rw [secondsPerDay] at hsecond
  generalize hdate : Date.ofDayNumber (dayOfInstant (t + zone.offset)) = date at hyear hyear'
  generalize hseconds : secondOfDay (t + zone.offset) = second at hsecond
  have hdayLe := date.day_le.trans (daysInMonth_le _ _)
  have hweekday := weekdayText_getD date
  have hday : DayText (twoDigits date.day) date.day := by
    have h := @digits_twoDigits date.day (by omega)
    exact ⟨h.1, h.2.le⟩
  obtain ⟨hmonth, hmonthNe, hmonthPrintable⟩ := monthText_getD date.month_pos date.month_le
  have hyearText : YearText (fourDigits date.year) date.year := .four (digits_fourDigits (by omega)) rfl hyear
  have hhour := @digits_twoDigits (second / 3600) (by omega)
  have hminute := @digits_twoDigits (second / 60 % 60) (by omega)
  have hsecondText := @digits_twoDigits (second % 60) (by omega)
  have htime := TimeText.seconds hhour hminute hsecondText (by omega) (by omega) (by omega)
  have hzone := zoneText_words zone
  have htimePrintable := hhour.1.printable.append (.cons (by decide : 33 ≤ (58 : UInt8).toNat)
    (hminute.1.printable.append (.cons (by decide : 33 ≤ (58 : UInt8).toNat) hsecondText.1.printable)))
  have hwords : dateWords zone t = [(weekdays.getD (date.weekday - 1) ([], [])).1 ++ [44]] ++
      [twoDigits date.day, months.getD (date.month - 1) [], fourDigits date.year,
        twoDigits (second / 3600) ++ 58 :: (twoDigits (second / 60 % 60) ++ 58 :: twoDigits (second % 60)),
        (if zone.west then 45 else 43) :: (twoDigits zone.hours.val ++ twoDigits zone.minutes.val)] := by
    simp only [dateWords, hdate, hseconds, List.singleton_append]
  have hparts : ∀ part ∈ dateWords zone t, part ≠ [] ∧ Printable part := by
    rw [hwords]
    simp only [List.singleton_append, List.forall_mem_cons, List.not_mem_nil, false_implies, implies_true, and_true]
    exact ⟨⟨by simp, hweekday.printable⟩, ⟨by simp [twoDigits], hday.1.printable⟩, ⟨hmonthNe, hmonthPrintable⟩,
      ⟨by simp [fourDigits, twoDigits], (@digits_fourDigits date.year (by omega)).printable⟩,
      ⟨by simp [twoDigits], htimePrintable⟩, ⟨by simp, hzone.printable⟩⟩
  have hseparated : Separated isBlank (dateWords zone t) ([32].intercalate (dateWords zone t)) :=
    separated_intercalate rfl (by rw [hwords]; simp) fun part hpart =>
      ⟨(hparts part hpart).1, fun c hc => isBlank_eq_false ((hparts part hpart).2.no_space c hc)⟩
  have hbytes : (render zone t).bytes = [] ++ [32].intercalate (dateWords zone t) ++ [] := by
    rw [List.nil_append, List.append_nil]
    exact List.takeWhile_eq_self_iff.mpr fun c hc => by
      simpa using ne_zero_of_intercalate (fun part hpart => (hparts part hpart).2) hc
  rw [hbytes]
  rw [hwords] at hseparated ⊢
  exact .mk (by simp) (by simp) (.present hweekday) hday hmonth hyearText htime hzone hseparated

theorem Zone.offset_bounds (zone : Zone) : -86340 ≤ zone.offset ∧ zone.offset ≤ 86340 := by
  have hhours := zone.hours.isLt
  have hminutes := zone.minutes.isLt
  rw [Zone.offset]
  cases zone.west with
  | true => simp only [if_true]; omega
  | false => simp only [Bool.false_eq_true, if_false]; omega

/-- The years of `GDateTime`. -/
def representable (t : ℤ) : Bool := yearStart 1 ≤ t ∧ t < yearStart 10000

/-- The forms of a date are accepted and no other text, and an instant is read back from any zone in which
    it is not before 1900. -/
theorem date_parsing (reaches : ℤ → Bool) (hreaches : ∀ t, representable t = true → reaches t = true) :
    (∀ (value : CString) (us : ℤ), parseUnixUs reaches (some value) = some us ↔
      ∃ weekday date hour minute second offset, Spells value.bytes weekday date hour minute second offset ∧
        (∀ w, weekday = some w → w = date.weekday) ∧
        reaches (unixSeconds date ((hour * 60 + minute) * 60 + second) - offset) = true ∧
        us = (unixSeconds date ((hour * 60 + minute) * 60 + second) - offset) * 1000000) ∧
    ∀ (zone : Zone) (t : ℤ), yearStart 1900 ≤ t + zone.offset → t < yearStart 9999 →
      parseUnixUs reaches (some (render zone t)) = some (t * 1000000) := by
  refine ⟨parseUnixUs_eq_some_iff reaches, fun zone t hfrom huntil => ?_⟩
  obtain ⟨hlow, hhigh⟩ := zone.offset_bounds
  have hend : t + zone.offset < yearStart 10000 := by
    simp only [show yearStart 10000 = 253402300800 from by decide, show yearStart 9999 = 253370764800 from by decide] at *
    omega
  have hspells := spells_render hfrom hend
  obtain ⟨hday, -, -⟩ := @year_of_instant _ 1900 9999 (by decide) hfrom hend
  have hinstant := unixSeconds_ofDayNumber hday
  have hparts : (secondOfDay (t + zone.offset) / 3600 * 60 + secondOfDay (t + zone.offset) / 60 % 60) * 60 +
      secondOfDay (t + zone.offset) % 60 = secondOfDay (t + zone.offset) := by omega
  refine (parseUnixUs_eq_some_iff reaches _ _).mpr ⟨_, _, _, _, _, _, hspells, ?_, ?_, ?_⟩
  · rintro w hw
    exact (Option.some.inj hw).symm
  · rw [hparts, hinstant, Int.add_sub_cancel]
    refine hreaches t (decide_eq_true ⟨?_, ?_⟩)
    · simp only [show yearStart 1900 = -2208988800 from by decide, show yearStart 1 = -62135596800 from by decide] at *
      omega
    · simp only [show yearStart 10000 = 253402300800 from by decide, show yearStart 9999 = 253370764800 from by decide] at *
      omega
  · rw [hparts, hinstant, Int.add_sub_cancel]

theorem date_parsing_epoch : parseUnixUs representable (some (render ⟨false, 5, 30⟩ 0)) = some 0 :=
  (date_parsing representable fun _ h => h).2 ⟨false, 5, 30⟩ 0 (by decide) (by decide)

def lastDayOf1899 : Date := ⟨1899, 12, 31, by decide, by decide, by decide, by decide, by decide⟩

/-- A day before 1900 is refused, also where it is only so in its zone, and white space around a date is not. -/
theorem years_before_1900_refused :
    lastDayOf1899.weekday = 7 ∧
      parseUnixUs representable (some (.literal "Sun, 31 Dec 1899 23:59:59 +0000")) = none ∧
      parseUnixUs representable (some (render ⟨true, 0, 1⟩ (yearStart 1900))) = none ∧
      parseUnixUs representable (some (.literal "Thu, 01 Jan 1970 00:00 GMT\n")) = some 0 := by
  have hdate : Date.ofDayNumber (dayOfInstant (yearStart 1900 + Zone.offset ⟨true, 0, 1⟩)) = lastDayOf1899 := by
    rw [← Date.ofDayNumber_dayNumber lastDayOf1899]
    rfl
  have hrender : render ⟨true, 0, 1⟩ (yearStart 1900) = .literal "Sun, 31 Dec 1899 23:59:00 -0001" := by
    rw [render, dateWords]
    simp only [hdate]
    decide
  rw [hrender]
  decide

end Wyrebox.Rfc5322Date
