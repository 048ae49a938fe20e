import Wyrebox.Rfc5322Date

set_option autoImplicit false

/-!
# What dates the parser takes

The forms of a date, and that the parser takes these and gives them their instant.
-/
namespace Wyrebox.Rfc5322Date
open Gregorian SplitWords
open CString (isDigit decimalValue)
open EncodedWords (strip isSpace)
open Eml (toLower)

/-! ## Forms -/

/-- A number in decimal digits. -/
structure Digits (text : List UInt8) (n : ℕ) : Prop where
  ne_nil : text ≠ []
  digits : ∀ c ∈ text, isDigit c = true
  value : decimalValue text = n

def TwoDigits (text : List UInt8) (n : ℕ) : Prop := Digits text n ∧ text.length = 2

def DayText (text : List UInt8) (day : ℕ) : Prop := Digits text day ∧ text.length ≤ 2

/-- The abbreviation of a month, in letters of any case. -/
def MonthText (text : List UInt8) (month : ℕ) : Prop :=
  ∃ i name, months[i]? = some name ∧ sameText text name = true ∧ month = i + 1

/-- The abbreviation or the name of a weekday, and a comma. -/
def WeekdayText (text : List UInt8) (weekday : ℕ) : Prop :=
  ∃ i names name, weekdays[i]? = some names ∧ text = name ++ [44] ∧
    (sameText name names.1 = true ∨ sameText name names.2 = true) ∧ weekday = i + 1

inductive YearText (text : List UInt8) : ℕ → Prop where
  | recent {n : ℕ} : Digits text n → text.length = 2 → n < 50 → YearText text (n + 2000)
  | late {n : ℕ} : Digits text n → text.length = 2 → 50 ≤ n → YearText text (n + 1900)
  | three {n : ℕ} : Digits text n → text.length = 3 → YearText text (n + 1900)
  | four {n : ℕ} : Digits text n → text.length = 4 → 1900 ≤ n → YearText text n

inductive TimeText : List UInt8 → ℕ → ℕ → ℕ → Prop where
  | minutes {hourText minuteText : List UInt8} {hour minute : ℕ} : TwoDigits hourText hour →
      TwoDigits minuteText minute → hour ≤ 23 → minute ≤ 59 → TimeText (hourText ++ 58 :: minuteText) hour minute 0
  | seconds {hourText minuteText secondText : List UInt8} {hour minute second : ℕ} : TwoDigits hourText hour →
      TwoDigits minuteText minute → TwoDigits secondText second → hour ≤ 23 → minute ≤ 59 → second ≤ 59 →
      TimeText (hourText ++ 58 :: (minuteText ++ 58 :: secondText)) hour minute second

/-- A zone, with the seconds by which its time is ahead. -/
inductive ZoneText : List UInt8 → ℤ → Prop where
  | universal {text name : List UInt8} : name ∈ zoneNames → sameText text name = true → ZoneText text 0
  | east {hourText minuteText : List UInt8} {hours minutes : ℕ} : TwoDigits hourText hours →
      TwoDigits minuteText minutes → hours ≤ 23 → minutes ≤ 59 →
      ZoneText (43 :: (hourText ++ minuteText)) ((hours * 60 + minutes) * 60 : ℕ)
  | west {hourText minuteText : List UInt8} {hours minutes : ℕ} : TwoDigits hourText hours →
      TwoDigits minuteText minutes → hours ≤ 23 → minutes ≤ 59 →
      ZoneText (45 :: (hourText ++ minuteText)) (-((hours * 60 + minutes) * 60 : ℕ))

inductive WeekdayPart : List (List UInt8) → Option ℕ → Prop where
  | absent : WeekdayPart [] none
  | present {text : List UInt8} {weekday : ℕ} : WeekdayText text weekday → WeekdayPart [text] (some weekday)

/-- The value spells these fields, with blanks between them and white space around. -/
inductive Spells : List UInt8 → Option ℕ → Date → ℕ → ℕ → ℕ → ℤ → Prop where
  | mk {lead trail text dayText monthText yearText timeText zoneText : List UInt8} {first : List (List UInt8)}
      {weekday : Option ℕ} {date : Date} {hour minute second : ℕ} {offset : ℤ}
      (hlead : ∀ c ∈ lead, isSpace c = true) (htrail : ∀ c ∈ trail, isSpace c = true)
      (hweekday : WeekdayPart first weekday) (hday : DayText dayText date.day) (hmonth : MonthText monthText date.month)
      (hyear : YearText yearText date.year) (htime : TimeText timeText hour minute second) (hzone : ZoneText zoneText offset)
      (hwords : Separated isBlank (first ++ [dayText, monthText, yearText, timeText, zoneText]) text) :
      Spells (lead ++ text ++ trail) weekday date hour minute second offset

/-! ## The token array -/

/-- The loop keeps the tokens that are not empty, in their order. -/
theorem compactLoop_take (left read write : ℕ) (tokens : List (List UInt8)) (hleft : left = tokens.length - read)
    (hwrite : write ≤ read) :
    (compactLoop left read write tokens).1.take (compactLoop left read write tokens).2 =
      tokens.take write ++ (tokens.drop read).filter fun token => !token.isEmpty := by
  induction left generalizing read write tokens with
  | zero => rw [compactLoop, List.drop_eq_nil_of_le (by omega), List.filter_nil, List.append_nil]
  | succ left ih =>
    have hread : read < tokens.length := by omega
    rw [compactLoop, List.getElem?_eq_getElem hread, List.drop_eq_getElem_cons hread]
    cases htoken : tokens[read] with
    | nil =>
      simp only
      rw [ih (read + 1) write tokens (by omega) (by omega), List.filter_cons_of_neg (by simp)]
    | cons c rest =>
      simp only
      by_cases hsame : read = write
      · rw [if_neg (not_not_intro hsame), ih (read + 1) (write + 1) tokens (by omega) (by omega),
          List.filter_cons_of_pos (by simp), ← hsame, List.take_succ_eq_append_getElem hread, htoken, List.append_assoc]
        rfl
      · have htake : (tokens.set write (c :: rest)).take (write + 1) = tokens.take write ++ [c :: rest] := by
          rw [List.take_succ_eq_append_getElem (by rw [List.length_set]; omega), List.getElem_set_self,
            List.take_set_of_le le_rfl]
        have hdrop : (tokens.set write (c :: rest)).drop (read + 1) = tokens.drop (read + 1) :=
          List.drop_set_of_lt (by omega)
        rw [if_pos hsame, ih (read + 1) (write + 1) _ (by rw [List.length_set]; omega) (by omega),
          List.filter_cons_of_pos (by simp), htake, hdrop, List.append_assoc]
        rfl

theorem compact_eq (tokens : List (List UInt8)) : compact tokens = tokens.filter fun token => !token.isEmpty := by
  have h := compactLoop_take tokens.length 0 0 tokens rfl le_rfl
  rw [List.take_zero, List.nil_append, List.drop_zero] at h
  exact h

/-! ## The fields -/

theorem parseUintToken_eq_some {text : List UInt8} {minLen maxLen n : ℕ} :
    parseUintToken text minLen maxLen = some n ↔ Digits text n ∧ minLen ≤ text.length ∧ text.length ≤ maxLen := by
  rw [parseUintToken]
  constructor
  · intro h
    split at h
    · cases h
    · split at h
      · cases h
      · split at h
        · cases h
        · rename_i hne hlength hdigits
          simp only [Bool.not_eq_true', Bool.not_eq_false, List.all_eq_true] at hdigits
          exact ⟨⟨hne, hdigits, Option.some.inj h⟩, by omega, by omega⟩
  · rintro ⟨⟨hne, hdigits, rfl⟩, hmin, hmax⟩
    rw [if_neg hne, if_neg (by omega), if_neg (by simpa using hdigits)]

theorem twoDigits_iff {text : List UInt8} {n : ℕ} : parseUintToken text 2 2 = some n ↔ TwoDigits text n := by
  rw [parseUintToken_eq_some, TwoDigits]
  exact and_congr_right fun _ => ⟨fun h => by omega, fun h => by omega⟩

theorem day_iff {text : List UInt8} {day : ℕ} : parseUintToken text 1 2 = some day ↔ DayText text day := by
  rw [parseUintToken_eq_some, DayText]
  refine and_congr_right fun h => ⟨fun h => h.2, fun hle => ⟨?_, hle⟩⟩
  exact List.length_pos_of_ne_nil h.ne_nil

/-- Names are compared without regard to case. -/
theorem findIdx?_of_same {α : Type} {names : List α} {matches' : List UInt8 → α → Bool} {text text' : List UInt8}
    (hcongr : ∀ name, matches' text name = matches' text' name) :
    names.findIdx? (matches' text) = names.findIdx? (matches' text') := by
  rw [funext hcongr]

theorem sameText_iff {text other : List UInt8} : sameText text other = true ↔ text.map toLower = other.map toLower := by
  simp [sameText]

theorem month_iff {text : List UInt8} {month : ℕ} : parseMonth text = some month ↔ MonthText text month := by
  constructor
  · intro h
    obtain ⟨i, hfind, rfl⟩ := Option.map_eq_some_iff.mp h
    obtain ⟨hlt, hname, -⟩ := List.findIdx?_eq_some_iff_getElem.mp hfind
    exact ⟨i, months[i], List.getElem?_eq_getElem hlt, hname, rfl⟩
  · rintro ⟨i, name, hi, hname, rfl⟩
    have hcongr : ∀ other, sameText text other = sameText name other := fun other => by
      rw [sameText_iff] at hname
      simp [sameText, hname]
    have hall : ∀ i < months.length, (months[i]?.bind fun name => months.findIdx? (sameText name)) = some i := by decide
    have hfound := hall i (List.getElem?_eq_some_iff.mp hi).1
    rw [hi, Option.bind_some] at hfound
    rw [parseMonth, findIdx?_of_same hcongr, hfound]
    rfl

theorem weekday_iff {text : List UInt8} {weekday : ℕ} : parseWeekday text = some weekday ↔ WeekdayText text weekday := by
  constructor
  · intro h
    rw [parseWeekday] at h
    split at h
    · cases h
    · split at h
      · cases h
      · rename_i hcomma hlength
        obtain ⟨i, hfind, rfl⟩ := Option.map_eq_some_iff.mp h
        obtain ⟨hlt, hname, -⟩ := List.findIdx?_eq_some_iff_getElem.mp hfind
        rw [Bool.or_eq_true] at hname
        simp only [endsWithComma, Bool.not_eq_true', decide_eq_false_iff_not, not_not] at hcomma
        refine ⟨i, weekdays[i], text.dropLast, List.getElem?_eq_getElem hlt, ?_, hname, rfl⟩
        exact (List.dropLast_append_getLast? 44 hcomma).symm
  · rintro ⟨i, names, name, hi, rfl, hname, rfl⟩
    have hall : ∀ i < weekdays.length, (weekdays[i]?.all fun names =>
        decide (0 < names.1.length ∧ 0 < names.2.length) &&
        (weekdays.findIdx? fun other => sameText names.1 other.1 || sameText names.1 other.2) == some i &&
        (weekdays.findIdx? fun other => sameText names.2 other.1 || sameText names.2 other.2) == some i) = true := by
      decide
    have hfound := hall i (List.getElem?_eq_some_iff.mp hi).1
    simp only [hi, Option.all_some, Bool.and_eq_true, beq_iff_eq, decide_eq_true_eq] at hfound
    obtain ⟨⟨⟨hfirst, hsecond⟩, habbrev⟩, hfull⟩ := hfound
    have hcongr : ∀ {whole : List UInt8}, sameText name whole = true → ∀ other : List UInt8 × List UInt8,
        (sameText name other.1 || sameText name other.2) = (sameText whole other.1 || sameText whole other.2) := by
      intro whole hsame other
      rw [sameText_iff] at hsame
      simp [sameText, hsame]
    have hlength : ∀ {whole : List UInt8}, sameText name whole = true → name.length = whole.length := fun hsame => by
      simpa using congrArg List.length (sameText_iff.mp hsame)
    have hindex : (weekdays.findIdx? fun other => sameText name other.1 || sameText name other.2) = some i := by
      rcases hname with hname | hname
      · rw [funext (hcongr hname), habbrev]
      · rw [funext (hcongr hname), hfull]
    have hpos : ¬(name ++ [44]).length ≤ 1 := by
      rcases hname with hname | hname
      · have := hlength hname
        rw [List.length_append, List.length_singleton]
        omega
      · have := hlength hname
        rw [List.length_append, List.length_singleton]
        omega
    rw [parseWeekday, if_neg (by simp [endsWithComma]), if_neg hpos, List.dropLast_concat]
    simp only [hindex, Option.map_some]

theorem year_iff {text : List UInt8} {year : ℕ} : parseYear text = some year ↔ YearText text year := by
  constructor
  · intro h
    rw [parseYear] at h
    split at h
    · cases h
    · cases hdigits : parseUintToken text text.length text.length with
      | none => simp [hdigits] at h
      | some n =>
        rename_i hlength
        obtain ⟨hdigits', -, -⟩ := parseUintToken_eq_some.mp hdigits
        simp only [hdigits] at h
        split at h
        · rename_i htwo
          cases h
          split
          · exact .late hdigits' htwo ‹_›
          · exact .recent hdigits' htwo (by omega)
        · split at h
          · rename_i hthree
            cases h
            exact .three hdigits' hthree
          · split at h
            · cases h
            · cases h
              exact .four hdigits' (by omega) (by omega)
  · intro h
    have hparse : ∀ {n}, Digits text n → parseUintToken text text.length text.length = some n := fun hdigits =>
      parseUintToken_eq_some.mpr ⟨hdigits, le_rfl, le_rfl⟩
    cases h with
    | recent hdigits hlength hlt => simp only [parseYear, hparse hdigits]; simp [hlength, Nat.not_le.mpr hlt]
    | late hdigits hlength hle => simp only [parseYear, hparse hdigits]; simp [hlength, hle]
    | three hdigits hlength => simp only [parseYear, hparse hdigits]; simp [hlength]
    | four hdigits hlength hle => simp only [parseYear, hparse hdigits]; simp [hlength, Nat.not_lt.mpr hle]

theorem TwoDigits.no_colon {text : List UInt8} {n : ℕ} (h : TwoDigits text n) : ∀ c ∈ text, (c == 58) = false := by
  intro c hc
  have hdigit := h.1.digits c hc
  rw [beq_eq_false_iff_ne]
  rintro rfl
  cases hdigit

theorem time_iff {text : List UInt8} {hour minute second : ℕ} :
    parseTime text = some (hour, minute, second) ↔ TimeText text hour minute second := by
  constructor
  · intro h
    have hjoin : [58].intercalate (text.splitOnP (· == 58)) = text := List.intercalate_splitOn 58
    unfold parseTime at h
    split at h
    · rename_i hourText minuteText hsplit
      rw [hsplit] at hjoin
      simp only [Option.bind_eq_bind, Option.bind_eq_some_iff, twoDigits_iff] at h
      obtain ⟨hour', hhour, minute', hminute, h⟩ := h
      split at h
      · cases h
      · cases h
        rw [← hjoin]
        simpa [List.intercalate] using TimeText.minutes hhour hminute (by omega) (by omega)
    · rename_i hourText minuteText secondText hsplit
      rw [hsplit] at hjoin
      simp only [Option.bind_eq_bind, Option.bind_eq_some_iff, twoDigits_iff] at h
      obtain ⟨hour', hhour, minute', hminute, second', hsecond, h⟩ := h
      split at h
      · cases h
      · cases h
        rw [← hjoin]
        simpa [List.intercalate] using TimeText.seconds hhour hminute hsecond (by omega) (by omega) (by omega)
    · cases h
  · intro h
    cases h with
    | minutes hhour hminute hle hle' =>
      rw [parseTime, List.splitOnP_append_cons_of_forall_mem hhour.no_colon 58 rfl,
        List.splitOnP_eq_singleton hminute.no_colon]
      simp [twoDigits_iff.mpr hhour, twoDigits_iff.mpr hminute, Nat.not_lt.mpr hle, Nat.not_lt.mpr hle']
    | seconds hhour hminute hsecond hle hle' hle'' =>
      rw [parseTime, List.splitOnP_append_cons_of_forall_mem hhour.no_colon 58 rfl,
        List.splitOnP_append_cons_of_forall_mem hminute.no_colon 58 rfl, List.splitOnP_eq_singleton hsecond.no_colon]
      simp [twoDigits_iff.mpr hhour, twoDigits_iff.mpr hminute, twoDigits_iff.mpr hsecond, Nat.not_lt.mpr hle,
        Nat.not_lt.mpr hle', Nat.not_lt.mpr hle'']

theorem offset_not_named {sign : UInt8} (hsign : sign = 43 ∨ sign = 45) (rest : List UInt8) :
    zoneNames.any (sameText (sign :: rest)) = false := by
  rw [List.any_eq_false]
  intro name hname hsame
  have hhead := congrArg List.head? (sameText_iff.mp hsame)
  rw [List.map_cons, List.head?_cons] at hhead
  have hletters : ∀ name ∈ zoneNames, ∃ c, (name.map toLower).head? = some c ∧ c ≠ 43 ∧ c ≠ 45 := by
    simp only [zoneNames, List.map_cons, List.map_nil, List.forall_mem_cons]
    exact ⟨⟨103, rfl, by decide⟩, ⟨117, rfl, by decide⟩, ⟨117, rfl, by decide⟩, by simp⟩
  obtain ⟨c, hc, hplus, hminus⟩ := hletters name hname
  rw [hc, Option.some.injEq] at hhead
  rcases hsign with rfl | rfl
  · exact hplus hhead.symm
  · exact hminus hhead.symm

theorem offset_parsed {sign : UInt8} (hsign : sign = 43 ∨ sign = 45) {hourText minuteText : List UInt8} {hours minutes : ℕ}
    (hhours : TwoDigits hourText hours) (hminutes : TwoDigits minuteText minutes) (hle : hours ≤ 23) (hle' : minutes ≤ 59) :
    parseTimezoneOffsetSeconds (sign :: (hourText ++ minuteText)) =
      some ((if sign = 45 then (-1 : ℤ) else 1) * ((hours * 60 + minutes) * 60 : ℕ)) := by
  have hlength : hourText.length = 2 := hhours.2
  have hlength' : minuteText.length = 2 := hminutes.2
  have htake : (hourText ++ minuteText).take 2 = hourText := List.take_left' hlength
  have hdrop : (hourText ++ minuteText).drop 2 = minuteText := List.drop_left' hlength
  have hminuteTake : minuteText.take 2 = minuteText := List.take_of_length_le (by omega)
  have hform : ¬((sign :: (hourText ++ minuteText)).length ≠ 5 ∨
      ((sign :: (hourText ++ minuteText)).head? ≠ some 43 ∧ (sign :: (hourText ++ minuteText)).head? ≠ some 45)) := by
    simp only [List.length_cons, List.length_append, hlength, hlength', List.head?_cons, ne_eq, Option.some.injEq]
    rintro (hne | ⟨hplus, hminus⟩)
    · exact absurd trivial hne
    · exact hsign.elim hplus hminus
  rw [parseTimezoneOffsetSeconds, offset_not_named hsign, if_neg (by simp), if_neg hform]
  simp only [List.drop_succ_cons, List.drop_zero, htake, hdrop, hminuteTake, twoDigits_iff.mpr hhours,
    twoDigits_iff.mpr hminutes, List.head?_cons, Option.some.injEq, Option.bind_eq_bind, Option.bind_some]
  rw [if_neg (by omega)]

theorem zone_iff {text : List UInt8} {offset : ℤ} : parseTimezoneOffsetSeconds text = some offset ↔ ZoneText text offset := by
  constructor
  · intro h
    rw [parseTimezoneOffsetSeconds] at h
    split at h
    · rename_i hnamed
      cases h
      obtain ⟨name, hname, hsame⟩ := List.any_eq_true.mp hnamed
      exact .universal hname hsame
    · split at h
      · cases h
      · rename_i hform
        simp only [not_or, ne_eq, not_not, not_and_or] at hform
        obtain ⟨hlength, hsign⟩ := hform
        simp only [Option.bind_eq_bind, Option.bind_eq_some_iff, twoDigits_iff] at h
        obtain ⟨hours, hhours, minutes, hminutes, h⟩ := h
        split at h
        · cases h
        · rename_i hrange
          rcases text with _ | ⟨sign, rest⟩
          · cases hlength
          · rw [List.length_cons] at hlength
            have hrest : rest = (rest.take 2) ++ (rest.drop 2).take 2 := by
              rw [List.take_of_length_le (by rw [List.length_drop]; omega : (rest.drop 2).length ≤ 2), List.take_append_drop]
            simp only [List.drop_succ_cons, List.drop_zero] at hhours hminutes
            rw [hrest]
            simp only [List.head?_cons, Option.some.injEq] at hsign h
            rcases hsign with rfl | rfl
            · simp only [show ((43 : UInt8) = 45) = False from by decide, if_false, one_mul] at h
              subst h
              exact .east hhours hminutes (by omega) (by omega)
            · simp only [if_true, neg_mul, one_mul] at h
              subst h
              exact .west hhours hminutes (by omega) (by omega)
  · intro h
    cases h with
    | universal hname hsame =>
      rw [parseTimezoneOffsetSeconds, if_pos (List.any_eq_true.mpr ⟨_, hname, hsame⟩)]
    | east hhours hminutes hle hle' => simpa using offset_parsed (.inl rfl) hhours hminutes hle hle'
    | west hhours hminutes hle hle' => simpa using offset_parsed (.inr rfl) hhours hminutes hle hle'

end Wyrebox.Rfc5322Date
