import Mathlib.Data.List.Forall2
import Wyrebox.EmlMetadata
import Wyrebox.EncodedWords
import Wyrebox.Gregorian
import Wyrebox.NumberText
import Wyrebox.SplitWords

set_option autoImplicit false

/-!
# Dates of messages

The instant that a `Date` field names: an optional weekday, the day, the time of day and the zone.
-/
namespace Wyrebox.Rfc5322Date
open Gregorian CString
open EncodedWords (strip)
open Eml (toLower)
open JournalRecord (ascii)

/-! ## Tokens -/

/-- `parse_uint_token`. Four digits are far from the limits of `g_ascii_strtoll`. -/
def parseUintToken (token : List UInt8) (minLen maxLen : ℕ) : Option ℕ :=
  if token = [] then none
  else if token.length < minLen ∨ maxLen < token.length then none
  else if !token.all isDigit then none
  else some (decimalValue token)

/-- `g_ascii_strcasecmp` answers 0. -/
def sameText (text other : List UInt8) : Bool := text.map toLower = other.map toLower

def months : List (List UInt8) :=
  ["Jan", "Feb", "Mar", "Apr", "May", "Jun", "Jul", "Aug", "Sep", "Oct", "Nov", "Dec"].map ascii

/-- `parse_month`. -/
def parseMonth (token : List UInt8) : Option ℕ := (months.findIdx? (sameText token)).map (· + 1)

/-- The abbreviations and the names, from Monday, which is 1. -/
def weekdays : List (List UInt8 × List UInt8) :=
  [("Mon", "Monday"), ("Tue", "Tuesday"), ("Wed", "Wednesday"), ("Thu", "Thursday"), ("Fri", "Friday"),
    ("Sat", "Saturday"), ("Sun", "Sunday")].map fun names => (ascii names.1, ascii names.2)

def endsWithComma (token : List UInt8) : Bool := token.getLast? = some 44

/-- `parse_weekday`. -/
def parseWeekday (token : List UInt8) : Option ℕ :=
  if !endsWithComma token then none
  else if token.length ≤ 1 then none
  else
    let weekday := token.dropLast
    (weekdays.findIdx? fun names => sameText weekday names.1 || sameText weekday names.2).map (· + 1)

/-- `parse_year`. -/
def parseYear (token : List UInt8) : Option ℕ :=
  let len := token.length
  if len < 2 ∨ 4 < len then none
  else
    match parseUintToken token len len with
    | none => none
    | some year =>
      if len = 2 then some (year + if 50 ≤ year then 1900 else 2000)
      else if len = 3 then some (year + 1900)
      else if year < 1900 then none
      else some year

/-- `parse_time`: the hour, the minute and the second. -/
def parseTime (token : List UInt8) : Option (ℕ × ℕ × ℕ) :=
  match token.splitOnP (· == 58) with
  | [hourText, minuteText] => do
    let hour ← parseUintToken hourText 2 2
    let minute ← parseUintToken minuteText 2 2
    if 23 < hour ∨ 59 < minute then none else some (hour, minute, 0)
  | [hourText, minuteText, secondText] => do
    let hour ← parseUintToken hourText 2 2
    let minute ← parseUintToken minuteText 2 2
    let second ← parseUintToken secondText 2 2
    if 23 < hour ∨ 59 < minute ∨ 59 < second then none else some (hour, minute, second)
  | _ => none

def zoneNames : List (List UInt8) := ["GMT", "UTC", "UT"].map ascii

/-- `parse_timezone_offset_seconds`. -/
def parseTimezoneOffsetSeconds (token : List UInt8) : Option ℤ :=
  if zoneNames.any (sameText token) then some 0
  else if token.length ≠ 5 ∨ (token.head? ≠ some 43 ∧ token.head? ≠ some 45) then none
  else do
    let hours ← parseUintToken ((token.drop 1).take 2) 2 2
    let minutes ← parseUintToken ((token.drop 3).take 2) 2 2
    if 23 < hours ∨ 59 < minutes then none
    else some ((if token.head? = some 45 then -1 else 1) * ((hours * 60 + minutes) * 60 : ℕ))

/-! ## The token array -/

/-- The separators of `g_strsplit_set`. -/
def isBlank (c : UInt8) : Bool := c = 32 ∨ c = 9

/-- The loop that moves the tokens to the front of the array, over those that are empty: the array and
    the number of tokens that stay. -/
def compactLoop : ℕ → ℕ → ℕ → List (List UInt8) → List (List UInt8) × ℕ
  | 0, _, write, tokens => (tokens, write)
  | left + 1, read, write, tokens =>
    match tokens[read]? with
    | none => (tokens, write)
    | some [] => compactLoop left (read + 1) write tokens
    | some token =>
      compactLoop left (read + 1) (write + 1) (if read ≠ write then tokens.set write token else tokens)

/-- The array up to its new end. -/
def compact (tokens : List (List UInt8)) : List (List UInt8) :=
  let (tokens, count) := compactLoop tokens.length 0 0 tokens
  tokens.take count

/-- `skip_weekday_token`: where the date starts, and the weekday if there is one. -/
def skipWeekdayToken (tokens : List (List UInt8)) : Option (ℕ × Option ℕ) :=
  match tokens with
  | first :: _ :: _ =>
    if !endsWithComma first then some (0, none) else (parseWeekday first).map fun weekday => (1, some weekday)
  | _ => some (0, none)

/-! ## The instant -/

/-- `g_date_time_new_utc`: the day and the second of the day. -/
def dateTimeNewUtc (year month day hour minute second : ℕ) : Option (Date × ℕ) :=
  if h : 0 < year ∧ year ≤ 9999 ∧ 0 < month ∧ month ≤ 12 ∧ 0 < day ∧ day ≤ daysInMonth year month ∧
      hour ≤ 23 ∧ minute ≤ 59 ∧ second ≤ 59 then
    some (⟨year, month, day, h.1, h.2.2.1, h.2.2.2.1, h.2.2.2.2.1, h.2.2.2.2.2.1⟩, (hour * 60 + minute) * 60 + second)
  else none

section
-- the instants, in seconds, that `g_date_time_add_seconds` can return
variable (reaches : ℤ → Bool)

/-- The end of `wyrebox_rfc5322_date_parse_unix_us`, when the fields are read. -/
def instantOf (weekday : Option ℕ) (year month day hour minute second : ℕ) (offsetSeconds : ℤ) : Option ℤ := do
  let (date, secondOfDay) ← dateTimeNewUtc year month day hour minute second
  if weekday.any (· ≠ date.weekday) then none
  else
    let utc := unixSeconds date secondOfDay - offsetSeconds
    if reaches utc then some (utc * 1000000) else none

/-- `wyrebox_rfc5322_date_parse_unix_us`. -/
def parseUnixUs (value : Option CString) : Option ℤ :=
  match value with
  | none => none
  | some value =>
    let stripped := strip value.bytes
    if stripped = [] then none
    else
      let tokens := compact (stripped.splitOnP isBlank)
      match skipWeekdayToken tokens with
      | none => none
      | some (start, weekday) =>
        match tokens.drop start with
        | [dayText, monthText, yearText, timeText, zoneText] => do
          let day ← parseUintToken dayText 1 2
          let month ← parseMonth monthText
          let year ← parseYear yearText
          let (hour, minute, second) ← parseTime timeText
          let offsetSeconds ← parseTimezoneOffsetSeconds zoneText
          instantOf reaches weekday year month day hour minute second offsetSeconds
        | _ => none

end

end Wyrebox.Rfc5322Date
