import Mathlib.Data.Finset.Image
import Taas.Deploy.Schedule
import Taas.Infra.Regex
import Taas.Strings

/-!
# The schedule expression

`parse_schedule` of `deploy/box/scheduler/schedule.py`: what `OCR_UP_SCHEDULE` says.
-/

namespace Taas.Box

open Infra

/-- `_DAY_NUMBERS` -/
def dayNumbers : List (String × Int) :=
  [("mon", 0), ("tue", 1), ("wed", 2), ("thu", 3), ("fri", 4), ("sat", 5), ("sun", 6)]

/-- `_ALL_DAYS` -/
def allDays : Finset Int := (Finset.range 7).image Int.ofNat

def minutesPerDay : Int := 24 * 60

/-- `_ALWAYS_WORDS` -/
def alwaysWords : List String := ["", "always", "all", "24/7"]

/-- `_NEVER_WORDS` -/
def neverWords : List String := ["never", "off", "none"]

/-- The words of `parse_days` for a whole week. -/
def dailyWords : List String := ["daily", "everyday", "all"]

/-- The groups of `_ENTRY_RE`. -/
inductive Part where
  | days
  | start
  | stop
deriving DecidableEq

/-- Why an expression could not be parsed, with the text that is quoted. -/
inductive ScheduleError where
  | badTime (token : String)
  | timeOutOfRange (token : String)
  | unknownDay (day : String)
  | noDays (token : String)
  | badEntry (entry : String)
  | emptyWindow (entry : String)
  | noWindows (text : String)
deriving DecidableEq

/-- `str(error)`, with `repr` for the quoted text. -/
def ScheduleError.message (repr : String → String) : ScheduleError → String
  | badTime token => "bad time " ++ repr token ++ " (want HH:MM)"
  | timeOutOfRange token => "time out of range: " ++ repr token
  | unknownDay day => "unknown day " ++ repr day
  | noDays token => "no days in " ++ repr token
  | badEntry entry => "bad entry " ++ repr entry ++ " (want 'Mon-Fri 18:00-07:00')"
  | emptyWindow entry => "empty window in " ++ repr entry ++ " (use 00:00-24:00 for all day)"
  | noWindows text => "no windows in " ++ repr text

section Parse

variable (cases : CaseTable) (digits : DigitTable)

/-! ## Patterns -/

/-- A character that is none but this one. -/
def char (c : Char) : Regex Char Part := .one (· = c)

/-- `\s*` -/
def blanks : Regex Char Part := .many false isSpace 0 none

/-- `\d{1,2}:\d{2}` -/
def timeRe : Regex Char Part :=
  .seq (.many false digits.isDigit 1 (some 2))
    (.seq (char ':') (.many false digits.isDigit 2 (some 2)))

/-- `[A-Za-z,\- ]` -/
def inDays (c : Char) : Bool := c.isAlpha || c = ',' || c = '-' || c = ' '

/-- The end of `_ENTRY_RE`, from the first time on. -/
def timesRe : Regex Char Part :=
  .seq (.group .start (timeRe digits))
    (.seq blanks
      (.seq (char '-')
        (.seq blanks
          (.seq (.group .stop (timeRe digits)) (.stop (· = '\n'))))))

/-- `_ENTRY_RE` -/
def entryRe : Regex Char Part :=
  .seq .start
    (.seq (.group .days (.many true inDays 1 none))
      (.seq (.many false isSpace 1 none) (timesRe digits)))

/-- `_ENTRY_SPLIT`: a semicolon, or a comma that follows a time. -/
def entrySplit : Regex Char Part :=
  .alt (char ';') (.seq (.behind digits.isDigit) (.seq blanks (char ',')))

/-! ## Parsing -/

/-- Minutes past midnight for `HH:MM`; `24:00` is the end of the day. -/
def parseTime (token : String) : Except ScheduleError Int :=
  let (hours, minutes) := partition ':' token
  match digits.int hours, digits.int minutes with
  | some hours, some minutes =>
    let total := hours * 60 + minutes
    if ¬(0 ≤ total ∧ total ≤ minutesPerDay) ∨ 59 < minutes then .error (.timeOutOfRange token)
    else .ok total
  | _, _ => .error (.badTime token)

/-- `_DAY_NUMBERS.get(name.lower()[:3])` -/
def dayNumber (name : String) : Option Int :=
  dayNumbers.lookup (String.ofList ((cases.lower name).toList.take 3))

/-- One part of a day list, added to the days before it. -/
def addDays (days : Finset Int) (part : String) : Except ScheduleError (Finset Int) :=
  if part = "" then .ok days
  else if cases.lower part ∈ dailyWords then .ok (days ∪ allDays)
  else
    let (first, last) := partition '-' part
    match dayNumber cases first with
    | none => .error (.unknownDay first)
    | some start =>
      if '-' ∉ part.toList then .ok (insert start days)
      else
        match dayNumber cases last with
        | none => .error (.unknownDay last)
        | some stop =>
          -- inclusive, and round the end of the week
          let span := (stop - start) % 7
          .ok (days ∪ (Finset.range (span + 1).toNat).image fun offset : Nat => (start + offset) % 7)

/-- The days of `Mon`, `Mon-Fri`, `Sat,Sun` or `Fri-Mon`. -/
def parseDays (token : String) : Except ScheduleError (Finset Int) := do
  let parts := split ',' (String.ofList (token.toList.filter (· ≠ ' ')))
  let days ← parts.foldlM (addDays cases) ∅
  if days = ∅ then .error (.noDays token) else .ok days

/-- One piece of the expression, after the windows before it. -/
def addEntry (windows : List Window) (chunk : String) : Except ScheduleError (List Window) :=
  let entry := strip chunk
  if entry = "" then .ok windows
  else
    match (entryRe digits).first? [] entry.toList with
    | none => .error (.badEntry entry)
    | some found => do
      let start ← parseTime digits (String.ofList (found.group .start))
      let stop ← parseTime digits (String.ofList (found.group .stop))
      if start = stop then .error (.emptyWindow entry)
      else
        let days ← parseDays cases (String.ofList (found.group .days))
        .ok (windows ++ [{ days, start, stop }])

/-- The windows of an expression: one of all week for `always` and for nothing, none for `never`. -/
def parseSchedule (text : String) : Except ScheduleError (List Window) := do
  let cleaned := strip text
  if cases.lower cleaned ∈ alwaysWords then
    .ok [{ days := allDays, start := 0, stop := minutesPerDay }]
  else if cases.lower cleaned ∈ neverWords then .ok []
  else
    let chunks := ((entrySplit digits).split cleaned.toList).map String.ofList
    let windows ← chunks.foldlM (addEntry cases digits) []
    if windows = [] then .error (.noWindows text) else .ok windows

end Parse

end Taas.Box
