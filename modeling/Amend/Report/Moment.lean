/-!
# Moments

A moment is a minute of universal time, counted from the start of the year 1970, with
seconds and nanoseconds in it.  It is written as a date and a time of day, with no more than
the groups of three decimals that it needs.

The calendar is the Gregorian one at all times.  Years are taken to start in March, so that
the day that leap years have more is the last of the year.
-/

namespace Amend

structure Moment where
  /-- Minutes since the start of 1970. -/
  minute : Int
  second : Nat := 0
  nanosecond : Nat := 0
deriving DecidableEq, Repr

namespace Moment

/-- The days from the start of 1970 up to a date. -/
def daysTo (year : Int) (month day : Nat) : Int :=
  let year := if month ≤ 2 then year - 1 else year
  let era := year.fdiv 400
  let yearOfEra := year - era * 400
  let monthFromMarch : Nat := (month + 9) % 12
  let dayOfYear : Int := (153 * monthFromMarch + 2) / 5 + day - 1
  let dayOfEra := yearOfEra * 365 + yearOfEra / 4 - yearOfEra / 100 + dayOfYear
  era * 146097 + dayOfEra - 719468

/-- The year, the month and the day that come a number of days after the start of 1970. -/
def dateOf (days : Int) : Int × Nat × Nat :=
  let days := days + 719468
  let era := days.fdiv 146097
  let dayOfEra := (days - era * 146097).toNat
  let yearOfEra := (dayOfEra - dayOfEra / 1460 + dayOfEra / 36524 - dayOfEra / 146096) / 365
  let dayOfYear := dayOfEra - (365 * yearOfEra + yearOfEra / 4 - yearOfEra / 100)
  let monthFromMarch := (5 * dayOfYear + 2) / 153
  let day := dayOfYear - (153 * monthFromMarch + 2) / 5 + 1
  let month := (monthFromMarch + 2) % 12 + 1
  let year := era * 400 + yearOfEra
  (if month ≤ 2 then year + 1 else year, month, day)

/-- A number with zeros in front of it up to a width. -/
def padded (width n : Nat) : String :=
  let digits := (Nat.toDigits 10 n)
  String.ofList (List.replicate (width - digits.length) '0' ++ digits)

/-- A year in four digits; a year outside four digits has a sign. -/
def yearText (year : Int) : String :=
  if 0 ≤ year ∧ year ≤ 9999 then padded 4 year.toNat
  else if 0 ≤ year then "+" ++ padded 4 year.toNat
  else "-" ++ padded 4 year.natAbs

/-- The decimals of a second, in none, one, two or three groups of three. -/
def decimals (nanosecond : Nat) : String :=
  if nanosecond = 0 then ""
  else if nanosecond % 1000000 = 0 then "." ++ padded 3 (nanosecond / 1000000)
  else if nanosecond % 1000 = 0 then "." ++ padded 6 (nanosecond / 1000)
  else "." ++ padded 9 nanosecond

/-- The text of a moment. -/
def text (m : Moment) : String :=
  let days := m.minute.fdiv 1440
  let minuteOfDay := (m.minute - days * 1440).toNat
  let (year, month, day) := dateOf days
  yearText year ++ "-" ++ padded 2 month ++ "-" ++ padded 2 day ++ "T" ++ padded 2 (minuteOfDay / 60)
    ++ ":" ++ padded 2 (minuteOfDay % 60) ++ ":" ++ padded 2 m.second ++ decimals m.nanosecond ++ "Z"

/-- The moment a number of seconds and nanoseconds after the start of 1970. -/
def ofSeconds (seconds nanosecond : Nat) : Moment :=
  ⟨Int.ofNat (seconds / 60), seconds % 60, nanosecond⟩

/-- Read a number of so many digits. -/
def readDigits (count : Nat) (cs : List Char) : Option (Nat × List Char) :=
  let digits := cs.take count
  if digits.length = count ∧ digits.all Char.isDigit then
    some (digits.foldl (fun n c => 10 * n + (c.toNat - 48)) 0, cs.drop count)
  else none

/-- Pass over one of some characters. -/
def skip (allowed : List Char) : List Char → Option (List Char)
  | [] => none
  | c :: cs => if c ∈ allowed then some cs else none

/-- Read the decimals of a second, if there are any, up to nanoseconds. -/
def readDecimals : List Char → Option (Nat × List Char)
  | '.' :: cs =>
    let digits := cs.takeWhile Char.isDigit
    if digits = [] then none
    else (readDigits 9 ((digits ++ List.replicate 9 '0').take 9)).map fun (n, _) =>
      (n, cs.dropWhile Char.isDigit)
  | cs => some (0, cs)

/-- Read the minutes by which a clock is ahead of universal time. -/
def readOffset : List Char → Option (Int × List Char)
  | c :: cs =>
    if c = 'Z' ∨ c = 'z' then some (0, cs)
    else do
      let sign : Int ← if c = '+' then some 1 else if c = '-' then some (-1) else none
      let (hours, cs) ← readDigits 2 cs
      let (minutes, cs) ← readDigits 2 (← skip [':'] cs)
      return (sign * (60 * hours + minutes), cs)
  | [] => none

/-- Read a date, a time of day and the offset of the clock. -/
def ofText? (s : String) : Option Moment := do
  let (year, cs) ← readDigits 4 s.toList
  let (month, cs) ← readDigits 2 (← skip ['-'] cs)
  let (day, cs) ← readDigits 2 (← skip ['-'] cs)
  let (hour, cs) ← readDigits 2 (← skip ['T', 't', ' '] cs)
  let (minute, cs) ← readDigits 2 (← skip [':'] cs)
  let (second, cs) ← readDigits 2 (← skip [':'] cs)
  let (nanosecond, cs) ← readDecimals cs
  let (offset, cs) ← readOffset cs
  if cs = [] ∧ 1 ≤ month ∧ month ≤ 12 ∧ 1 ≤ day ∧ hour < 24 ∧ minute < 60 ∧ second ≤ 60 then
    return ⟨daysTo year month day * 1440 + Int.ofNat (60 * hour + minute) - offset, second, nanosecond⟩
  else none

end Moment

end Amend
