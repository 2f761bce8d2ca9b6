import Amend.Toml.Value

/-!
# Bare TOML values

Values that are written without delimiters: truth values, numbers, dates and times.
-/

namespace Amend.Toml

/-- Cut `count` digits off a list of characters, as a number. -/
def takeNumber (count : Nat) (cs : List Char) : Option (Nat × List Char) :=
  let front := cs.take count
  if front.length = count ∧ front.all Char.isDigit then
    some (front.foldl (fun n c => 10 * n + (c.toNat - 48)) 0, cs.drop count)
  else none

/-- The digits of a number without the underscores, which stand singly between digits. -/
def plainDigits (isDigit : Char → Bool) : List Char → Option (List Char)
  | [] => none
  | [c] => if isDigit c then some [c] else none
  | c :: '_' :: rest => if isDigit c then (plainDigits isDigit rest).map (c :: ·) else none
  | c :: rest => if isDigit c then (plainDigits isDigit rest).map (c :: ·) else none

/-- The value of a digit up to `f`. -/
def digitValue (c : Char) : Nat :=
  if c.isDigit then c.toNat - 48 else c.toLower.toNat - 87

/-- A number written in digits of a base. -/
def inBase (base : Nat) (cs : List Char) : Option Nat :=
  (plainDigits (fun c => (c.isDigit || ('a' ≤ c.toLower && c.toLower ≤ 'f')) && digitValue c < base) cs).map
    fun ds => ds.foldl (fun n c => base * n + digitValue c) 0

/-- Take the sign off a number; `true` for a minus. -/
def takeSign : List Char → Bool × List Char
  | '-' :: rest => (true, rest)
  | '+' :: rest => (false, rest)
  | cs => (false, cs)

/-- The decimal digits of a number that has no zero in front. -/
def decimalDigits (cs : List Char) : Option (List Char) :=
  match plainDigits Char.isDigit cs with
  | some ('0' :: _ :: _) => none
  | ds => ds

/-- An integer. -/
def integer? : List Char → Option Int
  | '0' :: 'x' :: cs => (inBase 16 cs).map Int.ofNat
  | '0' :: 'o' :: cs => (inBase 8 cs).map Int.ofNat
  | '0' :: 'b' :: cs => (inBase 2 cs).map Int.ofNat
  | cs =>
    let (negative, cs) := takeSign cs
    (decimalDigits cs).bind fun _ => (inBase 10 cs).map fun n => if negative then -Int.ofNat n else Int.ofNat n

/-- Whether `digits` times ten to the power of `exponent` lies nearer to the power `2 ^ 1024`
than to the greatest double. -/
def exceedsDoubles (digits : Nat) (exponent : Int) : Bool :=
  let bound := Nat.pow 2 1024 - Nat.pow 2 970
  let places : Int := (Nat.toDigits 10 digits).length
  if digits = 0 then false
  else if 400 < places + exponent then true
  else if places + exponent < 0 then false
  else if 0 ≤ exponent then bound ≤ digits * Nat.pow 10 exponent.toNat
  else bound * Nat.pow 10 (-exponent).toNat ≤ digits

/-- A float, as whether it exceeds all doubles. -/
def float? (cs : List Char) : Option Bool :=
  let (_, cs) := takeSign cs
  if cs = "inf".toList ∨ cs = "nan".toList then some false
  else
    let whole := cs.takeWhile fun c => c != '.' && c != 'e' && c != 'E'
    let afterWhole := cs.dropWhile fun c => c != '.' && c != 'e' && c != 'E'
    match decimalDigits whole with
    | none => none
    | some wholeDigits =>
      let fraction? : Option (List Char) := match afterWhole with
        | '.' :: rest => plainDigits Char.isDigit (rest.takeWhile fun c => c != 'e' && c != 'E')
        | _ => some []
      let afterFraction := afterWhole.dropWhile fun c => c != 'e' && c != 'E'
      let exponent? : Option (Option Int) := match afterFraction with
        | [] => some none
        | _ :: rest =>
          let (negative, rest) := takeSign rest
          (inBase 10 rest).map fun n => some (if negative then -Int.ofNat n else Int.ofNat n)
      match fraction?, exponent? with
      | some fraction, some exponent =>
        if fraction = [] ∧ exponent = none then none
        else
          let digits := (wholeDigits ++ fraction).foldl (fun n c => 10 * n + digitValue c) 0
          some (exceedsDoubles digits (exponent.getD 0 - Int.ofNat fraction.length))
      | _, _ => none

/-- The number of days of a month. -/
def daysIn (year month : Nat) : Nat :=
  if month = 2 then
    if year % 4 = 0 ∧ (year % 100 ≠ 0 ∨ year % 400 = 0) then 29 else 28
  else if month = 4 ∨ month = 6 ∨ month = 9 ∨ month = 11 then 30
  else 31

/-- Take a date off the front. -/
def takeDate (cs : List Char) : Option (List Char) :=
  match takeNumber 4 cs with
  | some (year, '-' :: cs) =>
    match takeNumber 2 cs with
    | some (month, '-' :: cs) =>
      match takeNumber 2 cs with
      | some (day, cs) =>
        if 1 ≤ month ∧ month ≤ 12 ∧ 1 ≤ day ∧ day ≤ daysIn year month then some cs else none
      | none => none
    | _ => none
  | _ => none

/-- Take the fraction of a second off the front, if there is one. -/
def takeFraction : List Char → Option (List Char)
  | '.' :: cs => if (cs.takeWhile Char.isDigit).isEmpty then none else some (cs.dropWhile Char.isDigit)
  | cs => some cs

/-- Take a time of day off the front; the seconds may be left out. -/
def takeTime (cs : List Char) : Option (List Char) :=
  match takeNumber 2 cs with
  | some (hour, ':' :: cs) =>
    match takeNumber 2 cs with
    | some (minute, cs) =>
      if hour ≤ 23 ∧ minute ≤ 59 then
        match cs with
        | ':' :: cs =>
          match takeNumber 2 cs with
          | some (second, cs) => if second ≤ 60 then takeFraction cs else none
          | none => none
        | cs => some cs
      else none
    | none => none
  | _ => none

/-- Take a distance from universal time off the front, if there is one. -/
def takeOffset : List Char → Option (List Char)
  | 'Z' :: cs => some cs
  | 'z' :: cs => some cs
  | c :: cs =>
    if c = '+' ∨ c = '-' then
      match takeNumber 2 cs with
      | some (hours, ':' :: cs) =>
        match takeNumber 2 cs with
        | some (minutes, cs) => if hours * 60 + minutes ≤ 1440 ∧ minutes ≤ 59 then some cs else none
        | none => none
      | _ => none
    else some (c :: cs)
  | [] => some []

/-- Whether the characters are a date, a time of day, or both. -/
def isTime (cs : List Char) : Bool :=
  match takeDate cs with
  | some [] => true
  | some (c :: cs) =>
    (c == 'T' || c == 't' || c == ' ') && ((takeTime cs).bind takeOffset) == some []
  | none => takeTime cs == some []

/-- A bare value. -/
def bare? (cs : List Char) : Option Value :=
  if cs = "true".toList then some (.boolean true)
  else if cs = "false".toList then some (.boolean false)
  else if isTime cs then some .time
  else
    match integer? cs with
    | some n => some (.integer n)
    | none => (float? cs).map .float

/-- Whether a character may stand in a bare value. -/
def isBareValueChar (c : Char) : Bool :=
  c.isAlphanum || c == '_' || c == '+' || c == '-' || c == '.' || c == ':'

/-- Take a bare value off the front.  A date may go on with a time of day after a blank. -/
def takeBare (cs : List Char) : Option (Value × List Char) :=
  let word := cs.takeWhile isBareValueChar
  let rest := cs.dropWhile isBareValueChar
  match takeDate word, rest with
  | some [], ' ' :: more =>
    if (more.head?.any Char.isDigit) then
      (bare? (word ++ ' ' :: more.takeWhile isBareValueChar)).map (·, more.dropWhile isBareValueChar)
    else (bare? word).map (·, rest)
  | _, _ => (bare? word).map (·, rest)

end Amend.Toml
