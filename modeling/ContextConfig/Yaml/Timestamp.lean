import ContextConfig.Text.Digit
import ContextConfig.Text.Split
/-!
# Timestamps

A date, or a date with a time of day, a fraction of a second and a zone. Reading follows the form
alone; whether there is such a day and such a time is checked afterwards.
-/

namespace ContextConfig.Yaml

structure Date where
  year : Nat
  month : Nat
  day : Nat
  deriving DecidableEq, Repr

/-- A time of day; the zone is its distance from UTC in seconds. -/
structure TimeOfDay where
  hour : Nat
  minute : Nat
  second : Nat
  microsecond : Nat
  zone : Option Int
  deriving DecidableEq, Repr

structure Timestamp where
  date : Date
  time : Option TimeOfDay
  deriving DecidableEq, Repr

namespace Timestamp

/-- A given number of digits. -/
def digits : Nat → List Char → Option (List Char × List Char)
  | 0, text => some ([], text)
  | n + 1, c :: text =>
    if c.isDigit then (digits n text).map fun (more, rest) => (c :: more, rest) else none
  | _ + 1, [] => none

def number (n : Nat) (text : List Char) : Option (Nat × List Char) :=
  (digits n text).map fun (chars, rest) => (Text.digitsValue 10 chars, rest)

/-- A number of two digits or one. -/
def shortNumber (text : List Char) : Option (Nat × List Char) := (number 2 text).or (number 1 text)

def isBlank (c : Char) : Bool := c = ' ' || c = '\t'

/-- A fraction of a second as microseconds; further digits are cut off. -/
def microseconds (fraction : List Char) : Nat :=
  Text.digitsValue 10 ((fraction ++ List.replicate 6 '0').take 6)

/-- The zone at the end of a timestamp. -/
def zone (text : List Char) : Option (Option Int) :=
  match text with
  | [] => some none
  | _ =>
    match text.dropWhile isBlank with
    | ['Z'] => some (some 0)
    | sign :: rest =>
      if sign = '-' || sign = '+' then do
        let (hours, rest) ← shortNumber rest
        let minutes ← match rest with
          | [] => some 0
          | ':' :: rest => do
            let (minutes, rest) ← number 2 rest
            if rest = [] then some minutes else none
          | _ => none
        let seconds : Int := (hours * 60 + minutes : Nat) * 60
        return some (if sign = '-' then -seconds else seconds)
      else none
    | [] => none

def timeOfDay (text : List Char) : Option TimeOfDay := do
  let (hour, rest) ← shortNumber text
  let rest ← Text.after? [':'] rest
  let (minute, rest) ← number 2 rest
  let rest ← Text.after? [':'] rest
  let (second, rest) ← number 2 rest
  let (fraction, rest) := match rest with
    | '.' :: rest => (rest.takeWhile Char.isDigit, rest.dropWhile Char.isDigit)
    | rest => ([], rest)
  let zone ← zone rest
  return { hour, minute, second, microsecond := microseconds fraction, zone }

def ofLine (text : List Char) : Option Timestamp := do
  let (year, rest) ← number 4 text
  let rest ← Text.after? ['-'] rest
  let (month, rest) ← shortNumber rest
  let rest ← Text.after? ['-'] rest
  let (day, rest) ← shortNumber rest
  match rest with
  | [] => return { date := { year, month, day }, time := none }
  | c :: rest =>
    let time ←
      if c = 'T' || c = 't' then timeOfDay rest
      else if isBlank c then timeOfDay (rest.dropWhile isBlank)
      else none
    return { date := { year, month, day }, time := some time }

/-- The timestamp that a text has the form of. One line feed at the end is overlooked. -/
def ofText (text : List Char) : Option Timestamp :=
  ofLine (if text.getLast? = some '\n' then text.dropLast else text)

end Timestamp

namespace Date

def isLeapYear (year : Nat) : Bool := year % 4 = 0 && (year % 100 ≠ 0 || year % 400 = 0)

def daysInMonth (year month : Nat) : Nat :=
  if month = 2 then if isLeapYear year then 29 else 28
  else if [4, 6, 9, 11].contains month then 30
  else 31

/-- Whether there is such a day. -/
def isValid (d : Date) : Bool :=
  1 ≤ d.year && 1 ≤ d.month && d.month ≤ 12 && 1 ≤ d.day && d.day ≤ daysInMonth d.year d.month

/-- The number of days since the day before year one. -/
def days (d : Date) : Nat :=
  let past := d.year - 1
  past * 365 + past / 4 - past / 100 + past / 400
    + (List.range (d.month - 1)).foldl (fun days m => days + daysInMonth d.year (m + 1)) 0 + d.day

def text (d : Date) : List Char :=
  Text.paddedDecimal 4 d.year ++ '-' :: Text.twoDigits d.month ++ '-' :: Text.twoDigits d.day

end Date

namespace TimeOfDay

/-- Whether there is such a time. A zone is less than a day away. -/
def isValid (t : TimeOfDay) : Bool :=
  t.hour < 24 && t.minute < 60 && t.second < 60 && t.zone.all fun zone => zone.natAbs < 86400

def zoneText (zone : Int) : List Char :=
  let minutes := zone.natAbs / 60
  (if zone < 0 then '-' else '+') ::
    Text.twoDigits (minutes / 60) ++ ':' :: Text.twoDigits (minutes % 60)

def text (t : TimeOfDay) : List Char :=
  Text.twoDigits t.hour ++ ':' :: Text.twoDigits t.minute ++ ':' :: Text.twoDigits t.second
    ++ (if t.microsecond = 0 then [] else '.' :: Text.paddedDecimal 6 t.microsecond)
    ++ (t.zone.map zoneText).getD []

/-- Microseconds since midnight. -/
def microseconds (t : TimeOfDay) : Nat :=
  ((t.hour * 60 + t.minute) * 60 + t.second) * 1000000 + t.microsecond

end TimeOfDay

namespace Timestamp

def isValid (t : Timestamp) : Bool := t.date.isValid && t.time.all TimeOfDay.isValid

def text (t : Timestamp) : List Char :=
  t.date.text ++ (t.time.map fun time => ' ' :: time.text).getD []

/-- Microseconds since the start of year one, in UTC where a zone is given. -/
def instant (t : Timestamp) : Int :=
  let time := (t.time.map TimeOfDay.microseconds).getD 0
  let zone := ((t.time.bind (·.zone)).getD 0) * 1000000
  (t.date.days * 86400000000 + time : Nat) - zone

end Timestamp
end ContextConfig.Yaml
