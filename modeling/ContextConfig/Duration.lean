import ContextConfig.Decimal.Nearest
import ContextConfig.Text.Blank
import ContextConfig.Text.Digit
import ContextConfig.Text.Split
/-!
# Durations

A timeout is written as a signed row of decimal numbers, each followed by a unit: `300ms`,
`-1.5h`, `2h45m`. Blanks around it do not matter, a bare `0` needs no unit, and a text without
anything in it sets no timeout. `Duration.readChars` accepts exactly this grammar and keeps the
components; `Duration.seconds` adds them up.
-/

namespace ContextConfig

inductive TimeUnit where
  | nanosecond
  | microsecond
  | microsecondMicroSign
  | microsecondMu
  | millisecond
  | second
  | minute
  | hour
  deriving DecidableEq, Repr

namespace TimeUnit

def spelling : TimeUnit → List Char
  | nanosecond => ['n', 's']
  | microsecond => ['u', 's']
  | microsecondMicroSign => ['\u00B5', 's']
  | microsecondMu => ['\u03BC', 's']
  | millisecond => ['m', 's']
  | second => ['s']
  | minute => ['m']
  | hour => ['h']

/-- The length of the unit in seconds. -/
def seconds : TimeUnit → Float
  | nanosecond => Decimal.toFloat 1 (-9)
  | microsecond | microsecondMicroSign | microsecondMu => Decimal.toFloat 1 (-6)
  | millisecond => Decimal.toFloat 1 (-3)
  | second => Decimal.toFloat 1 0
  | minute => Decimal.toFloat 60 0
  | hour => Decimal.toFloat 3600 0

/-- The units in the order in which they are tried; `ms` comes before `m`. -/
def all : List TimeUnit :=
  [nanosecond, microsecond, microsecondMicroSign, microsecondMu, millisecond, second, minute, hour]

/-- The unit a text starts with, and the rest of the text. -/
def read (text : List Char) : Option (TimeUnit × List Char) :=
  all.findSome? fun unit => (Text.after? unit.spelling text).map (unit, ·)

end TimeUnit

namespace Duration

/-- A number as it is written, and its unit. -/
structure Component where
  number : List Char
  unit : TimeUnit
  deriving DecidableEq, Repr

def Component.text (c : Component) : List Char := c.number ++ c.unit.spelling

/-- The longest decimal number a text starts with, and the rest: digits with an optional point and
further digits, or a point and digits. -/
def readNumber (text : List Char) : Option (List Char × List Char) :=
  match text.takeWhile Text.isDecimalDigit, text.dropWhile Text.isDecimalDigit with
  | [], '.' :: rest =>
    match rest.takeWhile Text.isDecimalDigit with
    | [] => none
    | fraction => some ('.' :: fraction, rest.dropWhile Text.isDecimalDigit)
  | [], _ => none
  | whole, '.' :: rest =>
    some (whole ++ '.' :: rest.takeWhile Text.isDecimalDigit, rest.dropWhile Text.isDecimalDigit)
  | whole, rest => some (whole, rest)

/-- Read components until the text ends. Each takes a character at least, so the length of the
text bounds their number. -/
def readComponents : Nat → List Char → Option (List Component)
  | _, [] => some []
  | 0, _ :: _ => none
  | fuel + 1, text@(_ :: _) =>
    (readNumber text).bind fun (number, rest) =>
      (TimeUnit.read rest).bind fun (unit, rest) =>
        (readComponents fuel rest).map (⟨number, unit⟩ :: ·)

end Duration

/-- A duration as it is written. -/
inductive Duration where
  | zero
  | sum (negative : Bool) (components : List Duration.Component)
  deriving DecidableEq, Repr

namespace Duration

inductive Reading where
  | unset
  | malformed
  | read (duration : Duration)
  deriving DecidableEq, Repr

/-- The duration a text stands for. -/
def readChars (value : List Char) : Reading :=
  match Text.trim value with
  | [] => .unset
  | text =>
    match Text.splitSign text with
    | (_, ['0']) => .read .zero
    | (_, []) => .malformed
    | (negative, body) =>
      match readComponents body.length body with
      | some components => .read (.sum negative components)
      | none => .malformed

/-- The number of a component as a double. -/
def Component.amount (c : Component) : Float :=
  let whole := c.number.takeWhile (· ≠ '.')
  let fraction := (c.number.dropWhile (· ≠ '.')).drop 1
  Decimal.toFloat (Text.digitsValue 10 (whole ++ fraction)) (-(fraction.length : Int))

/-- The length in seconds to nine decimal places. Components are added from left to right. -/
def seconds : Duration → Float
  | zero => Decimal.toFloat 0 0
  | sum negative components =>
    let total := components.foldl (fun total c => total + c.amount * c.unit.seconds)
      (Decimal.toFloat 0 0)
    Decimal.roundPlaces 9 (if negative then -total else total)

/-- Whether a text sets no timeout or a proper one. -/
def accepts (value : String) : Bool := readChars value.toList != .malformed

end Duration
end ContextConfig
