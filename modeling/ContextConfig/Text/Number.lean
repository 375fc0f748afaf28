import ContextConfig.Decimal.Nearest
import ContextConfig.Text.Blank
import ContextConfig.Text.Digit
import ContextConfig.Text.Hex
import ContextConfig.Text.Split
/-!
# Numbers in texts

Integers in any base and decimal fractions, with decimal digits of any script. Blanks around a
number do not matter, one sign may precede it, and single underscores may separate the digits of an
integer.
-/

namespace ContextConfig.Text

/-- The most digits of an integer in a base that is no power of two. -/
def maxIntegerDigits : Nat := 4300

/-- The value of a digit in bases up to sixteen. -/
def baseDigit? (c : Char) : Option Nat := (digitValue? c).or (hexValue? c)

/-- The letter that marks a base after a zero. -/
def baseMark? : Nat → Option (Char × Char)
  | 2 => some ('b', 'B')
  | 8 => some ('o', 'O')
  | 16 => some ('x', 'X')
  | _ => none

/-- Digits without the mark of their base; an underscore may follow the mark. -/
def dropBaseMark (base : Nat) (digits : List Char) : List Char :=
  match baseMark? base, digits with
  | some (lower, upper), '0' :: c :: rest =>
    if c = lower || c = upper then
      match rest with
      | '_' :: rest => rest
      | rest => rest
    else digits
  | _, _ => digits

/-- The number that digits stand for in a base, if they are all digits of that base. -/
def readDigits (base : Nat) (digits : List Char) : Option Nat :=
  digits.foldlM (fun value c => do
    let d ← baseDigit? c
    if d < base then some (value * base + d) else none) 0

/-- The integer that a text stands for in a base. -/
def readInteger (base : Nat) (text : List Char) : Option Int :=
  let (negative, digits) := splitSign (trim text)
  let parts := splitOn '_' (dropBaseMark base digits)
  if parts.any (·.isEmpty) then none
  else if (baseMark? base).isNone && maxIntegerDigits < parts.flatten.length then none
  else (readDigits base parts.flatten).map fun n => if negative then -(n : Int) else n

/-- An exponent: its letter, an optional sign and digits. -/
def readExponentPart : List Char → Option Int
  | [] => some 0
  | c :: rest =>
    if c = 'e' || c = 'E' then
      let (negative, digits) := splitSign rest
      if digits = [] || !digits.all isDecimalDigit then none
      else
        let n : Int := digitsValue 10 digits
        some (if negative then -n else n)
    else none

/-- The double nearest to a decimal fraction. -/
def readFraction (text : List Char) : Option Float :=
  let whole := text.takeWhile isDecimalDigit
  let rest := text.dropWhile isDecimalDigit
  let (fraction, rest) := match rest with
    | '.' :: rest => (rest.takeWhile isDecimalDigit, rest.dropWhile isDecimalDigit)
    | rest => ([], rest)
  if whole = [] && fraction = [] then none
  else (readExponentPart rest).map fun exponent =>
    Decimal.toFloat (digitsValue 10 (whole ++ fraction)) (exponent - fraction.length)

/-- The double that a text stands for, which may be infinite or no number. -/
def readFloat (text : List Char) : Option Float :=
  let (negative, size) := splitSign (trim text)
  let lower := String.ofList (size.map Char.toLower)
  let value :=
    if lower = "inf" || lower = "infinity" then some (Decimal.toFloat 1 1000)
    else if lower = "nan" then some (Decimal.toFloat 1 1000 - Decimal.toFloat 1 1000)
    else readFraction size
  value.map fun x => if negative then -x else x

end ContextConfig.Text
