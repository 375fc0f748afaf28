import ContextConfig.Decimal.Nearest
import ContextConfig.Text.Digit
/-!
# Shortest decimals

The text of a double has the fewest digits that read back as the same double, and of those digits
the ones nearest to its value. For one digit, two digits and so on up to seventeen, the two
neighbours of the value on that decimal grid are tried; the first grid with a hit decides.
-/

namespace ContextConfig.Decimal

/-- Digits as a number, and the place of the point: the value is `0.digits * 10 ^ point`. -/
structure Shortest where
  digits : Nat
  count : Nat
  point : Int
  deriving DecidableEq, Repr

/-- A number of decimal places beyond those of the smallest double. -/
def places : Nat := 400

/-- The size of a finite double as a quotient. -/
def Binary.quotient (b : Binary) : Nat × Nat :=
  (b.significand * Nat.pow 2 b.exponent.toNat, Nat.pow 2 (-b.exponent).toNat)

/-- The place of the point before the first digit of `num / den`. -/
def pointOf (num den : Nat) : Int :=
  ((Text.decimal (num * Nat.pow 10 places / den)).length : Int) - places

/-- The multiple of `10 ^ exponent` that is nearest to `num / den` among its two neighbours that
read back as the same double. -/
def onGrid (num den : Nat) (exponent : Int) : Option Nat :=
  let num' := num * Nat.pow 10 (-exponent).toNat
  let den' := den * Nat.pow 10 exponent.toNat
  let low := num' / den'
  let readsBack (n : Nat) : Bool :=
    nearestBits (n * Nat.pow 10 exponent.toNat) (Nat.pow 10 (-exponent).toNat)
      == nearestBits num den
  let lowFits := readsBack low
  let highFits := readsBack (low + 1)
  if lowFits && highFits then
    some (if roundDiv num' den' = low then low else low + 1)
  else if lowFits then some low
  else if highFits then some (low + 1)
  else none

/-- Try grids of ever more digits. -/
def shortestFrom (num den : Nat) (point : Int) : Nat → Nat → Shortest
  | 0, count => ⟨(onGrid num den (point - count)).getD 0, count, point⟩
  | fuel + 1, count =>
    match onGrid num den (point - count) with
    | some digits => ⟨digits, count, point⟩
    | none => shortestFrom num den point fuel (count + 1)

def shortest (num den : Nat) : Shortest := shortestFrom num den (pointOf num den) 16 1

/-- The digits without zeros at their end, and the place of the point before the first. -/
def Shortest.significant (s : Shortest) : List Char × Int :=
  let chars := Text.decimal s.digits
  let point := s.point + ((chars.length : Int) - s.count)
  match (chars.reverse.dropWhile (· = '0')).reverse with
  | [] => (['0'], 1)
  | chars => (chars, point)

/-- A double as text: positional from 0.0001 to below 10^16, with a fraction in any case, and else
with an exponent of two digits at least. -/
def text (x : Float) : List Char :=
  match Binary.ofFloat? x with
  | none =>
    if x.isNaN then "nan".toList else if x < toFloat 0 0 then "-inf".toList else "inf".toList
  | some b =>
    let sign := if b.negative then ['-'] else []
    let (digits, point) :=
      if b.significand = 0 then (['0'], 1)
      else (shortest b.quotient.1 b.quotient.2).significant
    sign ++
      if -4 < point && point ≤ 16 then
        if point ≤ 0 then '0' :: '.' :: List.replicate (-point).toNat '0' ++ digits
        else
          let whole := digits.take point.toNat
          let zeros := List.replicate (point.toNat - whole.length) '0'
          let fraction := digits.drop point.toNat
          whole ++ zeros ++ '.' :: (if fraction = [] then ['0'] else fraction)
      else
        let exponent := point - 1
        let mantissa := match digits with
          | d :: e :: rest => d :: '.' :: e :: rest
          | digits => digits
        mantissa ++ ['e', if exponent < 0 then '-' else '+'] ++ Text.twoDigits exponent.natAbs

end ContextConfig.Decimal
