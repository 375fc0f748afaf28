/-!
# Exact rounding between decimals and doubles

A finite double is a natural number times a power of two, so every question of rounding is one
about a quotient of natural numbers. `roundDiv` rounds such a quotient to the nearest natural
number, and a tie to the even one; reading a decimal and rounding a double to a number of decimal
places are both built on it.
-/

namespace ContextConfig.Decimal

/-- The natural number nearest to `num / den`; a tie goes to the even one. -/
def roundDiv (num den : Nat) : Nat :=
  let quotient := num / den
  let twice := 2 * (num % den)
  if twice < den then quotient
  else if den < twice then quotient + 1
  else quotient + quotient % 2

theorem roundDiv_mul (n : Nat) {den : Nat} (h : 0 < den) : roundDiv (n * den) den = n := by
  simp [roundDiv, Nat.mul_div_cancel _ h, h]

/-- The size of a finite double: `significand * 2 ^ exponent`. -/
structure Binary where
  negative : Bool
  significand : Nat
  exponent : Int
  deriving DecidableEq, Repr

/-- The parts of a double; none of an infinity or what is not a number. -/
def Binary.ofFloat? (x : Float) : Option Binary :=
  let bits := x.toBits.toNat
  let negative := decide (Nat.pow 2 63 ≤ bits)
  let field : Nat := bits / Nat.pow 2 52 % 2048
  let fraction := bits % Nat.pow 2 52
  if field = 2047 then none
  else if field = 0 then some ⟨negative, fraction, -1074⟩
  else some ⟨negative, Nat.pow 2 52 + fraction, (field : Int) - 1075⟩

/-- The bits of the double nearest to `num / den`; a size beyond the largest double is infinite.
The exponent of the last place is the one that leaves 53 binary digits, and never below that of
the smallest double. -/
def nearestBits (num den : Nat) : Nat :=
  if num = 0 then 0
  else
    let guess : Int := (num.log2 : Int) - den.log2 - 53
    let place := max guess (-1074)
    let scaled (place : Int) : Nat :=
      roundDiv (num * Nat.pow 2 (-place).toNat) (den * Nat.pow 2 place.toNat)
    let first := scaled place
    let place := if Nat.pow 2 53 ≤ first then place + 1 else place
    let digits := if Nat.pow 2 53 ≤ first then scaled place else first
    min ((place + 1074).toNat * Nat.pow 2 52 + digits) 0x7FF0000000000000

/-- The double nearest to `num / den`. -/
def nearestFloat (num den : Nat) : Float := Float.ofBits (nearestBits num den).toUInt64

/-- The double nearest to `significand * 10 ^ exponent`. Exponents far outside the range of doubles
need no power of ten: the answer is then zero or infinite. -/
def toFloat (significand : Nat) (exponent : Int) : Float :=
  let digits : Int := significand.log2 / 3
  if significand = 0 || exponent + digits < -500 then nearestFloat 0 1
  else if 500 < exponent then nearestFloat (Nat.pow 2 2000) 1
  else nearestFloat (significand * Nat.pow 10 exponent.toNat) (Nat.pow 10 (-exponent).toNat)

/-- A double rounded to a number of decimal places, as the double nearest to the rounded decimal.
A double that is no finite number, or a whole one, stays as it is. -/
def roundPlaces (places : Nat) (x : Float) : Float :=
  match Binary.ofFloat? x with
  | none => x
  | some ⟨negative, significand, exponent⟩ =>
    if 0 ≤ exponent then x
    else
      let rounded := roundDiv (significand * Nat.pow 10 places) (Nat.pow 2 (-exponent).toNat)
      let size := nearestFloat rounded (Nat.pow 10 places)
      if negative then -size else size

end ContextConfig.Decimal
