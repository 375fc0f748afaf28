/-!
# Hexadecimal digits

Character codes are written with a fixed number of hexadecimal digits, in the case that the format
asks for, and read in either case.
-/

namespace ContextConfig.Text

inductive LetterCase where
  | upper
  | lower
  deriving DecidableEq, Repr

/-- The digit of a value below sixteen. -/
def hexDigit (letters : LetterCase) (n : Nat) : Char :=
  if n < 10 then Char.ofNat (48 + n)
  else match letters with
    | .upper => Char.ofNat (55 + n)
    | .lower => Char.ofNat (87 + n)

/-- The last `width` hexadecimal digits of a number. -/
def hexDigits (letters : LetterCase) : Nat → Nat → List Char
  | 0, _ => []
  | width + 1, n => hexDigits letters width (n / 16) ++ [hexDigit letters (n % 16)]

/-- The value of a hexadecimal digit in either case. -/
def hexValue? (c : Char) : Option Nat :=
  if '0' ≤ c && c ≤ '9' then some (c.toNat - 48)
  else if 'a' ≤ c && c ≤ 'f' then some (c.toNat - 87)
  else if 'A' ≤ c && c ≤ 'F' then some (c.toNat - 55)
  else none

def isHexDigit (c : Char) : Bool := (hexValue? c).isSome

/-- The number that a list of hexadecimal digits stands for, if it holds nothing else. -/
def hexNumber? (digits : List Char) : Option Nat :=
  digits.foldlM (fun value c => (hexValue? c).map (value * 16 + ·)) 0

@[simp] theorem length_hexDigits (letters : LetterCase) (width n : Nat) :
    (hexDigits letters width n).length = width := by
  induction width generalizing n with
  | zero => rfl
  | succ width ih => simp [hexDigits, ih]

theorem hexValue?_hexDigit (letters : LetterCase) :
    ∀ n < 16, hexValue? (hexDigit letters n) = some n := by
  cases letters <;> decide

/-- Reading what was written gives the number back, as far as the width reaches. -/
theorem hexNumber?_hexDigits (letters : LetterCase) (width n : Nat) :
    hexNumber? (hexDigits letters width n) = some (n % Nat.pow 16 width) := by
  induction width generalizing n with
  | zero => simp [hexDigits, hexNumber?, Nat.mod_one]
  | succ width ih =>
    have h := ih (n / 16)
    rw [hexNumber?] at h ⊢
    rw [hexDigits, List.foldlM_append, h]
    have hdigit := hexValue?_hexDigit letters (n % 16) (Nat.mod_lt _ (by decide))
    simp only [Option.bind_eq_bind, Option.bind_some, List.foldlM_cons, List.foldlM_nil, hdigit,
      Option.map_some, Option.pure_def]
    rw [show Nat.pow 16 (width + 1) = 16 * Nat.pow 16 width from Nat.mul_comm _ _, Nat.mod_mul]
    congr 1
    omega

end ContextConfig.Text
