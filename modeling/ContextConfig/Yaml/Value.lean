import ContextConfig.Decimal.Shortest
import ContextConfig.Document
import ContextConfig.Text.Number
import ContextConfig.Text.Quoted
import ContextConfig.Yaml.Stop
import ContextConfig.Yaml.Tag
import ContextConfig.Yaml.Timestamp
/-!
# Values of scalars

A tag turns the text of a scalar into a value, if there is one. Values are compared when they are
names of fields: numbers by their size, whatever their kind, and points in time with a zone by
their instant. A name that is no text is known by the text that shows the value.
-/

namespace ContextConfig.Yaml

inductive Value where
  | null
  | bool (value : Bool)
  | text (text : List Char)
  | integer (value : Int)
  | float (value : Float)
  | timestamp (value : Timestamp)
  | bytes (bytes : List UInt8)

namespace Value

def unrepresentable {α : Type} : Except Stop α := .error (.fault .unrepresentable)

/-- A number in base sixty, from its places. -/
def sixtieths (places : List Int) : Int := places.foldl (fun value place => value * 60 + place) 0

/-- An integer: binary, hexadecimal and octal ones are marked by their start, and colons separate
the places of base sixty. -/
def readInteger (text : List Char) : Except Stop Int :=
  let text := text.filter (· ≠ '_')
  if text = [] then .error (.fault .noDigits)
  else
    let (negative, digits) := Text.splitSign text
    let size : Except Stop (Option Int) :=
      match digits with
      | [] => .error (.fault .noDigits)
      | ['0'] => .ok (some 0)
      | '0' :: 'b' :: digits => .ok (Text.readInteger 2 digits)
      | '0' :: 'x' :: digits => .ok (Text.readInteger 16 digits)
      | '0' :: _ => .ok (Text.readInteger 8 digits)
      | _ =>
        if digits.contains ':' then
          .ok (((Text.splitOn ':' digits).mapM (Text.readInteger 10)).map sixtieths)
        else .ok (Text.readInteger 10 digits)
    match size with
    | .error stop => .error stop
    | .ok none => unrepresentable
    | .ok (some n) => .ok (if negative then -n else n)

/-- Whole numbers from here on are too large for a double. -/
def floatLimit : Nat := Nat.pow 2 1024 - Nat.pow 2 970

/-- A number in base sixty, from its places; the last one is added first. What the first place counts
has to be a double. -/
def floatSixtieths (places : List Float) : Except Stop Float :=
  if floatLimit ≤ Nat.pow 60 (places.length - 1) then .error (.fault .tooLarge)
  else
    .ok (places.reverse.foldl (fun (value, base) place =>
      (value + place * Decimal.toFloat base 0, base * 60)) (Decimal.toFloat 0 0, 1)).1

/-- A decimal fraction, an infinity, or what is no number; colons separate the places of base
sixty. -/
def readFloat (text : List Char) : Except Stop Float :=
  let text := (text.filter (· ≠ '_')).map Char.toLower
  if text = [] then .error (.fault .noDigits)
  else
    let (negative, size) := Text.splitSign text
    let value :=
      if size = ['.', 'i', 'n', 'f'] then (Text.readFloat ['i', 'n', 'f']).map .ok
      else if size = ['.', 'n', 'a', 'n'] then (Text.readFloat ['n', 'a', 'n']).map .ok
      else if size.contains ':' then
        ((Text.splitOn ':' size).mapM Text.readFloat).map floatSixtieths
      else (Text.readFloat size).map .ok
    match value with
    | none => unrepresentable
    | some (.error stop) => .error stop
    | some (.ok x) => .ok (if negative then -x else x)

/-- The truth value of a word in any case. -/
def readBool (text : List Char) : Except Stop Bool :=
  let word := String.ofList (text.map Char.toLower)
  if ["yes", "true", "on"].contains word then .ok true
  else if ["no", "false", "off"].contains word then .ok false
  else .error (.fault .unknownWord)

/-- The value of a base 64 character. -/
def sextet? (c : Char) : Option Nat :=
  if 'A' ≤ c && c ≤ 'Z' then some (c.toNat - 65)
  else if 'a' ≤ c && c ≤ 'z' then some (c.toNat - 71)
  else if '0' ≤ c && c ≤ '9' then some (c.toNat + 4)
  else if c = '+' then some 62
  else if c = '/' then some 63
  else none

/-- Read base 64. `place` sextets of a group of four are read, `left` holds their bits that belong
to the next byte, and `pads` counts the padding since the last sextet. Other characters are passed
over; complete padding ends the text, and without it a group has to be complete. -/
def readBase64 (place left pads : Nat) : List Char → Option (List UInt8)
  | [] => if place = 0 then some [] else none
  | c :: rest =>
    if c = '=' then
      if 2 ≤ place then
        if 4 ≤ place + (pads + 1) then some [] else readBase64 place left (pads + 1) rest
      else readBase64 place left pads rest
    else
      match sextet? c with
      | none => readBase64 place left pads rest
      | some bits =>
        match place with
        | 0 => readBase64 1 bits 0 rest
        | 1 => (readBase64 2 (bits % 16) 0 rest).map ((left * 4 + bits / 16).toUInt8 :: ·)
        | 2 => (readBase64 3 (bits % 4) 0 rest).map ((left * 16 + bits / 4).toUInt8 :: ·)
        | _ => (readBase64 0 0 0 rest).map ((left * 64 + bits).toUInt8 :: ·)

def readBytes (text : List Char) : Except Stop (List UInt8) :=
  if text.all (·.toNat < 128) then
    match readBase64 0 0 0 text with
    | some content => .ok content
    | none => .error .malformed
  else .error .malformed

def readTimestamp (text : List Char) : Except Stop Timestamp :=
  match Timestamp.ofText text with
  | none => .error (.fault .notATimestamp)
  | some t => if t.isValid then .ok t else unrepresentable

/-- The value of a text under a tag; collections and unknown tags have none. -/
def ofText (tag : Tag) (text : List Char) : Except Stop Value :=
  match tag with
  | .null => .ok .null
  | .bool => (readBool text).map .bool
  | .int => (readInteger text).map .integer
  | .float => (readFloat text).map .float
  | .binary => (readBytes text).map .bytes
  | .timestamp => (readTimestamp text).map .timestamp
  | .str => .ok (.text text)
  | _ => .error .malformed

/-- The size of a number, the same for equal numbers of all kinds: an odd number times a power of
two. -/
inductive Size where
  | finite (negative : Bool) (odd : Nat) (exponent : Int)
  | infinite (negative : Bool)
  | undefined
  deriving DecidableEq, Repr

def Size.of (negative : Bool) (n : Nat) (exponent : Int) : Size :=
  if n = 0 then finite false 0 0
  else
    let even := Nat.gcd n (Nat.pow 2 n.log2)
    finite negative (n / even) (exponent + even.log2)

def Size.ofFloat (x : Float) : Size :=
  match Decimal.Binary.ofFloat? x with
  | some b => .of b.negative b.significand b.exponent
  | none => if x.isNaN then undefined else infinite (x < Decimal.toFloat 0 0)

/-- What two names must have in common to be the same. -/
inductive Identity where
  | null
  | text (text : List Char)
  | number (size : Size)
  | day (date : Date)
  | wallClock (microseconds : Int)
  | instant (microseconds : Int)
  | bytes (bytes : List UInt8)
  deriving DecidableEq, Repr

def identity : Value → Identity
  | null => .null
  | bool value => .number (.of false (if value then 1 else 0) 0)
  | text chars => .text chars
  | integer value => .number (.of (value < 0) value.natAbs 0)
  | float value => .number (.ofFloat value)
  | timestamp value =>
    match value.time with
    | none => .day value.date
    | some time => if time.zone.isSome then .instant value.instant else .wallClock value.instant
  | bytes value => .bytes value

/-- The text that shows a value; none if an integer is too long. -/
def shown : Value → Option (List Char)
  | null => some "None".toList
  | bool true => some "True".toList
  | bool false => some "False".toList
  | text chars => some chars
  | integer value =>
    let digits := Text.decimal value.natAbs
    if Text.maxIntegerDigits < digits.length then none
    else some (if value < 0 then '-' :: digits else digits)
  | float value => some (Decimal.text value)
  | timestamp value => some value.text
  | bytes value => some (Text.quotedBytes value)

/-- A value as the name of a field. -/
def key (v : Value) : Key :=
  match v with
  | text chars => .text (String.ofList chars)
  | v =>
    match v.shown with
    | some chars => .shown (String.ofList chars)
    | none => .unshowable

def document : Value → Document
  | null => .null
  | bool value => .bool value
  | text chars => .text (String.ofList chars)
  | integer _ => .other .integer
  | float _ => .other .float
  | timestamp value => .other (if value.time.isNone then .date else .datetime)
  | bytes _ => .other .bytes

end Value
end ContextConfig.Yaml
