import ContextConfig.Encoding
import ContextConfig.Fault
import ContextConfig.Json.Basic
import ContextConfig.Text.Split
/-!
# Reading JSON

The grammar is the standard one with `NaN`, `Infinity` and `-Infinity` added. Every reader takes
the text that is left and gives back what follows the thing it read; where it fails, it gives back
the text from the offending character on, so that the place of the failure can be told from the
length of what is left. An object that names a field twice keeps the first place and the last
value.
-/

namespace ContextConfig.Json

inductive Flaw where
  | value
  | fieldName
  | colon
  | comma
  | extraData
  | controlCharacter
  | unterminated
  | escape
  | unicodeEscape
  deriving DecidableEq, Repr

/-- Where reading stopped: at a flaw, with the text from there on, at an integer with more digits
than can be converted, or at a bracket inside too many others. -/
inductive Stop where
  | flaw (flaw : Flaw) (rest : List Char)
  | tooManyDigits
  | tooNested
  deriving DecidableEq, Repr

abbrev Step (α : Type) := Except Stop (α × List Char)

def isSpace (c : Char) : Bool := c = ' ' || c = '\t' || c = '\n' || c = '\r'

def skip (text : List Char) : List Char := text.dropWhile isSpace

/-- The character for the letter of a short escape. -/
def shortEscape? : Char → Option Char
  | '\x22' => some '\x22'
  | '\\' => some '\\'
  | '/' => some '/'
  | 'b' => some '\x08'
  | 'f' => some '\x0C'
  | 'n' => some '\n'
  | 'r' => some '\r'
  | 't' => some '\t'
  | _ => none

def isHighSurrogate (code : Nat) : Bool := 0xD800 ≤ code && code ≤ 0xDBFF

def isLowSurrogate (code : Nat) : Bool := 0xDC00 ≤ code && code ≤ 0xDFFF

/-- The character of a code; a surrogate on its own is none and is replaced. -/
def charOfCode (code : Nat) : Char :=
  if Encoding.isSurrogate code then Encoding.replacement else Char.ofNat code

/-- The code of four hexadecimal digits. It is only complete if another character follows. -/
def readCode? : List Char → Option (Nat × List Char)
  | a :: b :: c :: d :: next :: rest =>
    (Text.hexNumber? [a, b, c, d]).map fun code => (code, next :: rest)
  | _ => none

/-- The character of a code escape, from the letter `u` on. Two surrogates that belong together
make one character, as far as the text is long enough to hold the second one. -/
def readCodeEscape (digits : List Char) : Step Char :=
  match readCode? digits with
  | none => .error (.flaw .unicodeEscape ('u' :: digits))
  | some (code, rest) =>
    if isHighSurrogate code then
      match rest with
      | '\\' :: 'u' :: more =>
        if more.length < 5 then .ok (Encoding.replacement, rest)
        else match readCode? more with
          | none => .error (.flaw .unicodeEscape ('u' :: more))
          | some (low, rest') =>
            if isLowSurrogate low then .ok (Encoding.joinSurrogates code low, rest')
            else .ok (Encoding.replacement, rest)
      | _ => .ok (Encoding.replacement, rest)
    else .ok (charOfCode code, rest)

/-- A character of the string whose opening quote starts `opening`. -/
def readChar (opening : List Char) : List Char → Step Char
  | [] => .error (.flaw .unterminated opening)
  | '\\' :: rest =>
    match rest with
    | [] => .error (.flaw .unterminated opening)
    | 'u' :: digits => readCodeEscape digits
    | letter :: rest =>
      match shortEscape? letter with
      | some c => .ok (c, rest)
      | none => .error (.flaw .escape ('\\' :: letter :: rest))
  | c :: rest => if c < ' ' then .error (.flaw .controlCharacter (c :: rest)) else .ok (c, rest)

/-- The rest of the string whose opening quote starts `opening`. Every character takes one at
least, so the length of the text bounds their number. -/
def readString (opening : List Char) : Nat → List Char → Step (List Char)
  | 0, _ => .error (.flaw .unterminated opening)
  | fuel + 1, text =>
    match text with
    | '\x22' :: rest => .ok ([], rest)
    | text =>
      match readChar opening text with
      | .error stop => .error stop
      | .ok (c, rest) => (readString opening fuel rest).map fun (s, rest) => (c :: s, rest)

/-- A string, from its opening quote on. -/
def readQuoted (opening : List Char) : Step String :=
  (readString opening opening.length (opening.drop 1)).map fun (s, rest) => (String.ofList s, rest)

/-- The fraction a text starts with: a point and digits. -/
def readFraction : List Char → List Char × List Char
  | '.' :: rest =>
    match rest.takeWhile Char.isDigit with
    | [] => ([], '.' :: rest)
    | digits => ('.' :: digits, rest.dropWhile Char.isDigit)
  | text => ([], text)

/-- The exponent a text starts with: its letter, an optional sign and digits. -/
def readExponent : List Char → List Char × List Char
  | [] => ([], [])
  | letter :: rest =>
    if letter = 'e' || letter = 'E' then
      let sign := match rest with
        | '-' :: _ => ['-']
        | '+' :: _ => ['+']
        | _ => []
      let digits := rest.drop sign.length
      match digits.takeWhile Char.isDigit with
      | [] => ([], letter :: rest)
      | exponent => (letter :: sign ++ exponent, digits.dropWhile Char.isDigit)
    else ([], letter :: rest)

/-- The whole part of a number: a zero, or digits that do not start with one. -/
def readWhole : List Char → Option (List Char × List Char)
  | '0' :: rest => some (['0'], rest)
  | text =>
    match text.takeWhile Char.isDigit with
    | [] => none
    | digits => some (digits, text.dropWhile Char.isDigit)

/-- The most digits an integer can have. -/
def maxDigits : Nat := 4300

def readNumber (text : List Char) : Step Json :=
  let (sign, unsigned) := match text with
    | '-' :: rest => (['-'], rest)
    | _ => ([], text)
  match readWhole unsigned with
  | none => .error (.flaw .value text)
  | some (whole, rest) =>
    let (fraction, rest) := readFraction rest
    let (exponent, rest) := readExponent rest
    if fraction = [] && exponent = [] && maxDigits < whole.length then .error .tooManyDigits
    else .ok (.number (String.ofList (sign ++ whole ++ fraction ++ exponent)), rest)

/-- The values that are written as a fixed word. -/
def words : List (List Char × Json) :=
  [("null".toList, .null), ("true".toList, .bool true), ("false".toList, .bool false),
    ("NaN".toList, .number "NaN"), ("Infinity".toList, .number "Infinity"),
    ("-Infinity".toList, .number "-Infinity")]

/-- A value written as a fixed word. -/
def readWord (text : List Char) : Option (Json × List Char) :=
  words.findSome? fun (word, value) => (Text.after? word text).map (value, ·)

mutual

/-- Read a value. `room` is for the brackets that can be open at once. A value inside another one
takes two steps and a character at least, so fuel above twice the length of the text is never used
up. -/
def readValue (room : Nat) : Nat → List Char → Except Stop (Json × List Char)
  | 0, text => .error (.flaw .value text)
  | fuel + 1, text =>
    match text with
    | '\x22' :: _ => (readQuoted text).map fun (s, rest) => (.string s, rest)
    | '\x7b' :: rest =>
      match room with
      | 0 => .error .tooNested
      | room + 1 =>
        match skip rest with
        | '\x7d' :: rest => .ok (.object [], rest)
        | rest => (readFields room fuel [] rest).map fun (fields, rest) => (.object fields, rest)
    | '[' :: rest =>
      match room with
      | 0 => .error .tooNested
      | room + 1 =>
        match skip rest with
        | ']' :: rest => .ok (.array [], rest)
        | rest => (readItems room fuel rest).map fun (items, rest) => (.array items, rest)
    | _ =>
      match readWord text with
      | some step => .ok step
      | none => readNumber text

/-- Read the fields of an object up to its closing brace. -/
def readFields (room : Nat) : Nat → List (String × Json) → List Char →
    Except Stop (List (String × Json) × List Char)
  | 0, _, text => .error (.flaw .value text)
  | fuel + 1, fields, text =>
    match text with
    | '\x22' :: _ => do
      let (name, rest) ← readQuoted text
      match skip rest with
      | ':' :: rest =>
        let (value, rest) ← readValue room fuel (skip rest)
        let fields := setField name value fields
        match skip rest with
        | '\x7d' :: rest => .ok (fields, rest)
        | ',' :: rest => readFields room fuel fields (skip rest)
        | rest => .error (.flaw .comma rest)
      | rest => .error (.flaw .colon rest)
    | text => .error (.flaw .fieldName text)

/-- Read the items of an array up to its closing bracket. -/
def readItems (room : Nat) : Nat → List Char → Except Stop (List Json × List Char)
  | 0, text => .error (.flaw .value text)
  | fuel + 1, text => do
    let (item, rest) ← readValue room fuel text
    match skip rest with
    | ']' :: rest => .ok ([item], rest)
    | ',' :: rest =>
      let (items, rest) ← readItems room fuel (skip rest)
      .ok (item :: items, rest)
    | rest => .error (.flaw .comma rest)

end

/-- Read a text that holds one value and nothing else but white space, with room for so many
brackets inside one another. -/
def readWithin (room : Nat) (text : List Char) : Except Stop Json := do
  let (value, rest) ← readValue room (2 * text.length + 1) (skip text)
  match skip rest with
  | [] => .ok value
  | rest => .error (.flaw .extraData rest)

/-- Read a text. Every bracket is a call in progress. -/
def readText (text : List Char) : Except Stop Json := readWithin maxCalls text

/-- A place in a text: line and column count from one, the offset from zero. -/
structure Position where
  line : Nat
  column : Nat
  offset : Nat
  deriving DecidableEq, Repr

/-- The place right after an initial part of a text. -/
def Position.after (passed : List Char) : Position where
  line := passed.count '\n' + 1
  column := (passed.reverse.takeWhile (· ≠ '\n')).length + 1
  offset := passed.length

inductive Error where
  | encoding (error : Encoding.Error)
  | malformed (flaw : Flaw) (position : Position)
  | tooManyDigits
  | tooNested
  deriving DecidableEq, Repr

def Flaw.message : Flaw → String
  | value => "Expecting value"
  | fieldName => "Expecting property name enclosed in double quotes"
  | colon => "Expecting ':' delimiter"
  | comma => "Expecting ',' delimiter"
  | extraData => "Extra data"
  | controlCharacter => "Invalid control character at"
  | unterminated => "Unterminated string starting at"
  | escape => "Invalid \\escape"
  | unicodeEscape => "Invalid \\uXXXX escape"

def Error.message : Error → String
  | encoding error => error.message
  | malformed flaw position =>
    flaw.message ++ ": line " ++ toString position.line ++ " column " ++ toString position.column
      ++ " (char " ++ toString position.offset ++ ")"
  | tooManyDigits => "Exceeds the limit (4300 digits) for integer string conversion"
  | tooNested => "maximum recursion depth exceeded"

/-- The encoding of a document and the number of bytes that mark it. A byte order mark decides;
without one the zero bytes among the first four do, since a document starts with ASCII. -/
def detect (bytes : List UInt8) : Encoding × Nat :=
  if [0x00, 0x00, 0xFE, 0xFF].isPrefixOf bytes then (.utf32 .big, 4)
  else if [0xFF, 0xFE, 0x00, 0x00].isPrefixOf bytes then (.utf32 .little, 4)
  else if [0xFE, 0xFF].isPrefixOf bytes then (.utf16 .big, 2)
  else if [0xFF, 0xFE].isPrefixOf bytes then (.utf16 .little, 2)
  else if [0xEF, 0xBB, 0xBF].isPrefixOf bytes then (.utf8, 3)
  else match bytes with
    | a :: b :: c :: d :: _ =>
      if a = 0 then (if b = 0 then .utf32 .big else .utf16 .big, 0)
      else if b = 0 then (if c = 0 && d = 0 then .utf32 .little else .utf16 .little, 0)
      else (.utf8, 0)
    | [a, b] => (if a = 0 then .utf16 .big else if b = 0 then .utf16 .little else .utf8, 0)
    | _ => (.utf8, 0)

/-- The characters of a document. Positions count from the first byte, but in UTF-8 from the byte
after the mark. -/
def decodeBytes (bytes : List UInt8) : Except Encoding.Error (List Char) :=
  let (encoding, mark) := detect bytes
  encoding.read .lenient (if encoding = .utf8 then 0 else mark) (bytes.drop mark)

/-- Read a document from its bytes. -/
def ofBytes (bytes : List UInt8) : Except Error Json :=
  match decodeBytes bytes with
  | .error e => .error (.encoding e)
  | .ok text =>
    match readText text with
    | .ok value => .ok value
    | .error .tooManyDigits => .error .tooManyDigits
    | .error .tooNested => .error .tooNested
    | .error (.flaw flaw rest) =>
      .error (.malformed flaw (.after (text.take (text.length - rest.length))))

end ContextConfig.Json
