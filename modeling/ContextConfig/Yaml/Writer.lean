import ContextConfig.Document
import ContextConfig.Text.Hex
import ContextConfig.Text.Split
import ContextConfig.Yaml.Cursor
import ContextConfig.Yaml.Tag
/-!
# Writing YAML

Documents are written as block mappings, two columns deeper at every level, in ASCII. A text is
written plain where it reads back as a text under the standard rules, between single quotes where
that keeps every character, and else between double quotes with escapes. Scalars that run beyond
column 80 go on in the next line. A key that is long or has more than one line gets a question
mark, and its value a line of its own.
-/

namespace ContextConfig.Yaml.Writer

/-- The column beyond which lines are broken. -/
def width : Nat := 80

def spaces (n : Nat) : List Char := List.replicate n ' '

def newLine (indent : Nat) : List Char := '\n' :: spaces indent

inductive Style where
  | plain
  | single
  | double
  deriving DecidableEq, Repr

/-- The characters that break a line of text. -/
def isTextBreak (c : Char) : Bool := c = '\n' || c = '\x85' || c = '\u2028' || c = '\u2029'

def isMultiline (text : List Char) : Bool := text.any isTextBreak

/-- Whether a character can stand outside double quotes. -/
def isOrdinary (c : Char) : Bool := c = '\n' || (' ' ≤ c && c ≤ '~')

/-- Whether `p` holds of some character and `q` of the next one. -/
def anyPair (p q : Char → Bool) : List Char → Bool
  | a :: b :: rest => p a && q b || anyPair p q (b :: rest)
  | _ => false

/-- A blank at either end would be lost. -/
def hasOuterBlank (text : List Char) : Bool :=
  let isEdge (c : Option Char) : Bool := c.any fun c => c = ' ' || isTextBreak c
  isEdge text.head? || isEdge text.getLast?

/-- The characters that mean something at the start of a scalar. -/
def isLeadingIndicator (c : Char) : Bool :=
  ['#', ',', '[', ']', '\x7b', '\x7d', '&', '*', '!', '|', '>', '\x27', '\x22', '%', '@', '\x60'].contains c

/-- Whether an indicator occurs after the first character, which is `previous`. -/
def hasInnerIndicator : Char → List Char → Bool
  | _, [] => false
  | previous, c :: rest =>
    c = ':' && isBlankOrEnd (rest.headD '\x00') || c = '#' && isBlankOrEnd previous
      || hasInnerIndicator c rest

/-- Whether a text would not be read as a plain scalar. -/
def hasIndicator : List Char → Bool
  | [] => false
  | c :: rest =>
    isLeadingIndicator c || (c = '?' || c = ':' || c = '-') && isBlankOrEnd (rest.headD '\x00')
      || hasInnerIndicator c rest
      || Text.startsWith ['-', '-', '-'] (c :: rest) || Text.startsWith ['.', '.', '.'] (c :: rest)

/-- Whether a text can be written between single quotes. Blanks next to a line break would be lost,
and all but ordinary characters need an escape. -/
def allowsSingle (text : List Char) : Bool :=
  text.all isOrdinary && !anyPair isTextBreak (· = ' ') text && !anyPair (· = ' ') isTextBreak text

/-- Whether a text can be written plain when it is to have a tag. -/
def allowsPlain (tag : Tag) (text : List Char) : Bool :=
  implicitTag standardRules text = tag && allowsSingle text && !isMultiline text
    && !hasOuterBlank text && !hasIndicator text

def style (tag : Tag) (text : List Char) : Style :=
  if allowsPlain tag text then .plain else if allowsSingle text then .single else .double

/-- The characters of a plain scalar. A lone space beyond the width becomes a line break. -/
def plainChars (indent : Nat) : Nat → Bool → List Char → List Char
  | _, _, [] => []
  | column, afterSpace, c :: rest =>
    if c = ' ' && !afterSpace && rest.head? ≠ some ' ' && width < column then
      newLine indent ++ plainChars indent indent false rest
    else c :: plainChars indent (column + 1) (c = ' ') rest

/-- The characters between single quotes. A quote is doubled; a line break is written as one more
than there are in the row; a lone space beyond the width becomes a line break unless it stands at
an end of the text. -/
def singleChars (indent : Nat) : Nat → Option Char → List Char → List Char
  | _, _, [] => []
  | column, previous, c :: rest =>
    if c = '\n' then
      (if previous = some '\n' then ['\n'] else ['\n', '\n'])
        ++ (if rest.head? = some '\n' then [] else spaces indent)
        ++ singleChars indent indent (some c) rest
    else if c = ' ' && previous.any (· ≠ ' ') && rest ≠ [] && rest.head? ≠ some ' '
        && width < column then
      newLine indent ++ singleChars indent indent (some c) rest
    else if c = '\x27' then '\x27' :: '\x27' :: singleChars indent (column + 2) (some c) rest
    else c :: singleChars indent (column + 1) (some c) rest

/-- The letter of a short escape. -/
def shortEscape? : Char → Option Char
  | '\x00' => some '0'
  | '\x07' => some 'a'
  | '\x08' => some 'b'
  | '\t' => some 't'
  | '\n' => some 'n'
  | '\x0B' => some 'v'
  | '\x0C' => some 'f'
  | '\r' => some 'r'
  | '\x1B' => some 'e'
  | '\x22' => some '\x22'
  | '\\' => some '\\'
  | '\x85' => some 'N'
  | '\xA0' => some '_'
  | '\u2028' => some 'L'
  | '\u2029' => some 'P'
  | _ => none

/-- The escape of a character. -/
def escaped (c : Char) : List Char :=
  match shortEscape? c with
  | some letter => ['\\', letter]
  | none =>
    if c.toNat ≤ 0xFF then '\\' :: 'x' :: Text.hexDigits .upper 2 c.toNat
    else if c.toNat ≤ 0xFFFF then '\\' :: 'u' :: Text.hexDigits .upper 4 c.toNat
    else '\\' :: 'U' :: Text.hexDigits .upper 8 c.toNat

/-- Whether a character stands for itself between double quotes. -/
def isVerbatim (c : Char) : Bool := ' ' ≤ c && c ≤ '~' && c ≠ '\x22' && c ≠ '\\'

/-- A line break that is not part of the text, in front of what follows. A space right after it
has to be escaped. -/
def escapedBreak (indent : Nat) (next : Option Char) : List Char :=
  '\\' :: newLine indent ++ if next = some ' ' then ['\\'] else []

/-- The column after an escaped line break. -/
def columnAfterBreak (indent : Nat) (next : Option Char) : Nat :=
  if next = some ' ' then indent + 1 else indent

/-- The characters between double quotes. Lines are broken in front of a space or next to an escape,
but neither before the first character nor at the last. -/
def doubleChars (indent : Nat) (split : Bool) : Nat → Bool → Bool → List Char → List Char
  | _, _, _, [] => []
  | column, first, afterEscape, c :: rest =>
    let inside := split && !first && rest ≠ []
    if isVerbatim c then
      if inside && (c = ' ' || afterEscape) && width < column then
        escapedBreak indent (some c) ++
          c :: doubleChars indent split (columnAfterBreak indent (some c) + 1) false false rest
      else c :: doubleChars indent split (column + 1) false false rest
    else
      let code := escaped c
      if inside && width + 1 < column + code.length then
        code ++ escapedBreak indent rest.head? ++
          doubleChars indent split (columnAfterBreak indent rest.head?) false true rest
      else code ++ doubleChars indent split (column + code.length) false true rest

/-- A scalar that starts at a column. A scalar that is a simple key stays on its line. -/
def scalar (tag : Tag) (simpleKey : Bool) (indent column : Nat) (text : List Char) : List Char :=
  match style tag text with
  | .plain => if simpleKey then text else plainChars indent column false text
  | .single =>
    '\x27' :: (if simpleKey then text.flatMap fun c => if c = '\x27' then [c, c] else [c]
      else singleChars indent (column + 1) none text) ++ ['\x27']
  | .double => '\x22' :: doubleChars indent (!simpleKey) (column + 1) true true text ++ ['\x22']

/-- The longest key without a question mark. -/
def maxSimpleKey : Nat := 122

def isSimpleKey (text : List Char) : Bool :=
  text ≠ [] && text.length ≤ maxSimpleKey && !isMultiline text

def keyChars : Key → List Char
  | .text name | .shown name => name.toList
  | .unshowable => []

/-- An entry that starts at column `indent`. Its value is written from the column after the colon
on. -/
def entry (indent : Nat) (key : Key) (value : Nat → Bool → List Char) : List Char :=
  if isSimpleKey (keyChars key) then
    let name := scalar .str true indent indent (keyChars key)
    name ++ ':' :: value (indent + name.length + 1) false
  else
    '?' :: ' ' :: scalar .str false (indent + 2) (indent + 2) (keyChars key) ++ newLine indent
      ++ ':' :: value (indent + 1) true

mutual

/-- A value after a colon, in a mapping at `indent`. The entries of a mapping start on the next line,
or on the same one after a complex key. -/
def value (indent column : Nat) (complexKey : Bool) : Document → List Char
  | .null | .other _ => " null".toList
  | .bool true => " true".toList
  | .bool false => " false".toList
  | .text text => ' ' :: scalar .str false (indent + 2) (column + 1) text.toList
  | .mapping [] => [' ', '\x7b', '\x7d']
  | .mapping ((key, first) :: rest) =>
    (if complexKey then [' '] else newLine (indent + 2))
      ++ entry (indent + 2) key (fun column complexKey => value (indent + 2) column complexKey first)
      ++ entries (indent + 2) rest

/-- The entries after the first one. -/
def entries (indent : Nat) : List (Key × Document) → List Char
  | [] => []
  | (key, document) :: rest =>
    newLine indent
      ++ entry indent key (fun column complexKey => value indent column complexKey document)
      ++ entries indent rest

end

/-- A document as text; only mappings can be written. -/
def write : Document → List Char
  | .mapping ((key, first) :: rest) =>
    entry 0 key (fun column complexKey => value 0 column complexKey first) ++ entries 0 rest
      ++ ['\n']
  | _ => ['\x7b', '\x7d', '\n']

end ContextConfig.Yaml.Writer
