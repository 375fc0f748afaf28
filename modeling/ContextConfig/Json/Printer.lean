import ContextConfig.Json.Basic
import ContextConfig.Text.Hex
/-!
# Printing JSON

The output is ASCII: every other character is escaped by its UTF-16 codes. A compact layout puts
everything on one line; an indented one starts a new line for each item and field. What is empty
stays on its line.
-/

namespace ContextConfig.Json

inductive Layout where
  | compact
  | indented (width : Nat)
  deriving DecidableEq, Repr

namespace Layout

/-- What comes between two items. -/
def comma : Layout → List Char
  | compact => [',', ' ']
  | indented _ => [',']

/-- The line break before an item at a depth. -/
def lineBreak (depth : Nat) : Layout → List Char
  | compact => []
  | indented width => '\n' :: List.replicate (width * depth) ' '

end Layout

/-- The escape of a UTF-16 code. -/
def codeEscape (code : Nat) : List Char := '\\' :: 'u' :: Text.hexDigits .lower 4 code

/-- How a character is written inside a string. -/
def escapedChar (c : Char) : List Char :=
  if c = '\x22' then ['\\', '\x22']
  else if c = '\\' then ['\\', '\\']
  else if c = '\n' then ['\\', 'n']
  else if c = '\r' then ['\\', 'r']
  else if c = '\t' then ['\\', 't']
  else if c = '\x0C' then ['\\', 'f']
  else if c = '\x08' then ['\\', 'b']
  else if ' ' ≤ c && c ≤ '~' then [c]
  else if c.toNat < 0x10000 then codeEscape c.toNat
  else codeEscape (0xD800 + (c.toNat - 0x10000) / 1024)
    ++ codeEscape (0xDC00 + (c.toNat - 0x10000) % 1024)

def printString (text : List Char) : List Char := '\x22' :: text.flatMap escapedChar ++ ['\x22']

mutual

def print (layout : Layout) (depth : Nat) : Json → List Char
  | null => "null".toList
  | bool true => "true".toList
  | bool false => "false".toList
  | number literal => literal.toList
  | string text => printString text.toList
  | array [] => "[]".toList
  | array (item :: items) =>
    '[' :: layout.lineBreak (depth + 1) ++ print layout (depth + 1) item
      ++ printItems layout (depth + 1) items ++ layout.lineBreak depth ++ [']']
  | object [] => ['\x7b', '\x7d']
  | object ((name, value) :: fields) =>
    '\x7b' :: layout.lineBreak (depth + 1) ++ printString name.toList ++ ':' :: ' ' ::
      print layout (depth + 1) value ++ printFields layout (depth + 1) fields
      ++ layout.lineBreak depth ++ ['\x7d']

/-- The items after the first one. -/
def printItems (layout : Layout) (depth : Nat) : List Json → List Char
  | [] => []
  | item :: items =>
    layout.comma ++ layout.lineBreak depth ++ print layout depth item
      ++ printItems layout depth items

/-- The fields after the first one. -/
def printFields (layout : Layout) (depth : Nat) : List (String × Json) → List Char
  | [] => []
  | (name, value) :: fields =>
    layout.comma ++ layout.lineBreak depth ++ printString name.toList ++ ':' :: ' ' ::
      print layout depth value ++ printFields layout depth fields

end

/-- A value as text. -/
def render (layout : Layout) (value : Json) : String := String.ofList (print layout 0 value)

end ContextConfig.Json
