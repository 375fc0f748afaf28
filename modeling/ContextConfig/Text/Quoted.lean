import ContextConfig.Text.Hex
import ContextConfig.Text.Printable
/-!
# Quoted texts

A text is shown in a message between quotes, so that blanks at its ends and characters that cannot
be printed stay visible. The quotes are single unless the text holds a single quote and no double
one; the quote in use and the backslash are escaped, and so is every character that is not
printable. Bytes are shown in the same way behind a letter `b`.
-/

namespace ContextConfig.Text

/-- The quote around a text: double only where that avoids escaping single quotes. -/
def quoteFor (text : List Char) : Char :=
  if text.contains '\x27' && !text.contains '\x22' then '\x22' else '\x27'

/-- A character code as a backslash, a letter for the number of digits and the digits. -/
def escapedCode (code : Nat) : List Char :=
  if code ≤ 0xFF then '\\' :: 'x' :: hexDigits .lower 2 code
  else if code ≤ 0xFFFF then '\\' :: 'u' :: hexDigits .lower 4 code
  else '\\' :: 'U' :: hexDigits .lower 8 code

/-- How a character appears between quotes. -/
def quotedChar (quote c : Char) : List Char :=
  if c = quote || c = '\\' then ['\\', c]
  else if c = '\n' then ['\\', 'n']
  else if c = '\r' then ['\\', 'r']
  else if c = '\t' then ['\\', 't']
  else if isPrintable c then [c]
  else escapedCode c.toNat

/-- A text as it appears in a message. -/
def quoted (text : List Char) : List Char :=
  let quote := quoteFor text
  quote :: text.flatMap (quotedChar quote) ++ [quote]

/-- How a byte appears between quotes: printable ASCII as it stands. -/
def quotedByte (quote : Char) (byte : UInt8) : List Char :=
  if byte < 0x80 then quotedChar quote (Char.ofNat byte.toNat) else escapedCode byte.toNat

/-- A row of bytes as it appears in a message. -/
def quotedBytes (bytes : List UInt8) : List Char :=
  let quote := quoteFor (bytes.map fun byte => Char.ofNat byte.toNat)
  'b' :: quote :: bytes.flatMap (quotedByte quote) ++ [quote]

example : quoted "it's\n".toList = "\"it's\\n\"".toList := by decide +kernel
example : quotedBytes [104, 105, 0, 255] = "b'hi\\x00\\xff'".toList := by decide +kernel

end ContextConfig.Text
