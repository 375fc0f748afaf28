import ContextConfig.Encoding
import ContextConfig.Text.Hex
import ContextConfig.Yaml.Cursor
import ContextConfig.Yaml.Stop
import ContextConfig.Yaml.Token
/-!
# Anchors, tags and directives

The tokens that are not part of the tree: names of nodes, tags under handles, and the directives
that declare handles. Each reader takes the cursor at the token and gives it with the place after
it.
-/

namespace ContextConfig.Yaml

/-- The characters of names and handles. -/
def isWordChar (c : Char) : Bool := c.isAlphanum || c = '-' || c = '_'

namespace Anchor

/-- What may follow a name. -/
def isNameEnd (c : Char) : Bool :=
  isBlankOrEnd c || ['?', ':', ',', ']', '\x7d', '%', '@', '\x60'].contains c

/-- The name after `&` or `*`. -/
def read (c : Cursor) : Except Stop (List Char × Cursor) :=
  let (name, c) := c.next.span isWordChar
  if name = [] || !isNameEnd c.peek then .error .malformed else .ok (name, c)

end Anchor

namespace Tag

/-- The characters of a tag other than an escape. -/
def isUriChar (c : Char) : Bool :=
  isWordChar c || [';', '/', '?', ':', '@', '&', '=', '+', '$', ',', '.', '!', '~', '*', '\x27',
    '(', ')', '[', ']'].contains c

/-- The bytes of a row of escapes. -/
def escapedBytes : Nat → Cursor → Except Stop (List UInt8 × Cursor)
  | 0, c => .ok ([], c)
  | fuel + 1, c =>
    if c.peek = '%' then
      let digits := c.next.rest.take 2
      if digits.length < 2 then .error .malformed
      else match Text.hexNumber? digits with
        | none => .error .malformed
        | some byte =>
          (escapedBytes fuel (c.skip 3)).map fun (bytes, c) => (byte.toUInt8 :: bytes, c)
    else .ok ([], c)

/-- The longest row of tag characters and escapes. -/
def uriChars : Nat → Cursor → Except Stop (List Char × Cursor)
  | 0, c => .ok ([], c)
  | fuel + 1, c =>
    if c.peek = '%' then
      match escapedBytes (c.rest.length + 1) c with
      | .error stop => .error stop
      | .ok (bytes, c) =>
        match Encoding.readUtf8 .strict 0 bytes with
        | .error _ => .error .malformed
        | .ok chars => (uriChars fuel c).map fun (more, c) => (chars ++ more, c)
    else if isUriChar c.peek then
      (uriChars fuel c.next).map fun (more, c') => (c.peek :: more, c')
    else .ok ([], c)

/-- A suffix or a complete tag. It starts with a character or an escape. -/
def uri (c : Cursor) : Except Stop (List Char × Cursor) :=
  if c.peek = '%' || isUriChar c.peek then uriChars (c.rest.length + 1) c else .error .malformed

/-- A handle: an exclamation mark, or a word between two of them. -/
def handle (c : Cursor) : Except Stop (List Char × Cursor) :=
  if c.peek ≠ '!' then .error .malformed
  else if c.peekAt 1 = ' ' then .ok (['!'], c.next)
  else
    let (word, after) := c.next.span isWordChar
    if after.peek = '!' then .ok ('!' :: word ++ ['!'], after.next) else .error .malformed

/-- Whether another exclamation mark comes before the end of the tag. -/
def hasHandle (c : Cursor) : Bool :=
  (c.next.rest.takeWhile fun x => !isSpaceOrEnd x).contains '!'

/-- A tag, from its exclamation mark on. -/
def read (c : Cursor) : Except Stop (TagName × Cursor) := do
  let (name, c) ←
    if c.peekAt 1 = '<' then do
      let (suffix, c) ← uri (c.skip 2)
      if c.peek = '>' then Except.ok (TagName.mk none suffix, c.next)
      else Except.error Stop.malformed
    else if isBlankOrEnd (c.peekAt 1) then Except.ok (TagName.mk none ['!'], c.next)
    else if hasHandle c then do
      let (handle, c) ← handle c
      let (suffix, c) ← uri c
      Except.ok (TagName.mk (some handle) suffix, c)
    else do
      let (suffix, c) ← uri c.next
      Except.ok (TagName.mk (some ['!']) suffix, c)
  if isSpaceOrEnd c.peek then .ok (name, c) else .error .malformed

end Tag

namespace Directive

/-- The most digits a number can have. -/
def maxDigits : Nat := 4300

def number (c : Cursor) : Except Stop (Nat × Cursor) :=
  let (digits, c) := c.span Char.isDigit
  if digits = [] then .error .malformed
  else if maxDigits < digits.length then .error (.fault .unrepresentable)
  else .ok (Nat.ofDigitChars 10 digits 0, c)

/-- The version after the name of its directive. -/
def version (c : Cursor) : Except Stop (Token × Cursor) := do
  let (major, c) ← number c.skipSpaces
  if c.peek ≠ '.' then .error .malformed
  else
    let (_, c) ← number c.next
    if isSpaceOrEnd c.peek then .ok (.versionDirective major, c) else .error .malformed

/-- The handle and what it stands for, after the name of their directive. -/
def tag (c : Cursor) : Except Stop (Token × Cursor) := do
  let (handle, c) ← Tag.handle c.skipSpaces
  if c.peek ≠ ' ' then .error .malformed
  else
    let (uri, c) ← Tag.uri c.skipSpaces
    if isSpaceOrEnd c.peek then .ok (.tagDirective handle uri, c) else .error .malformed

/-- A directive, from its percent sign to the end of its line. -/
def read (c : Cursor) : Except Stop (Token × Cursor) := do
  let (name, c) := c.next.span isWordChar
  if name = [] || !isSpaceOrEnd c.peek then .error .malformed
  else
    let (token, c) ←
      if name = "YAML".toList then version c
      else if name = "TAG".toList then tag c
      else Except.ok (.otherDirective, c.skipWhile (!isBreakOrEnd ·))
    let c := c.skipSpaces.skipComment
    if isBreakOrEnd c.peek then .ok (token, c.lineBreak.2) else .error .malformed

end Directive
end ContextConfig.Yaml
