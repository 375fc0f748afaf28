import ContextConfig.Yaml.Token.Property
import ContextConfig.Yaml.Token.Scalar
/-!
# From characters to tokens

The lexer walks over the text and keeps what the next token depends on: the indentation of the
open block collections, the depth of the flow collections, and for every flow depth the place where
a simple key may have started. Whether it was one is only known at a later colon, and then the
tokens that open the key are inserted at that place. A simple key ends on its line and within 1024
characters.

The text can turn out to be malformed, or a fault occur, while a key is still undecided. What came
before that key has then been read for certain, and what is wrong there is found first: the tokens up
to the first undecided key are kept beside the reason why there are no more.
-/

namespace ContextConfig.Yaml

/-- A place where a simple key may have started: the number of tokens before it, and whether a key
must be there because a line of a block mapping starts with it. -/
structure PossibleKey where
  token : Nat
  required : Bool
  index : Nat
  line : Nat
  column : Nat
  deriving DecidableEq, Repr

structure Lexer where
  cursor : Cursor
  /-- The indentation of the innermost block collection; -1 outside of all. -/
  indent : Int := -1
  /-- The indentations of the collections around it. -/
  outer : List Int := []
  /-- Whether a simple key may start here. -/
  allowKey : Bool := true
  /-- The possible key of every flow depth, the innermost first. -/
  keys : List (Option PossibleKey) := [none]
  /-- The tokens so far, the newest first. -/
  tokens : List Token := []
  deriving Repr

namespace Lexer

abbrev maxKeyLength : Nat := 1024

/-- Whether a flow collection is open. -/
def inFlow (s : Lexer) : Bool := s.keys.length > 1

def push (t : Token) (s : Lexer) : Lexer := { s with tokens := t :: s.tokens }

/-- Put a token in front of those that come after the first `n`. -/
def insertAt (n : Nat) (t : Token) (s : Lexer) : Lexer :=
  let later := s.tokens.length - n
  { s with tokens := s.tokens.take later ++ t :: s.tokens.drop later }

def isStale (s : Lexer) (k : PossibleKey) : Bool :=
  k.line ≠ s.cursor.line || k.index + maxKeyLength < s.cursor.index

/-- Give up the keys that are too long or on an earlier line. One that must be a key is a flaw. -/
def dropStale (s : Lexer) : Except Stop Lexer :=
  let stale (key : Option PossibleKey) : Bool := key.any (s.isStale ·)
  if s.keys.any fun key => stale key && key.any (·.required) then .error .malformed
  else .ok { s with keys := s.keys.map fun key => if stale key then none else key }

/-- Give up the possible key of the innermost depth. -/
def dropKey (s : Lexer) : Except Stop Lexer :=
  match s.keys with
  | some key :: rest => if key.required then .error .malformed else .ok { s with keys := none :: rest }
  | _ => .ok s

/-- Note that a simple key may start here. -/
def saveKey (s : Lexer) : Except Stop Lexer :=
  if s.allowKey then do
    let s ← s.dropKey
    let required := !s.inFlow && s.indent = s.cursor.column
    let key : PossibleKey :=
      ⟨s.tokens.length, required, s.cursor.index, s.cursor.line, s.cursor.column⟩
    .ok { s with keys := some key :: s.keys.drop 1 }
  else .ok s

/-- Close the block collections that are indented beyond a column. -/
def unwindTo (column : Int) : List Int → Lexer → Lexer
  | [], s => s
  | parent :: rest, s =>
    if column < s.indent then
      unwindTo column rest { s with indent := parent, outer := rest, tokens := .blockEnd :: s.tokens }
    else s

/-- Outside flow collections, close the block collections that are indented beyond a column. -/
def unwind (column : Int) (s : Lexer) : Lexer :=
  if s.inFlow then s else unwindTo column s.outer s

/-- Open a block collection at a column if it is indented beyond the innermost one; the token that
opens it comes after the first `n`. -/
def openBlock (column n : Nat) (t : Token) (s : Lexer) : Lexer :=
  if s.indent < column then
    { s with indent := column, outer := s.indent :: s.outer }.insertAt n t
  else s

/-- The place of the next token. Blanks and comments are skipped; outside flow collections a new
line allows a simple key. -/
def skipBlanks : Nat → Lexer → Lexer
  | 0, s => s
  | fuel + 1, s =>
    let c := s.cursor.skipSpaces.skipComment
    if isBreak c.peek then
      skipBlanks fuel { s with cursor := c.lineBreak.2, allowKey := s.allowKey || !s.inFlow }
    else { s with cursor := c }

/-- A byte order mark at the very start of the text is no part of it. -/
def skipMark (s : Lexer) : Lexer :=
  if s.cursor.index = 0 && s.cursor.peek = '\uFEFF' then { s with cursor := s.cursor.next } else s

/-- A token of one character. -/
def indicator (t : Token) (s : Lexer) : Lexer := { s with cursor := s.cursor.next }.push t

/-- End all block collections and keys in front of something that belongs to no document. -/
def leaveDocument (s : Lexer) : Except Stop Lexer := do
  let s ← (s.unwind (-1)).dropKey
  .ok { s with allowKey := false }

def flowStart (t : Token) (s : Lexer) : Except Stop Lexer := do
  let s ← s.saveKey
  .ok ({ s with keys := none :: s.keys, allowKey := true }.indicator t)

/-- A closing bracket needs an open one, of whatever kind. -/
def flowEnd (t : Token) (s : Lexer) : Except Stop Lexer := do
  let s ← s.dropKey
  match s.keys with
  | _ :: outer :: rest => .ok ({ s with keys := outer :: rest, allowKey := false }.indicator t)
  | _ => .error .malformed

def flowEntry (s : Lexer) : Except Stop Lexer := do
  let s ← { s with allowKey := true }.dropKey
  .ok (s.indicator .flowEntry)

def blockEntry (s : Lexer) : Except Stop Lexer := do
  if !s.inFlow && !s.allowKey then .error .malformed
  else
    let s := if s.inFlow then s
      else s.openBlock s.cursor.column s.tokens.length .blockSequenceStart
    let s ← { s with allowKey := true }.dropKey
    .ok (s.indicator .blockEntry)

def complexKey (s : Lexer) : Except Stop Lexer := do
  if !s.inFlow && !s.allowKey then .error .malformed
  else
    let s := if s.inFlow then s
      else s.openBlock s.cursor.column s.tokens.length .blockMappingStart
    let s ← { s with allowKey := !s.inFlow }.dropKey
    .ok (s.indicator .key)

/-- A colon ends a simple key if one may have started, and else starts the value of a complex one. -/
def value (s : Lexer) : Except Stop Lexer := do
  match s.keys with
  | some key :: rest =>
    let s := { s with keys := none :: rest, allowKey := false }.insertAt key.token .key
    let s := if s.inFlow then s else s.openBlock key.column key.token .blockMappingStart
    .ok (s.indicator .value)
  | _ =>
    if !s.inFlow && !s.allowKey then .error .malformed
    else
      let s := if s.inFlow then s
        else s.openBlock s.cursor.column s.tokens.length .blockMappingStart
      let s ← { s with allowKey := !s.inFlow }.dropKey
      .ok (s.indicator .value)

/-- A token that may be a simple key, or the start of one. -/
def keyToken (read : Cursor → Except Stop (Token × Cursor)) (s : Lexer) : Except Stop Lexer := do
  let s ← s.saveKey
  let (t, c) ← read s.cursor
  .ok ({ s with cursor := c, allowKey := false }.push t)

def blockScalar (folded : Bool) (s : Lexer) : Except Stop Lexer := do
  let s ← { s with allowKey := true }.dropKey
  let (text, c) ← Block.read folded s.indent s.cursor
  .ok ({ s with cursor := c }.push (.scalar text false))

def plainScalar (s : Lexer) : Except Stop Lexer := do
  let s ← s.saveKey
  let (text, c, broke) := Plain.read s.inFlow (s.indent + 1) (s.cursor.rest.length + 1) s.cursor
  .ok ({ s with cursor := c, allowKey := broke }.push (.scalar text true))

/-- The characters that start no plain scalar. -/
def isIndicator (c : Char) : Bool :=
  ['-', '?', ':', ',', '[', ']', '\x7b', '\x7d', '#', '&', '*', '!', '|', '>', '\x27', '\x22',
    '%', '@', '\x60'].contains c

/-- Whether a plain scalar starts here. A dash, and outside flow collections a question mark or a
colon, starts one if something follows it. -/
def startsPlain (s : Lexer) : Bool :=
  let c := s.cursor.peek
  if isBlankOrEnd c then false
  else if isIndicator c then
    !isBlankOrEnd (s.cursor.peekAt 1) && (c = '-' || !s.inFlow && (c = '?' || c = ':'))
  else true

/-- Whether an indicator at the cursor stands alone. -/
def standsAlone (s : Lexer) : Bool := isBlankOrEnd (s.cursor.peekAt 1)

/-- Go to the next token, give up keys on the way and close the collections that end in front of
it. -/
def prepare (s : Lexer) : Except Stop Lexer := do
  let s ← (s.skipMark.skipBlanks (s.cursor.rest.length + 1)).dropStale
  return s.unwind s.cursor.column

/-- Read the tokens at the cursor. The flag tells that the text has ended. -/
def dispatch (s : Lexer) : Except Stop (Bool × Lexer) := do
  let c := s.cursor
  let x := c.peek
  let more (s : Except Stop Lexer) : Except Stop (Bool × Lexer) := s.map (false, ·)
  if isEnd x then
    let s ← s.leaveDocument
    .ok (true, { s with keys := [none] }.push .streamEnd)
  else if x = '%' && c.column = 0 then more do
    let s ← s.leaveDocument
    let (t, c) ← Directive.read s.cursor
    .ok ({ s with cursor := c }.push t)
  else if c.column = 0 && c.atMarker then more do
    let s ← s.leaveDocument
    .ok ({ s with cursor := c.skip 3 }.push (if x = '-' then .documentStart else .documentEnd))
  else if x = '[' then more (s.flowStart .flowSequenceStart)
  else if x = '\x7b' then more (s.flowStart .flowMappingStart)
  else if x = ']' then more (s.flowEnd .flowSequenceEnd)
  else if x = '\x7d' then more (s.flowEnd .flowMappingEnd)
  else if x = ',' then more s.flowEntry
  else if x = '-' && s.standsAlone then more s.blockEntry
  else if x = '?' && (s.inFlow || s.standsAlone) then more s.complexKey
  else if x = ':' && (s.inFlow || s.standsAlone) then more s.value
  else if x = '*' then more (s.keyToken fun c => (Anchor.read c).map fun (n, c) => (.alias n, c))
  else if x = '&' then more (s.keyToken fun c => (Anchor.read c).map fun (n, c) => (.anchor n, c))
  else if x = '!' then more (s.keyToken fun c => (Tag.read c).map fun (n, c) => (.tag n, c))
  else if x = '|' && !s.inFlow then more (s.blockScalar false)
  else if x = '>' && !s.inFlow then more (s.blockScalar true)
  else if x = '\x27' then more (s.keyToken fun c =>
    (Quoted.read false c).map fun (text, c) => (.scalar text false, c))
  else if x = '\x22' then more (s.keyToken fun c =>
    (Quoted.read true c).map fun (text, c) => (.scalar text false, c))
  else if s.startsPlain then more s.plainScalar
  else .error .malformed

/-- Read the next tokens. -/
def step (s : Lexer) : Except Stop (Bool × Lexer) := s.prepare >>= dispatch

/-- The tokens in front of the first undecided key. -/
def decided (s : Lexer) : List Token :=
  let places := s.keys.filterMap (·.map (·.token))
  s.tokens.reverse.take (places.foldl min s.tokens.length)

/-- What reading comes to: the tokens of a text, and if they do not reach its end, why. -/
abbrev Result := List Token × Option Stop

/-- Reading stops in front of the next token. A key that had to be one and is stale by then is found
first. -/
def stopped (s : Lexer) (stop : Stop) : Result :=
  match s.dropStale with
  | .ok s => (s.decided, some stop)
  | .error stale => (s.decided, some stale)

/-- What reading comes to after a step, where `more` says what it comes to from then on. -/
def conclude (s : Lexer) (more : Lexer → Result) : Except Stop (Bool × Lexer) → Result
  | .ok (true, s) => (s.tokens.reverse, none)
  | .ok (false, s) => more s
  | .error stop => s.stopped stop

/-- Read tokens until the text ends. -/
def run : Nat → Lexer → Result
  | 0, s => s.stopped .malformed
  | fuel + 1, s => s.conclude (run fuel) s.step

end Lexer

/-- The tokens of a text. -/
def Token.ofText (text : List Char) : Lexer.Result :=
  Lexer.run (text.length + 2) { cursor := { rest := text } }

end ContextConfig.Yaml
