/-!
# Positions in a text

A cursor is what is left of a text together with the place reached in it. Lines end at every kind
of line break; the byte order mark has no width. Where nothing is left the cursor stands at NUL,
which no text holds.
-/

namespace ContextConfig.Yaml

/-- The characters that end a line. -/
def isBreak (c : Char) : Bool :=
  c = '\n' || c = '\r' || c = '\x85' || c = '\u2028' || c = '\u2029'

def isEnd (c : Char) : Bool := c = '\x00'

def isBreakOrEnd (c : Char) : Bool := isBreak c || isEnd c

/-- A space, the end of a line, or the end of the text. -/
def isSpaceOrEnd (c : Char) : Bool := c = ' ' || isBreakOrEnd c

/-- A space or tab, the end of a line, or the end of the text. -/
def isBlankOrEnd (c : Char) : Bool := c = '\t' || isSpaceOrEnd c

/-- The characters that a text may hold. -/
def isAllowed (c : Char) : Bool :=
  c = '\t' || c = '\n' || c = '\r' || (' ' ≤ c && c ≤ '~') || c = '\x85'
    || ('\xA0' ≤ c && c ≤ '\uFFFD') || 0x10000 ≤ c.toNat

structure Cursor where
  rest : List Char
  index : Nat := 0
  line : Nat := 0
  column : Nat := 0
  deriving DecidableEq, Repr

namespace Cursor

/-- The character at the cursor. -/
def peek (c : Cursor) : Char := c.rest.headD '\x00'

/-- The character some places after the cursor. -/
def peekAt (c : Cursor) (n : Nat) : Char := (c.rest.drop n).headD '\x00'

/-- Whether a character that `rest` follows ends its line. -/
def endsLine (x : Char) (rest : List Char) : Bool :=
  isBreak x && !(x = '\r' && rest.head? = some '\n')

/-- The place after one character. -/
def next (c : Cursor) : Cursor :=
  match c.rest with
  | [] => c
  | x :: rest =>
    if endsLine x rest then ⟨rest, c.index + 1, c.line + 1, 0⟩
    else if x = '\uFEFF' then ⟨rest, c.index + 1, c.line, c.column⟩
    else ⟨rest, c.index + 1, c.line, c.column + 1⟩

/-- The place after some characters. -/
def skip : Nat → Cursor → Cursor
  | 0, c => c
  | n + 1, c => skip n c.next

/-- The longest run of characters that satisfy `p`, and the place after it. -/
def span (p : Char → Bool) (c : Cursor) : List Char × Cursor :=
  let run := c.rest.takeWhile p
  (run, c.skip run.length)

def skipWhile (p : Char → Bool) (c : Cursor) : Cursor := (c.span p).2

def skipSpaces (c : Cursor) : Cursor := c.skipWhile (· = ' ')

/-- Read a line break as its normal form: the two Unicode separators stay, all others become a
line feed. Elsewhere nothing is read. -/
def lineBreak (c : Cursor) : List Char × Cursor :=
  match c.rest with
  | '\r' :: '\n' :: _ => (['\n'], c.skip 2)
  | x :: _ =>
    if x = '\r' || x = '\n' || x = '\x85' then (['\n'], c.next)
    else if x = '\u2028' || x = '\u2029' then ([x], c.next)
    else ([], c)
  | [] => ([], c)

/-- Whether the cursor stands at `---` or `...` with a blank or the end after it. -/
def atMarker (c : Cursor) : Bool :=
  (c.rest.take 3 = ['-', '-', '-'] || c.rest.take 3 = ['.', '.', '.'])
    && isBlankOrEnd (c.peekAt 3)

/-- Skip a comment up to the end of its line. -/
def skipComment (c : Cursor) : Cursor :=
  if c.peek = '#' then c.skipWhile (!isBreakOrEnd ·) else c

end Cursor
end ContextConfig.Yaml
