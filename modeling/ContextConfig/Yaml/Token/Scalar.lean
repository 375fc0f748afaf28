import ContextConfig.Text.Hex
import ContextConfig.Yaml.Cursor
import ContextConfig.Yaml.Stop
/-!
# Scalars

A scalar is written plain, between quotes, or as an indented block. Each reader takes the cursor at
the scalar and gives the text with the place after it. Line breaks inside a plain or quoted scalar
are folded: a single one is a space, and of several the first is dropped.
-/

namespace ContextConfig.Yaml

abbrev Read (α : Type) := Except Stop (α × Cursor)

namespace Plain

/-- Whether a colon is followed by something that makes it an indicator. -/
def isColonEnd (flow : Bool) (c : Char) : Bool :=
  isBlankOrEnd c || flow && [',', '[', ']', '\x7b', '\x7d'].contains c

/-- The longest run of plain characters. -/
def word (flow : Bool) : List Char → List Char
  | [] => []
  | c :: rest =>
    if isBlankOrEnd c then []
    else if c = ':' && isColonEnd flow (rest.headD '\x00') then []
    else if flow && [',', '?', '[', ']', '\x7b', '\x7d'].contains c then []
    else c :: word flow rest

/-- The line breaks among the breaks and spaces at the cursor; nothing when a document marker
starts a line. -/
def breaks : Nat → Cursor → Option (List Char) × Cursor
  | 0, c => (some [], c)
  | fuel + 1, c =>
    if c.peek = ' ' then breaks fuel c.next
    else if isBreak c.peek then
      let (lineBreak, c) := c.lineBreak
      if c.atMarker then (none, c)
      else
        let (more, c) := breaks fuel c
        (more.map (lineBreak ++ ·), c)
    else (some [], c)

/-- Fold a first line break and those after it. -/
def fold (first more : List Char) : List Char :=
  if first ≠ ['\n'] then first ++ more else if more = [] then [' '] else more

/-- The space between two words: its text, the place after it, and whether it broke a line. No
text means that the scalar ends here. -/
def space (c : Cursor) : List Char × Cursor × Bool :=
  let (blanks, c) := c.span (· = ' ')
  if isBreak c.peek then
    let (first, c) := c.lineBreak
    if c.atMarker then ([], c, true)
    else
      match breaks (c.rest.length + 1) c with
      | (none, c) => ([], c, true)
      | (some more, c) => (fold first more, c, true)
  else (blanks, c, false)

/-- Words with the space between them. The scalar ends at a comment, at an indicator, and at a line
that is not indented to `indent`. The flag tells whether the place reached starts a line. -/
def read (flow : Bool) (indent : Int) : Nat → Cursor → List Char × Cursor × Bool
  | 0, c => ([], c, false)
  | fuel + 1, c =>
    match word flow c.rest with
    | [] => ([], c, false)
    | chars =>
      let (gap, c', broke) := space (c.skip chars.length)
      if gap = [] || c'.peek = '#' || (!flow && c'.column < indent) then (chars, c', broke)
      else
        match word flow c'.rest with
        | [] => (chars, c', broke)
        | _ =>
          let (more, c', broke) := read flow indent fuel c'
          (chars ++ gap ++ more, c', broke)

end Plain

namespace Quoted

/-- The character for the letter of a short escape. -/
def shortEscape? : Char → Option Char
  | '0' => some '\x00'
  | 'a' => some '\x07'
  | 'b' => some '\x08'
  | 't' => some '\t'
  | '\t' => some '\t'
  | 'n' => some '\n'
  | 'v' => some '\x0B'
  | 'f' => some '\x0C'
  | 'r' => some '\r'
  | 'e' => some '\x1B'
  | ' ' => some ' '
  | '\x22' => some '\x22'
  | '\\' => some '\\'
  | '/' => some '/'
  | 'N' => some '\x85'
  | '_' => some '\xA0'
  | 'L' => some '\u2028'
  | 'P' => some '\u2029'
  | _ => none

/-- The number of digits after the letter of a code escape. -/
def codeLength? : Char → Option Nat
  | 'x' => some 2
  | 'u' => some 4
  | 'U' => some 8
  | _ => none

/-- The character of a code. A surrogate is none and is replaced. -/
def charOfCode (code : Nat) : Except Stop Char :=
  if 0x80000000 ≤ code then .error (.fault .tooLarge)
  else if 0x110000 ≤ code then .error (.fault .unrepresentable)
  else if 0xD800 ≤ code && code ≤ 0xDFFF then .ok '\uFFFD'
  else .ok (Char.ofNat code)

/-- The line breaks between two lines of a scalar and the blanks that start them. A document marker
is not allowed inside. -/
def breaks : Nat → Cursor → Read (List Char)
  | 0, c => .ok ([], c)
  | fuel + 1, c =>
    if c.atMarker then .error .malformed
    else
      let c := c.skipWhile fun x => x = ' ' || x = '\t'
      if isBreak c.peek then
        let (lineBreak, c) := c.lineBreak
        (breaks fuel c).map fun (more, c) => (lineBreak ++ more, c)
      else .ok ([], c)

/-- An escape, from the character after the backslash on. -/
def escape (c : Cursor) : Read (List Char) :=
  match shortEscape? c.peek with
  | some x => .ok ([x], c.next)
  | none =>
    match codeLength? c.peek with
    | some length =>
      let digits := c.next.rest.take length
      if digits.length < length then .error .malformed
      else match Text.hexNumber? digits with
        | none => .error .malformed
        | some code => (charOfCode code).map fun x => ([x], c.next.skip length)
    | none =>
      if isBreak c.peek then
        let (_, c) := c.lineBreak
        breaks (c.rest.length + 1) c
      else .error .malformed

/-- The text up to the next blank, line break or closing quote. -/
def word (double : Bool) : Nat → Cursor → Read (List Char)
  | 0, c => .ok ([], c)
  | fuel + 1, c =>
    let x := c.peek
    if isBlankOrEnd x then .ok ([], c)
    else if !double && x = '\x27' then
      if c.peekAt 1 = '\x27' then
        (word double fuel (c.skip 2)).map fun (more, c) => ('\x27' :: more, c)
      else .ok ([], c)
    else if double && x = '\x22' then .ok ([], c)
    else if double && x = '\\' then
      match escape c.next with
      | .error stop => .error stop
      | .ok (chars, c) => (word double fuel c).map fun (more, c) => (chars ++ more, c)
    else (word double fuel c.next).map fun (more, c) => (x :: more, c)

/-- The blanks or the folded line breaks between two words. -/
def space (c : Cursor) : Read (List Char) :=
  let (blanks, c) := c.span fun x => x = ' ' || x = '\t'
  if isEnd c.peek then .error .malformed
  else if isBreak c.peek then
    let (first, c) := c.lineBreak
    (breaks (c.rest.length + 1) c).map fun (more, c) => (Plain.fold first more, c)
  else .ok (blanks, c)

/-- Words and the space between them up to the closing quote. -/
def body (double : Bool) (quote : Char) : Nat → Cursor → Except Stop (List Char × Cursor)
  | 0, _ => .error .malformed
  | fuel + 1, c => do
    let (chars, c) ← word double (c.rest.length + 1) c
    if c.peek = quote then .ok (chars, c.next)
    else
      let (gap, c) ← space c
      let (more, c) ← body double quote fuel c
      .ok (chars ++ gap ++ more, c)

/-- A quoted scalar, from its opening quote on. -/
def read (double : Bool) (c : Cursor) : Except Stop (List Char × Cursor) :=
  body double (if double then '\x22' else '\x27') (c.rest.length + 1) c.next

end Quoted

namespace Block

/-- What happens to the line breaks at the end of a block. -/
inductive Chomping where
  | strip
  | clip
  | keep
  deriving DecidableEq, Repr

/-- A sign for the chomping or a digit for the indentation. -/
def chomping? : Char → Option Chomping
  | '+' => some .keep
  | '-' => some .strip
  | _ => none

/-- The digit that sets the indentation. Zero is refused. -/
def increment (c : Cursor) : Read (Option Nat) :=
  if c.peek = '0' then .error .malformed
  else if c.peek.isDigit then .ok (some (c.peek.toNat - 48), c.next)
  else .ok (none, c)

/-- The indicators of a block in either order. -/
def header (c : Cursor) : Except Stop ((Chomping × Option Nat) × Cursor) := do
  let (result, c) ← match chomping? c.peek with
    | some chomping => (increment c.next).map fun (n, c) => ((chomping, n), c)
    | none => do
      let (n, c) ← increment c
      match n, chomping? c.peek with
      | some n, some chomping => Except.ok ((chomping, some n), c.next)
      | n, _ => Except.ok ((.clip, n), c)
  if isSpaceOrEnd c.peek then .ok (result, c) else .error .malformed

/-- The rest of the line of the indicators: a comment at most. -/
def headerEnd (c : Cursor) : Except Stop Cursor :=
  let c := c.skipSpaces.skipComment
  if isBreakOrEnd c.peek then .ok c.lineBreak.2 else .error .malformed

/-- The empty lines at the start of a block and the deepest indentation among them and the first
line of text. -/
def leading : Nat → Nat → Cursor → List Char × Nat × Cursor
  | 0, deepest, c => ([], deepest, c)
  | fuel + 1, deepest, c =>
    if c.peek = ' ' then leading fuel (max deepest c.next.column) c.next
    else if isBreak c.peek then
      let (lineBreak, c) := c.lineBreak
      let (more, deepest, c) := leading fuel deepest c
      (lineBreak ++ more, deepest, c)
    else ([], deepest, c)

/-- Skip spaces as far as the indentation reaches. -/
def skipIndent : Nat → Nat → Cursor → Cursor
  | 0, _, c => c
  | fuel + 1, indent, c =>
    if c.column < indent && c.peek = ' ' then skipIndent fuel indent c.next else c

/-- The line breaks of empty lines, up to the indentation of the next line. -/
def breaks : Nat → Nat → Cursor → List Char × Cursor
  | 0, _, c => ([], c)
  | fuel + 1, indent, c =>
    let c := skipIndent (c.rest.length + 1) indent c
    if isBreak c.peek then
      let (lineBreak, c) := c.lineBreak
      let (more, c) := breaks fuel indent c
      (lineBreak ++ more, c)
    else ([], c)

def isBlank (c : Char) : Bool := c = ' ' || c = '\t'

/-- Lines of text at an indentation, and the chomped breaks after the last one. In a folded block
the break between two lines that start with text is a space, or nothing before empty lines. -/
def lines (folded : Bool) (chomping : Chomping) (indent : Nat) :
    Nat → List Char → List Char → Cursor → List Char × Cursor
  | 0, _, _, c => ([], c)
  | fuel + 1, empty, lineBreak, c =>
    if c.column = indent && !isEnd c.peek then
      let startsText := !isBlank c.peek
      let (line, c) := c.span (!isBreakOrEnd ·)
      let (lineBreak, c) := c.lineBreak
      let (empty', c) := breaks (c.rest.length + 1) indent c
      let glue :=
        if c.column = indent && !isEnd c.peek then
          if folded && lineBreak = ['\n'] && startsText && !isBlank c.peek then
            if empty' = [] then [' '] else []
          else lineBreak
        else []
      let (more, c) := lines folded chomping indent fuel empty' lineBreak c
      (empty ++ line ++ glue ++ more, c)
    else
      match chomping with
      | .strip => ([], c)
      | .clip => (lineBreak, c)
      | .keep => (lineBreak ++ empty, c)

/-- A block scalar, from its indicator on, inside a collection indented to `parent`. -/
def read (folded : Bool) (parent : Int) (c : Cursor) : Except Stop (List Char × Cursor) := do
  let ((chomping, n), c) ← header c.next
  let c ← headerEnd c
  let least := (parent + 1).toNat.max 1
  match n with
  | some n =>
    let indent := least + n - 1
    let (empty, c) := breaks (c.rest.length + 1) indent c
    .ok (lines folded chomping indent (c.rest.length + 1) empty [] c)
  | none =>
    let (empty, deepest, c) := leading (c.rest.length + 1) 0 c
    let indent := max least deepest
    .ok (lines folded chomping indent (c.rest.length + 1) empty [] c)

end Block
end ContextConfig.Yaml
