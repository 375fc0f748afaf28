import ContextConfig.Text.Blank
import ContextConfig.Text.Pattern
/-!
# Tags of plain scalars

A tag says what kind of value a node stands for. A plain scalar without a tag gets the one of the
first rule whose pattern it matches, and is a text if there is none. A rule is only tried on texts
that start with one of its characters. `standardRules` is the whole table; `textualRules` leaves
out the numbers, so that a number that is written as a plain scalar stays the text it is.
-/

namespace ContextConfig.Yaml

inductive Tag where
  | null
  | bool
  | int
  | float
  | binary
  | timestamp
  | omap
  | pairs
  | set
  | str
  | seq
  | map
  | merge
  | value
  | unknown
  deriving DecidableEq, Repr

namespace Tag

/-- What all standard tags begin with. -/
def standardUri : List Char := "tag:yaml.org,2002:".toList

/-- The standard tags that a complete tag can name. -/
def named : List (String × Tag) :=
  [("null", null), ("bool", bool), ("int", int), ("float", float), ("binary", binary),
    ("timestamp", timestamp), ("omap", omap), ("pairs", pairs), ("set", set), ("str", str),
    ("seq", seq), ("map", map), ("merge", merge), ("value", value)]

/-- The tag that a complete one names. -/
def ofUri (uri : List Char) : Tag :=
  ((named.find? fun entry => standardUri ++ entry.1.toList = uri).map Prod.snd).getD unknown

end Tag

/-- The texts that a tag is given to, and the characters they can start with; no character stands
for the start of the empty text. -/
structure Rule where
  tag : Tag
  starts : List (Option Char)
  pattern : Text.Pattern

namespace Rule

open Text.Pattern

def digit : Text.Pattern := char Char.isDigit

def digitOrUnderscore : Text.Pattern := char fun c => c.isDigit || c = '_'

def sign : Text.Pattern := optional (oneOf ['-', '+'])

/-- A digit, then digits and underscores. -/
def digits : Text.Pattern := seq digit (many digitOrUnderscore)

def exponent : Text.Pattern := optional (seqs [oneOf ['e', 'E'], oneOf ['-', '+'], some1 digit])

/-- Further places of a number in base sixty. -/
def sixtieths : Text.Pattern :=
  some1 (seqs [char (· = ':'), optional (char fun c => '0' ≤ c && c ≤ '5'), digit])

def point : Text.Pattern := char (· = '.')

def digitStarts : List (Option Char) := "0123456789".toList.map some

def bool : Rule where
  tag := .bool
  starts := "yYnNtTfFoO".toList.map some
  pattern := words ["yes", "Yes", "YES", "no", "No", "NO", "true", "True", "TRUE",
    "false", "False", "FALSE", "on", "On", "ON", "off", "Off", "OFF"]

def float : Rule where
  tag := .float
  starts := [some '-', some '+'] ++ digitStarts ++ [some '.']
  pattern := alts [
    seqs [sign, digits, point, many digitOrUnderscore, exponent],
    seqs [point, digits, exponent],
    seqs [sign, digits, sixtieths, point, many digitOrUnderscore],
    seqs [sign, words [".inf", ".Inf", ".INF"]],
    words [".nan", ".NaN", ".NAN"]]

def int : Rule where
  tag := .int
  starts := [some '-', some '+'] ++ digitStarts
  pattern := alts [
    seqs [sign, literal ['0', 'b'], some1 (oneOf ['0', '1', '_'])],
    seqs [sign, literal ['0'], some1 (char fun c => '0' ≤ c && c ≤ '7' || c = '_')],
    seqs [sign, alt (literal ['0'])
      (seq (char fun c => '1' ≤ c && c ≤ '9') (many digitOrUnderscore))],
    seqs [sign, literal ['0', 'x'], some1 (char fun c =>
      c.isDigit || 'a' ≤ c && c ≤ 'f' || 'A' ≤ c && c ≤ 'F' || c = '_')],
    seqs [sign, char fun c => '1' ≤ c && c ≤ '9', many digitOrUnderscore, sixtieths]]

def merge : Rule where
  tag := .merge
  starts := [some '<']
  pattern := literal ['<', '<']

def null : Rule where
  tag := .null
  starts := [some '~', some 'n', some 'N', none]
  pattern := alt (words ["~", "null", "Null", "NULL"]) empty

/-- A date, in the one form that needs no time after it. -/
def date : Text.Pattern :=
  seqs [digit, digit, digit, digit, char (· = '-'), digit, digit, char (· = '-'), digit, digit]

/-- A date with a time, a fraction of a second and a zone. -/
def moment : Text.Pattern :=
  seqs [digit, digit, digit, digit, char (· = '-'), digit, optional digit, char (· = '-'), digit,
    optional digit,
    alt (oneOf ['T', 't']) (some1 (oneOf [' ', '\t'])),
    digit, optional digit, char (· = ':'), digit, digit, char (· = ':'), digit, digit,
    optional (seq point (many digit)),
    optional (seq (many (oneOf [' ', '\t']))
      (alt (char (· = 'Z')) (seqs [oneOf ['-', '+'], digit, optional digit,
        optional (seqs [char (· = ':'), digit, digit])])))]

def timestamp : Rule where
  tag := .timestamp
  starts := digitStarts
  pattern := alt date moment

def value : Rule where
  tag := .value
  starts := [some '=']
  pattern := literal ['=']

/-- The indicators that stand for nothing by themselves. -/
def indicator : Rule where
  tag := .unknown
  starts := [some '!', some '&', some '*']
  pattern := oneOf ['!', '&', '*']

/-- Whether a rule applies to a text. One line feed at the end is overlooked. -/
def applies (r : Rule) (text : List Char) : Bool :=
  r.starts.contains text.head? &&
    (r.pattern.accepts text || text.getLast? = some '\n' && r.pattern.accepts text.dropLast)

end Rule

def standardRules : List Rule :=
  [.bool, .float, .int, .merge, .null, .timestamp, .value, .indicator]

/-- Whether a tag is one of the numbers. -/
def Tag.isNumeric (t : Tag) : Bool := t = .int || t = .float

def textualRules : List Rule := standardRules.filter (!·.tag.isNumeric)

/-- The tag of a plain scalar: that of the first rule that applies. -/
def implicitTag (rules : List Rule) (text : List Char) : Tag :=
  ((rules.find? (·.applies text)).map (·.tag)).getD .str

end ContextConfig.Yaml
