/-!
# Values that cannot be made

A document can be well formed and still ask for a value that does not exist: a number that cannot
be represented, a truth value of an unknown name, a point in time that is none. Or its parts lie in
one another deeper than the stack goes. Such a fault is not a flaw of the document's form and is
kept apart from it.
-/

namespace ContextConfig

/-- The calls of a reader that can be in progress at once. The stack takes a thousand, and those that
called the reader are among them. -/
def maxCalls : Nat := 980

/-- What there can be too much of. -/
inductive Excess where
  | number
  | nesting
  deriving DecidableEq, Repr

inductive Fault where
  /-- a number, a point in time or a character that does not exist -/
  | unrepresentable
  /-- a number beyond every machine word, or more calls than the stack takes -/
  | overflow {of : Excess}
  /-- a truth value of an unknown name -/
  | unknownWord
  /-- a number without any digit -/
  | noDigits
  /-- a timestamp that is none -/
  | notATimestamp
  /-- a timestamp that is no text -/
  | notAText
  deriving DecidableEq, Repr

namespace Fault

/-- A number is beyond every machine word. -/
def tooLarge : Fault := @overflow .number

/-- A text is nested deeper than the stack goes. -/
def tooNested : Fault := @overflow .nesting

def message : Fault → String
  | unrepresentable => "a value is out of range"
  | @overflow .number => "a number is too large"
  | @overflow .nesting => "the nesting is too deep"
  | unknownWord => "a truth value has an unknown name"
  | noDigits => "a number has no digits"
  | notATimestamp => "a timestamp cannot be read"
  | notAText => "a timestamp is not a text"

end Fault
end ContextConfig
