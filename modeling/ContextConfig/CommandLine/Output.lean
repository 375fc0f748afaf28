import ContextConfig.CommandLine.Help
/-!
# Printing

What an invocation has to say is printed after everything else, also after its configuration was
saved. Printing can fail: standard output can be closed, or can have no way to write a character.
Then the invocation ends with that error, and the tree is what it has become.
-/

namespace ContextConfig.CommandLine

/-- What goes wrong when a text is written to standard output, if anything does. -/
abbrev Output := String → Option Error

/-- An output that takes every text. -/
def Output.takesAll : Output := fun _ => none

/-- What goes wrong in printing an outcome. One that says nothing is not printed. -/
def Outcome.printing (output : Output) (outcome : Outcome) : Option Error :=
  if outcome.output = "" then none else output outcome.output

/-- What an invocation ends with once its outcome is printed. -/
def Outcome.printTo (output : Output) (outcome : Outcome) : Outcome :=
  match outcome.printing output with
  | none => outcome
  | some error => .failed error

/-- Run the program with its arguments and print what it comes to. -/
def invoke (output : Output) (p : Program) (w : World) (args : List String) :
    Logged (Outcome × World) := do
  let (outcome, w) ← run p w args
  return (outcome.printTo output, w)

end ContextConfig.CommandLine
