import ContextConfig.Text.Split
/-!
# Arguments

A command takes options and operands. An option that needs a text is followed by it or carries it
after an equals sign; the others stand alone. The argument `--` makes everything after it an
operand. Where operands may be mixed with options, both are collected; otherwise the first operand
ends the options, and what follows belongs to it.
-/

namespace ContextConfig.CommandLine

/-- The options that need a text. -/
inductive TextOption where
  | context
  | host
  | token
  | user
  | password
  | timeout
  | kerberosConf
  | kerberosRealm
  | kerberosKeytab
  | kerberosCache
  | indent
  deriving DecidableEq, Repr

/-- The options that are on or off. -/
inductive Switch where
  | debug
  | traceback
  deriving DecidableEq, Repr

/-- What an option stands for, before its text is known. -/
inductive Meaning where
  | text (option : TextOption)
  | toggle (which : Switch) (on : Bool)
  | help
  | version
  deriving DecidableEq, Repr

/-- An option as it is given. -/
inductive Given where
  | text (option : TextOption) (value : String)
  | toggle (which : Switch) (on : Bool)
  | help
  | version
  deriving DecidableEq, Repr

/-- Why arguments cannot be understood. -/
inductive UsageError where
  | unknownOption (name : String)
  | missingValue (name : String)
  | unexpectedValue (name : String)
  | missingCommand
  | unknownCommand (name : String)
  | missingOperand
  | extraOperands (operands : List String)
  | notAnInteger (text : String)
  | severalTicketSources
  deriving DecidableEq, Repr

def UsageError.message : UsageError → String
  | unknownOption name => "No such option: " ++ name
  | missingValue name => "Option '" ++ name ++ "' requires an argument"
  | unexpectedValue name => "Option '" ++ name ++ "' does not take a value"
  | missingCommand => "Missing command"
  | unknownCommand name => "No such command '" ++ name ++ "'"
  | missingOperand => "Missing argument 'NAME'"
  | extraOperands operands => "Got unexpected extra arguments: " ++ " ".intercalate operands
  | notAnInteger text => "'" ++ text ++ "' is not a valid integer"
  | severalTicketSources => "--kerberos-keytab and --kerberos-ccache are mutually exclusive"

/-- The options of a command, and whether operands may stand between them. -/
structure Grammar where
  options : List (String × Meaning)
  mixed : Bool

/-- The short name of the option for help; it can be repeated in one argument. -/
def helpLetter : Char := 'h'

def Grammar.meaning? (g : Grammar) (name : String) : Option Meaning :=
  (g.options.find? (·.1 = name)).map Prod.snd

/-- Whether an argument is read as an option. -/
def looksLikeOption (arg : String) : Bool :=
  match arg.toList with
  | '-' :: _ :: _ => true
  | _ => false

/-- An argument as the name of an option and the text after its first equals sign. -/
def splitValue (arg : String) : String × Option String :=
  let chars := arg.toList
  match chars.dropWhile (· ≠ '=') with
  | [] => (arg, none)
  | _ :: value => (String.ofList (chars.takeWhile (· ≠ '=')), some (String.ofList value))

/-- The requests for help that one argument of short names stands for. -/
def readLetters (arg : String) : Except UsageError (List Given) :=
  match arg.toList with
  | '-' :: '-' :: _ => .error (.unknownOption arg)
  | '-' :: letters =>
    if letters.all (· = helpLetter) then .ok (letters.map fun _ => .help)
    else .error (.unknownOption arg)
  | _ => .error (.unknownOption arg)

/-- Options and operands. -/
abbrev Arguments := List Given × List String

/-- Options in front of what comes later. -/
def followedBy (given : List Given) (later : Except UsageError Arguments) :
    Except UsageError Arguments :=
  later.map fun (more, operands) => (given ++ more, operands)

/-- The options and the operands among arguments. -/
def Grammar.read (g : Grammar) : List String → Except UsageError Arguments
  | [] => .ok ([], [])
  | arg :: rest =>
    if arg = "--" then .ok ([], rest)
    else if !looksLikeOption arg then
      if g.mixed then (g.read rest).map fun (given, operands) => (given, arg :: operands)
      else .ok ([], arg :: rest)
    else
      match g.meaning? (splitValue arg).1, (splitValue arg).2, rest with
      | some (.text option), some value, rest => followedBy [.text option value] (g.read rest)
      | some (.text option), none, value :: rest => followedBy [.text option value] (g.read rest)
      | some (.text _), none, [] => .error (.missingValue arg)
      | some (.toggle which on), none, rest => followedBy [.toggle which on] (g.read rest)
      | some .help, none, rest => followedBy [.help] (g.read rest)
      | some .version, none, rest => followedBy [.version] (g.read rest)
      | some _, some _, _ => .error (.unexpectedValue (splitValue arg).1)
      | none, _, rest =>
        match readLetters arg with
        | .ok letters => followedBy letters (g.read rest)
        | .error error => .error error

end ContextConfig.CommandLine
