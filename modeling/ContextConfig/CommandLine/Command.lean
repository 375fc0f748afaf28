import ContextConfig.CommandLine.Settings
import ContextConfig.Text.Number
/-!
# Commands

The arguments of the program are its own options, the name of a command, and the arguments of that
command. A request for help or for the version counts before anything else that is given with it.
-/

namespace ContextConfig.CommandLine

inductive Command where
  | info
  | contexts
  | context
  | useContext
  | removeContext
  | configure
  | clearTokens
  deriving DecidableEq, Repr

/-- What a command is asked to do. -/
inductive Request where
  | info
  | contexts (indent : Option Int)
  | context (indent : Option Int)
  | useContext (name : String)
  | removeContext (name : String)
  | configure (context : String) (given : List Given)
  | clearTokens
  deriving DecidableEq, Repr

/-- What arguments come to: something to do, a text to show, or an error. -/
inductive Parsed (α : Type) where
  | proceed (what : α)
  | help
  | version
  | usage (error : UsageError)
  deriving DecidableEq, Repr

namespace Parsed

def ofExcept {α : Type} : Except UsageError α → Parsed α
  | .ok what => proceed what
  | .error error => usage error

/-- What follows from arguments. The first request for help or the version wins over it. -/
def ofArguments {α : Type} (read : Except UsageError Arguments) (f : Arguments → Parsed α) :
    Parsed α :=
  match read with
  | .error error => usage error
  | .ok arguments =>
    match arguments.1.find? fun option => option = .help || option = .version with
    | some .help => help
    | some .version => version
    | _ => f arguments

end Parsed

/-- The number of columns that is asked for. -/
def readIndent (given : List Given) : Except UsageError (Option Int) :=
  match textOf? .indent given with
  | none => .ok none
  | some text =>
    match Text.readInteger 10 text.toList with
    | some columns => .ok (some columns)
    | none => .error (.notAnInteger text)

namespace Command

def all : List Command :=
  [info, contexts, context, useContext, removeContext, configure, clearTokens]

def name : Command → String
  | info => "info"
  | contexts => "contexts"
  | context => "context"
  | useContext => "use-context"
  | removeContext => "remove-context"
  | configure => "configure"
  | clearTokens => "clear-tokens"

def ofName? (name : String) : Option Command := all.find? (·.name = name)

def options : Command → List (String × Meaning)
  | contexts | context => [("--indent", .text .indent)]
  | configure => ("--context", .text .context) :: connectionOptions
  | _ => []

def grammar (c : Command) : Grammar := ⟨("--help", .help) :: c.options, true⟩

/-- The single operand. -/
def operand : List String → Except UsageError String
  | [] => .error .missingOperand
  | [name] => .ok name
  | _ :: rest => .error (.extraOperands rest)

def noOperands : List String → Except UsageError Unit
  | [] => .ok ()
  | operands => .error (.extraOperands operands)

def request (c : Command) (arguments : Arguments) : Except UsageError Request := do
  let (given, operands) := arguments
  match c with
  | useContext => return .useContext (← operand operands)
  | removeContext => return .removeContext (← operand operands)
  | _ =>
    noOperands operands
    match c with
    | contexts => return .contexts (← readIndent given)
    | context => return .context (← readIndent given)
    | configure => return .configure (textOf .context given) given
    | clearTokens => return .clearTokens
    | _ => return .info

/-- The arguments of a command. -/
def parse (c : Command) (args : List String) : Parsed Request :=
  .ofArguments (c.grammar.read args) fun arguments => .ofExcept (c.request arguments)

end Command

/-- The options in front of a command. -/
def mainGrammar : Grammar where
  options :=
    [("--help", .help), ("--version", .version), ("--traceback", .toggle .traceback true),
      ("--no-traceback", .toggle .traceback false), ("--context", .text .context)]
      ++ connectionOptions
  mixed := false

/-- An invocation: the options in front of the command, the command and its arguments. -/
structure Invocation where
  given : List Given
  command : Command
  arguments : List String
  deriving DecidableEq, Repr

/-- The command after the options. Where there is none of that name, a request for help or the
version is still honoured. -/
def commandOf (arguments : Arguments) : Parsed Invocation :=
  match arguments.2 with
  | [] => .usage .missingCommand
  | name :: rest =>
    match Command.ofName? name with
    | some command => .proceed ⟨arguments.1, command, rest⟩
    | none =>
      .ofArguments (mainGrammar.read (name :: rest)) fun _ => .usage (.unknownCommand name)

/-- The arguments of the program. -/
def parse (args : List String) : Parsed Invocation :=
  .ofArguments (mainGrammar.read args) commandOf

end ContextConfig.CommandLine
