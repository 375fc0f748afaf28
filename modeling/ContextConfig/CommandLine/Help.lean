import ContextConfig.CommandLine.Run
/-!
# Help pages

A help page names the options and the commands, or what one command takes.
-/

namespace ContextConfig.CommandLine

namespace Command

def summary : Command → String
  | info => "Print the version and what the program is for."
  | contexts => "List every context with its validity; secrets are masked."
  | context => "Show the current context after overrides are applied."
  | useContext => "Make NAME the current context and save."
  | removeContext => "Delete context NAME and save."
  | configure => "Create or update a context from options, validate it, and save."
  | clearTokens => "Remove stored tokens from every context and save."

def takesName : Command → Bool
  | useContext | removeContext => true
  | _ => false

end Command

/-- A line for each option. -/
def optionLines (options : List (String × Meaning)) : String :=
  String.join (options.map fun (name, meaning) =>
    "  " ++ name ++ (match meaning with | .text _ => " TEXT" | _ => "") ++ "\n")

def helpPage : Option Command → String
  | some command =>
    "Usage: " ++ programName ++ " " ++ command.name ++ " [OPTIONS]"
      ++ (if command.takesName then " NAME" else "") ++ "\n\n  " ++ command.summary
      ++ "\n\nOptions:\n" ++ optionLines command.grammar.options
  | none =>
    "Usage: " ++ programName ++ " [OPTIONS] COMMAND [ARGS]...\n\nOptions:\n"
      ++ optionLines mainGrammar.options ++ "\nCommands:\n"
      ++ String.join (Command.all.map fun command =>
        "  " ++ command.name ++ "  " ++ command.summary ++ "\n")

/-- What an outcome prints. -/
def Outcome.output : Outcome → String
  | printed text => text
  | help command => helpPage command
  | noArguments => helpPage none
  | _ => ""

/-- What an outcome complains about; empty where there is nothing to complain about. -/
def Outcome.complaint : Outcome → String
  | usage error => error.message
  | refused why => why.message
  | failed error => error.message
  | _ => ""

end ContextConfig.CommandLine
