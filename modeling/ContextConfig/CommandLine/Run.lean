import ContextConfig.CommandLine.Command
import ContextConfig.Session
/-!
# Running a command

An invocation loads the configuration, applies the options in front of the command and then runs
the command, whose own arguments are only looked at when that has succeeded. All of this only reads
the tree and comes to a plan: an outcome, or a session that is to be saved. Saving is the last thing
that happens.
-/

namespace ContextConfig.CommandLine

/-- What is known about the running program, and what the operating system refuses it. -/
structure Program where
  environment : Environment
  platform : String := defaultPlatform
  userHome : String := ""
  firstArgument : String := ""
  interpreter : Path
  refusals : Refusals := noRefusals

inductive Refusal where
  | unknownContext (name : String)
  | lastContext (name : String)
  deriving DecidableEq, Repr

def Refusal.message : Refusal → String
  | unknownContext name => "Context '" ++ name ++ "' does not exist"
  | lastContext name =>
    "Cannot remove context '" ++ name ++ "': no other valid context can become current"

/-- What an invocation ends with. -/
inductive Outcome where
  | printed (text : String)
  | help (command : Option Command)
  | noArguments
  | usage (error : UsageError)
  | refused (why : Refusal)
  | failed (error : Error)
  deriving DecidableEq, Repr

/-- The exit code of an error. -/
def exitCode : Error → Nat
  | .system errno _ => errno.code
  | .fault .unrepresentable | .fault .notAText => 22
  | _ => 1

def Outcome.exitCode : Outcome → Nat
  | printed _ | help _ => 0
  | noArguments | usage _ => 2
  | refused _ => 1
  | failed error => CommandLine.exitCode error

def programName : String := "lenses_config"

def programVersion : String := "0.1.0"

def versionText : String := programName ++ " version " ++ programVersion ++ "\n"

def infoText : String :=
  "Info for " ++ programName ++ ":\n  Version         : " ++ programVersion
    ++ "\n  Requires-Python : >=3.10\n  Summary         : "
    ++ "Multi-context connection configuration for the Lenses command line client\n"

/-- The widest indentation that can be asked for. -/
def maxIndent : Nat := Nat.pow 2 63

/-- How a report is laid out: on one line, or indented by some columns. -/
def layout : Option Int → Except Error Json.Layout
  | none => .ok .compact
  | some columns =>
    if columns < -maxIndent || (maxIndent : Int) ≤ columns then .error (.fault .tooLarge)
    else .ok (.indented columns.toNat)

/-- A report as it is printed. -/
def report (indent : Option Int) (value : Json) : Outcome :=
  match layout indent with
  | .ok layout => .printed (value.render layout ++ "\n")
  | .error error => .failed error

/-- What is reported of all contexts. -/
def contextsReport (c : Configuration) : Json :=
  .array (c.contexts.entries.map fun (name, client) =>
    .object ([("name", .string name), ("current", .bool (name == c.current)),
      ("valid", .bool client.isValid)] ++ client.describeFields))

/-- What is reported of one context. -/
def contextReport (name : String) (client : Client) : Json :=
  .object (("name", .string name) :: client.describeFields)

/-- The settings that options describe for the current context of a configuration. -/
def settingsFor (c : Configuration) (given : List Given) : Except UsageError Client :=
  settings given ((c.currentClient?.map Client.debug).getD false)

/-- The session of a program before anything is loaded. -/
def startSession (p : Program) (w : World) : Session where
  locations :=
    { cwd := w.workingDirectory
      executable := defaultExecutable w p.firstArgument p.interpreter
      environment := p.environment
      platform := p.platform
      userHome := p.userHome }

/-- What a command comes to before anything is written: an outcome, or a session that is to be saved
and what is printed of the path then. -/
inductive Plan where
  | finish (outcome : Outcome)
  | save (s : Session) (text : Path → String)

/-- Carry out a plan. -/
def Plan.run (p : Program) (w : World) : Plan → Logged (Outcome × World)
  | finish outcome => return (outcome, w)
  | save s text => do
    match ← s.save w p.refusals none none with
    | (.ok path, _, w) => return (.printed (text path ++ "\n"), w)
    | (.error error, _, w) => return (.failed error, w)

def showContext (s : Session) (overrides : List Layer) (indent : Option Int) : Logged Outcome := do
  let (_, s) ← s.applyOverrides overrides
  match s.validate with
  | (.ok client, s) => return report indent (contextReport s.configuration.current client)
  | (.error error, _) => return .failed error

def planUseContext (s : Session) (name : String) : Logged Plan := do
  match ← s.useContext name true with
  | (.error error, _) => return .finish (.failed error)
  | (.ok (), s) =>
    return .save s fun path => "Current context is now '" ++ name ++ "' (" ++ path.text ++ ")"

def planRemoveContext (s : Session) (name : String) : Logged Plan := do
  if !s.configuration.contexts.contains name then
    return .finish (.refused (.unknownContext name))
  else
    match ← s.removeContext name with
    | (false, _) => return .finish (.refused (.lastContext name))
    | (true, s) =>
      return .save s fun _ =>
        "Removed context '" ++ name ++ "'; current context is '" ++ s.configuration.current ++ "'"

/-- The configuration that is to be changed, with the context that is asked for made current. -/
def stage (c : Configuration) (context : String) : Configuration :=
  c.setCurrent (if context = "" then c.currentName else context)

/-- Change a copy of the configuration. It only replaces the configuration when it is valid. -/
def planConfigure (s : Session) (overrides : List Layer) (context : String) (given : List Given) :
    Logged Plan := do
  let staged := stage s.configuration context
  match settingsFor staged given with
  | .error error => return .finish (.usage error)
  | .ok settings =>
    let (valid, staged) ← staged.fillLayers (overrides ++ [⟨"configure", settings⟩])
    if !valid then return .finish (.failed (.invalid (.incomplete staged.current)))
    else
      match s.commit staged with
      | .error error => return .finish (.failed error)
      | .ok s =>
        match s.validate with
        | (.error error, _) => return .finish (.failed error)
        | (.ok _, s) =>
          return .save s fun path =>
            "Saved context '" ++ s.configuration.current ++ "' to " ++ path.text

def planClearTokens (s : Session) : Plan :=
  .save { s with configuration := s.configuration.removeTokens } fun path =>
    "Cleared tokens in " ++ path.text

/-- What a command is asked to do, done in the session. -/
def Request.plan (r : Request) (s : Session) (overrides : List Layer) : Logged Plan :=
  match r with
  | .info => return .finish (.printed infoText)
  | .contexts indent => return .finish (report indent (contextsReport s.configuration))
  | .context indent => return .finish (← showContext s overrides indent)
  | .useContext name => planUseContext s name
  | .removeContext name => planRemoveContext s name
  | .configure chosen given => planConfigure s overrides chosen given
  | .clearTokens => return planClearTokens s

/-- Make the context current that the options name, if they name one. -/
def selectContext (s : Session) (name : String) : Logged (Except Error Unit × Session) :=
  if name = "" then return (.ok (), s) else s.useContext name true

/-- Load the configuration and apply the options in front of the command. -/
def Invocation.prepare (i : Invocation) (p : Program) (w : World) :
    Logged (Except Outcome (Session × List Layer)) := do
  match ← (startSession p w).load w (i.command == .configure) with
  | (.error error, _) => return .error (.failed error)
  | (.ok _, s) =>
    match ← selectContext s (textOf .context i.given) with
    | (.error error, _) => return .error (.failed error)
    | (.ok (), s) =>
      match settingsFor s.configuration i.given with
      | .error error => return .error (.usage error)
      | .ok settings => return .ok (s, [⟨"flags", settings⟩])

/-- What an invocation comes to. -/
def Invocation.plan (i : Invocation) (p : Program) (w : World) : Logged Plan := do
  match ← i.prepare p w with
  | .error outcome => return .finish outcome
  | .ok (s, overrides) =>
    match i.command.parse i.arguments with
    | .help => return .finish (.help (some i.command))
    | .version => return .finish (.printed versionText)
    | .usage error => return .finish (.usage error)
    | .proceed request => request.plan s overrides

/-- What the arguments of the program come to. -/
def plan (p : Program) (w : World) (args : List String) : Logged Plan :=
  if args = [] then return .finish .noArguments
  else
    match parse args with
    | .help => return .finish (.help none)
    | .version => return .finish (.printed versionText)
    | .usage error => return .finish (.usage error)
    | .proceed invocation => invocation.plan p w

/-- Run the program with its arguments. -/
def run (p : Program) (w : World) (args : List String) : Logged (Outcome × World) := do
  (← plan p w args).run p w

end ContextConfig.CommandLine
