import ContextConfig.Codec
import ContextConfig.Path
import ContextConfig.Text.Quoted
/-!
# Errors

Whatever goes wrong has one of a few kinds: something is missing, a file has no usable format, a
configuration is not valid, the operating system refuses, or a document asks for a value that does
not exist. Each error keeps what it is about; `message` puts it into words.
-/

namespace ContextConfig

/-- Refusals of the operating system. -/
inductive Errno where
  | noEntry
  | denied
  | busy
  | fileExists
  | notADirectory
  | isADirectory
  | nameTooLong
  | ioError
  deriving DecidableEq, Repr

namespace Errno

def code : Errno → Nat
  | noEntry => 2
  | ioError => 5
  | denied => 13
  | busy => 16
  | fileExists => 17
  | notADirectory => 20
  | isADirectory => 21
  | nameTooLong => 36

/-- Whether a refusal says that nothing is there. -/
def isAbsence : Errno → Bool
  | noEntry | notADirectory => true
  | _ => false

def text : Errno → String
  | noEntry => "No such file or directory"
  | ioError => "Input/output error"
  | denied => "Permission denied"
  | busy => "Device or resource busy"
  | fileExists => "File exists"
  | notADirectory => "Not a directory"
  | isADirectory => "Is a directory"
  | nameTooLong => "File name too long"

/-- What the operating system says about a path. -/
def message (e : Errno) (path : String) : String :=
  "[Errno " ++ toString e.code ++ "] " ++ e.text ++ ": "
    ++ String.ofList (Text.quoted path.toList)

end Errno

inductive Missing where
  | file (path : String)
  | inDirectory (directory : String)
  | anywhere (roots : List String)
  | context (name : String)
  | home
  deriving DecidableEq, Repr

/-- The environment variable that overrides the home directory of configurations. -/
def homeVariable : String := "LENSES_CONFIG_DIR"

def Missing.message : Missing → String
  | file path => "Configuration file not found: " ++ path
  | inDirectory directory => "No configuration file found in " ++ directory
  | anywhere roots =>
    "No configuration file found in: "
      ++ if roots = [] then "(no search roots)" else ", ".intercalate roots
  | context name => "Context '" ++ name ++ "' does not exist"
  | home => "Cannot determine the home directory; set " ++ homeVariable

/-- The files of a directory that are there but cannot be used. -/
structure BrokenFiles where
  invalid : List String
  unreadable : List String
  deriving DecidableEq, Repr

def formats : String := "JSON, YAML"

def BrokenFiles.message (b : BrokenFiles) : String :=
  let invalid :=
    if b.invalid = [] then []
    else ["Configuration file(s) " ++ ", ".intercalate b.invalid
      ++ " exist but are not formatted as a compatible document: " ++ formats]
  let unreadable :=
    if b.unreadable = [] then []
    else ["Configuration file(s) " ++ ", ".intercalate b.unreadable ++ " exist but cannot be read"]
  "; ".intercalate (invalid ++ unreadable)

inductive FormatError where
  | decode (error : DecodeError)
  | noFormat (path : String)
  | directory (broken : BrokenFiles)
  | search (broken : List BrokenFiles)
  deriving DecidableEq, Repr

namespace FormatError

def message : FormatError → String
  | decode error => error.message
  | noFormat path =>
    "Configuration file '" ++ path ++ "' is not formatted as a compatible document: " ++ formats
  | directory broken => broken.message
  | search broken => "; ".intercalate (broken.map BrokenFiles.message)

/-- The files that were read and have no usable format, in the order of the search. -/
def paths : FormatError → List String
  | directory broken => broken.invalid
  | search broken => broken.flatMap (·.invalid)
  | _ => []

end FormatError

inductive Invalid where
  | noContexts
  | contexts (names : List String)
  | duration (text : String)
  | incomplete (context : String)
  deriving DecidableEq, Repr

def Invalid.message : Invalid → String
  | noContexts => "No contexts configured; run 'configure' first"
  | contexts names =>
    "Context(s) " ++ ", ".intercalate names
      ++ " need a host and either a token or authentication; run 'configure'"
  | duration text => "Invalid duration " ++ String.ofList (Text.quoted text.toList)
  | incomplete context =>
    "Context '" ++ context ++ "' needs a host and either a token or credentials"

inductive Error where
  | missing (what : Missing)
  | format (error : FormatError)
  | invalid (why : Invalid)
  | system (errno : Errno) (path : String)
  | fault (fault : Fault)
  deriving DecidableEq, Repr

namespace Error

/-- An error in words. -/
def message : Error → String
  | missing what => what.message
  | format flaw => flaw.message
  | invalid why => why.message
  | system errno path => errno.message path
  | fault why => why.message

/-- An error of decoding: a fault stays one. -/
def ofDecode : DecodeError → Error
  | .fault f => .fault f
  | error => .format (.decode error)

end Error

namespace Duration

/-- The length of a timeout in seconds; none if there is no timeout. -/
def parse (value : String) : Except Error (Option Duration) :=
  match readChars value.toList with
  | .unset => .ok none
  | .read duration => .ok (some duration)
  | .malformed => .error (.invalid (.duration value))

end Duration

namespace Configuration

/-- Refuse a configuration that is not valid. -/
def check (c : Configuration) : Except Error Unit :=
  if c.contexts.isEmpty then .error (.invalid .noContexts)
  else match c.invalidContexts with
    | [] => .ok ()
    | names => .error (.invalid (.contexts names))

end Configuration
end ContextConfig
