import ContextConfig.Document.Json
import ContextConfig.Document.Schema
import ContextConfig.Fault
import ContextConfig.Json.Printer
import ContextConfig.Json.Reader
import ContextConfig.Log
import ContextConfig.Yaml.Reader
import ContextConfig.Yaml.Writer
/-!
# Configurations as bytes

A configuration is stored in one of two formats, each with its own vocabulary. Decoding reports
what it made of a file; a file of the wrong shape is an error, and so is one that asks for a value
that does not exist, but the two are told apart: only the former lets a search go on.
-/

namespace ContextConfig

/-- Why bytes are no configuration. -/
inductive DecodeError where
  | json (path : String) (error : Json.Error)
  | yaml (path : String)
  | document (path : String) (format : Format) (error : DocumentError)
  | fault (fault : Fault)
  deriving DecidableEq, Repr

def DocumentError.message (format : Format) : DocumentError → String
  | notAMapping place => place ++ " is not a mapping"
  | missingContexts name => "missing '" ++ name ++ "' key for " ++ format.name ++ " documents"
  | notText place kind => place ++ " must be a string, got " ++ kind
  | notBoolean place kind => place ++ " must be a boolean, got " ++ kind
  | severalCredentials place names =>
    place ++ " declares more than one authentication (" ++ ", ".intercalate names ++ ")"
  | severalSources place names =>
    place ++ " declares more than one kerberos method (" ++ ", ".intercalate names ++ ")"
  | unshowableName => "a name is too long"

/-- The message of an error of the format. -/
def DecodeError.message : DecodeError → String
  | json path error => "Invalid JSON in " ++ path ++ ": " ++ error.message
  | yaml path => "Invalid YAML in " ++ path
  | document path format error => "File " ++ path ++ ": " ++ error.message format
  | fault _ => ""

/-- What a search needs of formats: a name for each and what bytes decode to in it. -/
class Decoder (κ : Type) where
  name : κ → String
  decode : κ → String → List UInt8 → Logged (Except DecodeError Configuration)

namespace Format

def vocabulary : Format → Vocabulary
  | json => .json
  | yaml => .yaml

/-- Whether fields without a value are left out. -/
def omitsEmpty : Format → Bool
  | json => true
  | yaml => false

/-- What the log says about a file that is not well formed. -/
def yamlFlaw : String := "not a well-formed document"

/-- The document that bytes describe. -/
def parse (format : Format) (path : String) (payload : List UInt8) :
    Logged (Except DecodeError Document) :=
  match format with
  | json =>
    match Json.ofBytes payload with
    | .ok value => pure (.ok value.toDocument)
    | .error .tooManyDigits => pure (.error (.fault .unrepresentable))
    | .error .tooNested => pure (.error (.fault .tooNested))
    | .error error => do
      Logged.log (.documentInvalid path format error.message)
      return .error (.json path error)
  | yaml =>
    match Yaml.ofBytes payload with
    | .ok document => pure (.ok document)
    | .error (.fault fault) => pure (.error (.fault fault))
    | .error .malformed => do
      Logged.log (.documentInvalid path format yamlFlaw)
      return .error (.yaml path)

/-- The configuration that a document describes. -/
def interpret (format : Format) (path : String) (document : Document) :
    Except DecodeError Configuration :=
  match document.configuration format.vocabulary with
  | .ok c => .ok c
  | .error .unshowableName => .error (.fault .unrepresentable)
  | .error error => .error (.document path format error)

/-- The configuration that bytes describe. -/
def decode (format : Format) (path : String) (payload : List UInt8) :
    Logged (Except DecodeError Configuration) := do
  match ← format.parse path payload with
  | .error error => return .error error
  | .ok document =>
    match format.interpret path document with
    | .error error => return .error error
    | .ok c =>
      Logged.log (.documentDecoded path format c.contexts.size)
      return .ok c

/-- A configuration as text; it is ASCII in either format. -/
def encodeChars (format : Format) (c : Configuration) : List Char :=
  let document := Document.ofConfiguration format.vocabulary format.omitsEmpty c
  match format with
  | json => document.toJson.print (.indented 2) 0 ++ ['\n']
  | yaml => Yaml.Writer.write document

def encode (format : Format) (c : Configuration) : List UInt8 :=
  Encoding.bytes (format.encodeChars c)

instance : Decoder Format := ⟨Format.name, Format.decode⟩

end Format
end ContextConfig
