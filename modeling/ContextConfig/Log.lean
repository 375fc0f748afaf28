import ContextConfig.Client
/-!
# Log entries

Everything that happens to a configuration is reported as an event. An event has a level, a name
and fields; when it is recorded it also gets the identifier of the running invocation, and values
under secret names are replaced. `Logged` pairs a value with the events of its computation, in the
order in which they occurred.
-/

namespace ContextConfig

inductive Level where
  | debug
  | info
  | error
  deriving DecidableEq, Repr

def Level.name : Level → String
  | debug => "DEBUG"
  | info => "INFO"
  | error => "ERROR"

/-- The formats in which a configuration is stored. -/
inductive Format where
  | json
  | yaml
  deriving DecidableEq, Repr

def Format.name : Format → String
  | json => "json"
  | yaml => "yaml"

inductive Event where
  | fileRead (path : String) (size : Nat)
  | documentInvalid (path : String) (format : Format) (error : String)
  | documentDecoded (path : String) (format : Format) (contexts : Nat)
  | fileRejected (path error : String)
  | located (context path format : String)
  | searchFailed (errors : List String)
  | nothingFound (roots : List String)
  | saved (context path : String) (format : Format)
  | discarded (path : Option String) (error : String)
  | contextSelected (name : String)
  | contextRemoved (name current : String)
  | removalRefused (name : String)
  | overrideApplied (context source : String) (fields : List ClientField) (valid : Bool)
  | homeUnresolved
  | searchRoots (roots : List String)
  deriving DecidableEq, Repr

/-- The fields of an event that concerns a context and a file; extra fields come later and replace
fields of the same name. -/
def eventFields (context path : Option String) (extra : List (String × Json)) :
    List (String × Json) :=
  Json.setFields [("context", .ofText? context), ("path", .ofText? path)] extra

namespace Event

def level : Event → Level
  | located .. | nothingFound _ | saved .. | contextRemoved .. | removalRefused _ => .info
  | searchFailed _ | discarded .. => .error
  | _ => .debug

def name : Event → String
  | fileRead .. => "config_file_read"
  | documentInvalid .. => "config_file_invalid"
  | documentDecoded .. => "config_file_decoded"
  | fileRejected .. => "config_file_rejected"
  | located .. => "configuration_located"
  | searchFailed _ => "configuration_invalid"
  | nothingFound _ => "configuration_not_found"
  | saved .. => "configuration_saved"
  | discarded .. => "configuration_discarded"
  | contextSelected _ => "context_selected"
  | contextRemoved .. => "context_removed"
  | removalRefused _ => "context_removal_refused"
  | overrideApplied .. => "override_applied"
  | homeUnresolved => "home_unresolved"
  | searchRoots _ => "search_roots"

/-- The fields of an event that concerns a document. -/
def documentFields (path : String) (format : Format) (extra : List (String × Json)) :
    List (String × Json) :=
  [("layer", .string "codec"), ("path", .string path), ("format", .string format.name)] ++ extra

def fields : Event → List (String × Json)
  | fileRead path size => eventFields none path [("size", .ofNat size)]
  | documentInvalid path format error => documentFields path format [("error", .string error)]
  | documentDecoded path format contexts =>
    documentFields path format [("contexts", .ofNat contexts)]
  | fileRejected path error => eventFields none path [("error", .string error)]
  | located context path format => eventFields context path [("format", .string format)]
  | searchFailed errors => eventFields none none [("errors", .ofTexts errors)]
  | nothingFound roots => eventFields none none [("roots", .ofTexts roots)]
  | saved context path format => eventFields context path [("format", .string format.name)]
  | discarded path error => eventFields none path [("error", .string error)]
  | contextSelected name => eventFields name none []
  | contextRemoved name current => eventFields name none [("current", .string current)]
  | removalRefused name => eventFields name none []
  | overrideApplied context source fields valid =>
    eventFields context none [("source", .string source),
      ("fields", .ofTexts (fields.map ClientField.name)), ("valid", .bool valid)]
  | homeUnresolved => eventFields none none []
  | searchRoots roots => eventFields none none [("roots", .ofTexts roots)]

end Event

/-- An event as it reaches the log. -/
structure Record where
  level : Level
  message : String
  fields : List (String × Json)

namespace Record

/-- The names of the fields whose values never reach the log. -/
def isSecret (name : String) : Bool := name == "password" || name == "token"

def redact (name : String) (value : Json) : Json :=
  if isSecret name && value.isTruthy then .string "<redacted>" else value

/-- A record with the identifier of the invocation; a field of that name replaces it. -/
def of (trace : Option String) (level : Level) (message : String)
    (fields : List (String × Json)) : Record where
  level := level
  message := message
  fields := Json.setFields [("trace_id", .ofText? trace)]
    (fields.map fun field => (field.1, redact field.1 field.2))

def ofEvent (trace : Option String) (e : Event) : Record :=
  .of trace e.level e.name e.fields

end Record

/-- A value and the events of its computation. -/
structure Logged (α : Type) where
  value : α
  events : List Event := []

namespace Logged

def log (e : Event) : Logged Unit := ⟨(), [e]⟩

instance : Monad Logged where
  pure value := ⟨value, []⟩
  bind x f := let y := f x.value; ⟨y.value, x.events ++ y.events⟩

@[simp] theorem pure_value {α : Type} (value : α) : (pure value : Logged α).value = value := rfl

@[simp] theorem pure_events {α : Type} (value : α) : (pure value : Logged α).events = [] := rfl

@[simp] theorem bind_value {α β : Type} (x : Logged α) (f : α → Logged β) :
    (x >>= f).value = (f x.value).value := rfl

@[simp] theorem bind_events {α β : Type} (x : Logged α) (f : α → Logged β) :
    (x >>= f).events = x.events ++ (f x.value).events := rfl

@[simp] theorem log_value (e : Event) : (log e).value = () := rfl

@[simp] theorem log_events (e : Event) : (log e).events = [e] := rfl

end Logged
end ContextConfig
