import ContextConfig.Configuration
import ContextConfig.Document
import ContextConfig.Document.Vocabulary
/-!
# Configurations as documents

`Document.ofConfiguration` writes a configuration as a document and `Document.configuration` reads
one back, both under any vocabulary. Reading insists on the shape of everything that the
vocabulary names and ignores the rest; what it refuses is reported with the place where it stands.
-/

namespace ContextConfig

/-- What is wrong with a document. A place is the row of names that leads there. -/
inductive DocumentError where
  | notAMapping (place : String)
  | missingContexts (name : String)
  | notText (place kind : String)
  | notBoolean (place kind : String)
  | severalCredentials (place : String) (names : List String)
  | severalSources (place : String) (names : List String)
  | unshowableName
  deriving DecidableEq, Repr

namespace Document

abbrev Read := Except DocumentError

/-- The place of a name inside another place. -/
def within (place name : String) : String := place ++ "." ++ name

def readText (place : String) : Document → Read String
  | null => .ok ""
  | text content => .ok content
  | value => .error (.notText place value.kindName)

def readBool (place : String) : Document → Read Bool
  | null => .ok false
  | bool flag => .ok flag
  | value => .error (.notBoolean place value.kindName)

def readMapping (place : String) : Document → Read (List (Key × Document))
  | mapping entries => .ok entries
  | _ => .error (.notAMapping place)

/-- The textual field under a name. -/
def readField (place : String) (entries : List (Key × Document)) (name : String) : Read String :=
  readText (within place name) (field name entries)

/-- The names among the given ones whose fields are not null. -/
def present (entries : List (Key × Document)) (names : List String) : List String :=
  names.filter fun name => !(field name entries).isNull

def readSource (v : Vocabulary) (place : String) (entries : List (Key × Document)) :
    Read (Option TicketSource) :=
  match present entries [v.withPassword, v.withKeytab, v.fromCache] with
  | [] => .ok none
  | [name] => do
    let place := within place name
    let block ← readMapping place (field name entries)
    if name = v.withPassword then
      let username ← readField place block v.username
      let password ← readField place block v.password
      let realm ← readField place block v.realm
      return some (.password username password realm)
    else if name = v.withKeytab then
      return some (.keytab (← readField place block v.keytabFile))
    else
      return some (.cache (← readField place block v.cacheFile))
  | names => .error (.severalSources place names)

def readAuthentication (v : Vocabulary) (place : String) (entries : List (Key × Document)) :
    Read (Option Authentication) :=
  match present entries [v.basic, v.kerberos] with
  | [] => .ok none
  | [name] => do
    let place := within place name
    let block ← readMapping place (field name entries)
    if name = v.basic then
      let username ← readField place block v.username
      let password ← readField place block v.password
      return some (.basic username password)
    else
      let confFile ← readField place block v.confFile
      let source ← readSource v place block
      return some (.kerberos confFile source)
  | names => .error (.severalCredentials place names)

def readClient (v : Vocabulary) (place : String) : Document → Read Client
  | null => .ok {}
  | document => do
    let entries ← readMapping place document
    let host ← readField place entries v.host
    let authentication ← readAuthentication v place entries
    let token ← readField place entries v.token
    let timeout ← readField place entries v.timeout
    let debug ← readBool (within place v.debug) (field v.debug entries)
    return { host, token, timeout, debug, authentication }

/-- The text under which a context is stored. -/
def readName : Key → Read String
  | .text name | .shown name => .ok name
  | .unshowable => .error .unshowableName

/-- Read contexts from left to right; a name that occurs again replaces the client. -/
def readContexts (v : Vocabulary) (contexts : OrderedMap Client) :
    List (Key × Document) → Read (OrderedMap Client)
  | [] => .ok contexts
  | (key, value) :: rest => do
    let name ← readName key
    let client ← readClient v (within v.contexts name) value
    readContexts v (contexts.insert name client) rest

/-- The configuration that a document describes under a vocabulary. -/
def configuration (v : Vocabulary) (document : Document) : Read Configuration := do
  let entries ← readMapping "document" document
  match find v.contexts entries with
  | none => .error (.missingContexts v.contexts)
  | some contexts =>
    let current ← readText v.current (field v.current entries)
    let contexts ← match contexts with
      | null => pure []
      | contexts => readMapping v.contexts contexts
    let contexts ← readContexts v .empty contexts
    return { current, contexts }

def ofSource (v : Vocabulary) : TicketSource → String × Document
  | .password username password realm =>
    (v.withPassword,
      record [(v.username, text username), (v.password, text password), (v.realm, text realm)])
  | .keytab file => (v.withKeytab, record [(v.keytabFile, text file)])
  | .cache file => (v.fromCache, record [(v.cacheFile, text file)])

def ofAuthentication (v : Vocabulary) : Authentication → String × Document
  | .basic username password =>
    (v.basic, record [(v.username, text username), (v.password, text password)])
  | .kerberos confFile source =>
    (v.kerberos, record ((v.confFile, text confFile) :: (source.map (ofSource v)).toList))

/-- A field that can be left out when its value says nothing. -/
def optional (omitEmpty isEmpty : Bool) (name : String) (value : Document) :
    List (String × Document) :=
  if omitEmpty && isEmpty then [] else [(name, value)]

/-- A client as a document. Empty texts and a debug switch that is off can be left out; the host
is always there. -/
def ofClient (v : Vocabulary) (omitEmpty : Bool) (c : Client) : Document :=
  record ((v.host, text c.host) ::
    (optional omitEmpty (c.token = "") v.token (text c.token)
      ++ (optional omitEmpty (c.timeout = "") v.timeout (text c.timeout)
      ++ (optional omitEmpty (!c.debug) v.debug (bool c.debug)
      ++ (c.authentication.map (ofAuthentication v)).toList))))

/-- A configuration as a document, with the contexts in their order. -/
def ofConfiguration (v : Vocabulary) (omitEmpty : Bool) (c : Configuration) : Document :=
  record [(v.current, text c.current),
    (v.contexts, record (c.contexts.entries.map fun (name, client) =>
      (name, ofClient v omitEmpty client)))]

end Document
end ContextConfig
