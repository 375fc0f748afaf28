import ContextConfig.Layers
import ContextConfig.Search
import ContextConfig.Storing
/-!
# Sessions

A session owns the configuration of one invocation together with the file and the format it came
from. It loads, changes, validates and saves that configuration. An operation that fails leaves the
configuration, the file and the format as they were, except that validating normalises the host of
the current client and creates a missing one.
-/

namespace ContextConfig

structure Session where
  locations : Locations
  formats : List Format := [.json, .yaml]
  configuration : Configuration := .empty
  source : Option Path := none
  format : Option Format := none

/-- What loading came to. -/
inductive Loaded where
  | nothing
  | discarded
  | adopted (valid : Bool)
  deriving DecidableEq, Repr

/-- Whether a valid configuration was loaded. -/
def Loaded.isValid : Loaded → Bool
  | adopted valid => valid
  | _ => false

namespace Session

/-- Take over a configuration with its hosts in normal form, and where it comes from. -/
def adopt (s : Session) (located : Located) : Loaded × Session :=
  let configuration := located.configuration.normalizeHosts
  (.adopted configuration.isValid,
    { s with configuration, source := some located.path, format := some located.format })

/-- Start over where only broken files were found; the first of them will be replaced. -/
def discard (s : Session) (error : FormatError) : Logged Session := do
  let source := error.paths.head?.map Path.ofText
  Logged.log (.discarded (source.map Path.text) error.message)
  return { s with configuration := .empty, source, format := source.map formatForPath }

/-- Find and decode the configuration. Where there is none the present one is kept; broken files
are an error unless they are to be discarded. -/
def load (s : Session) (w : World) (discardInvalid : Bool) :
    Logged (Except Error Loaded × Session) := do
  let roots ← s.locations.roots w.workingDirectory
  match ← w.locate roots s.formats with
  | .ok located =>
    let (loaded, s) := s.adopt located
    return (.ok loaded, s)
  | .error (.missing _) => return (.ok .nothing, s)
  | .error (.format error) =>
    if discardInvalid then return (.ok .discarded, ← s.discard error)
    else return (.error (.format error), s)
  | .error error => return (.error error, s)

/-- Decode one file instead of searching. -/
def loadFile (s : Session) (w : World) (p : Path) : Logged (Except Error Loaded × Session) := do
  match ← w.tryRead p s.formats with
  | .error error => return (.error error, s)
  | .ok (configuration, format) =>
    let (loaded, s) := s.adopt { configuration, path := p, format }
    return (.ok loaded, s)

/-- Make sure that the current context is stored. -/
def heal (s : Session) : Session := { s with configuration := s.configuration.heal }

/-- Make a context current. It has to be stored if that is asked for. -/
def useContext (s : Session) (name : String) (requireExisting : Bool) :
    Logged (Except Error Unit × Session) := do
  if requireExisting && !s.configuration.contexts.contains name then
    return (.error (.missing (.context name)), s)
  else
    Logged.log (.contextSelected name)
    return (.ok (), { s with configuration := s.configuration.setCurrent name })

/-- Remove a context unless that leaves no valid one to be current. -/
def removeContext (s : Session) (name : String) : Logged (Bool × Session) := do
  let (removed, configuration) := s.configuration.removeContext name
  Logged.log
    (if removed then .contextRemoved name configuration.current else .removalRefused name)
  return (removed, { s with configuration })

/-- Fill layers into the current context, which is the default one where none is current. -/
def applyOverrides (s : Session) (layers : List Layer) : Logged (Bool × Session) := do
  let named := s.configuration.setCurrent s.configuration.currentName
  let (valid, configuration) ← named.fillLayers layers
  return (valid, { s with configuration })

/-- Replace the configuration by a valid one. -/
def commit (s : Session) (staged : Configuration) : Except Error Session := do
  staged.check
  return { s with configuration := staged.normalizeHosts }

/-- The current client of a valid configuration, with its host in normal form and a timeout that
can be read. -/
def validate (s : Session) : Except Error Client × Session :=
  let configuration := s.configuration.heal.modifyCurrent Client.normalizeHost
  let current := configuration.healedClient
  let result : Except Error Client := do
    configuration.check
    let _ ← Duration.parse current.timeout
    return current
  (result, { s with configuration })

/-- The file and the format to save to. Without a path it is the file that was loaded, in its
format, or else the default one of the user. -/
def target (s : Session) (p : Option Path) (format : Option Format) :
    Except Error (Path × Option Format) :=
  match p, s.source with
  | some p, _ => .ok (p, format)
  | none, some source => .ok (source, format.or s.format)
  | none, none => s.locations.configHome.map fun home => (home.child defaultName, format)

/-- Write the configuration, and remember the file and the format. -/
def save (s : Session) (w : World) (refusals : Refusals) (p : Option Path)
    (format : Option Format) : Logged (Except Error Path × Session × World) := do
  match s.target p format with
  | .error error => return (.error error, s, w)
  | .ok (target, format) =>
    match ← w.write refusals s.configuration target format with
    | (w, .error error) => return (.error error, s, w)
    | (w, .ok written) =>
      let format := format.getD (formatForPath written)
      return (.ok written, { s with source := some written, format := some format }, w)

end Session
end ContextConfig
