import ContextConfig.Locations
/-!
# Searching configurations

The first file that can be decoded is the configuration: directories, names and formats are tried
in their order. Files that cannot be used do not stop the search and are only an error when nothing
usable is found. A file that asks for a value that does not exist does stop it.
-/

namespace ContextConfig

/-- A configuration and where it comes from, found among formats of any kind. -/
structure Found (κ : Type) where
  configuration : Configuration
  path : Path
  format : κ
  deriving DecidableEq

/-- A configuration found in one of the formats of this library. -/
abbrev Located := Found Format

namespace World

def absolute (w : World) (p : Path) : Path := p.absolute w.workingDirectory

/-- The bytes of a file, which is reported under the path given. A file is missing where the check
says that there is none; a check that fails is an error of its own. -/
def readFile (w : World) (p : Path) : Logged (Except Error (List UInt8)) := do
  match w.disk.checkFile (w.absolute p) with
  | .error errno => return .error (.system errno (w.absolute p).text)
  | .ok false => return .error (.missing (.file p.text))
  | .ok true =>
    match w.disk.read (w.absolute p) with
    | .error errno => return .error (.system errno (w.absolute p).text)
    | .ok payload =>
      Logged.log (.fileRead p.text payload.length)
      return .ok payload

/-- Decode a file in one format. -/
def readConfiguration (w : World) (p : Path) (format : Format) :
    Logged (Except Error Configuration) := do
  match ← w.readFile p with
  | .error error => return .error error
  | .ok payload => return (← format.decode (w.absolute p).text payload).mapError .ofDecode

variable {κ : Type} [Decoder κ]

/-- Decode bytes in the first format that fits. -/
def decodeFirst (path : String) (payload : List UInt8) :
    List κ → Logged (Except Error (Configuration × κ))
  | [] => return .error (.format (.noFormat path))
  | format :: rest => do
    match ← Decoder.decode format path payload with
    | .ok c => return .ok (c, format)
    | .error (.fault fault) => return .error (.fault fault)
    | .error _ => decodeFirst path payload rest

/-- Decode a file in the first format that fits. -/
def tryRead (w : World) (p : Path) (formats : List κ) :
    Logged (Except Error (Configuration × κ)) := do
  let path := w.absolute p
  match ← w.readFile path with
  | .error error => return .error error
  | .ok payload => decodeFirst path.text payload formats

/-- Try candidate files in their order. `broken` are the ones that could not be used so far. -/
def lookupAmong (w : World) (directory : Path) (formats : List κ) :
    BrokenFiles → List Path → Logged (Except Error (Found κ))
  | broken, [] =>
    if broken.invalid = [] && broken.unreadable = [] then
      return .error (.missing (.inDirectory directory.text))
    else return .error (.format (.directory broken))
  | broken, p :: rest => do
    match ← w.tryRead p formats with
    | .ok (configuration, format) =>
      Logged.log (.located configuration.current p.text (Decoder.name format))
      return .ok { configuration, path := p, format }
    | .error (.missing _) => w.lookupAmong directory formats broken rest
    | .error (.format error) =>
      Logged.log (.fileRejected p.text error.message)
      w.lookupAmong directory formats { broken with invalid := broken.invalid ++ [p.text] } rest
    | .error (.system errno path) =>
      Logged.log (.fileRejected p.text (errno.message path))
      w.lookupAmong directory formats
        { broken with unreadable := broken.unreadable ++ [p.text] } rest
    | .error error => return .error error

/-- The first candidate file of a directory that can be decoded. -/
def lookup (w : World) (directory : Path) (formats : List κ) :
    Logged (Except Error (Found κ)) :=
  w.lookupAmong directory formats ⟨[], []⟩ (candidatePaths directory)

/-- Search directories in their order. `broken` are the files that could not be used so far. -/
def locateFrom (w : World) (roots : List Path) (formats : List κ) :
    List BrokenFiles → List Path → Logged (Except Error (Found κ))
  | broken, [] => do
    if broken = [] then
      Logged.log (.nothingFound (roots.map Path.text))
      return .error (.missing (.anywhere (roots.map Path.text)))
    else
      Logged.log (.searchFailed (broken.map BrokenFiles.message))
      return .error (.format (.search broken))
  | broken, root :: rest => do
    match ← w.lookup root formats with
    | .ok located => return .ok located
    | .error (.missing _) => w.locateFrom roots formats broken rest
    | .error (.format (.directory files)) => w.locateFrom roots formats (broken ++ [files]) rest
    | .error error => return .error error

/-- The first configuration that is found in some directories. -/
def locate (w : World) (roots : List Path) (formats : List κ) :
    Logged (Except Error (Found κ)) :=
  w.locateFrom roots formats [] roots

end World
end ContextConfig
