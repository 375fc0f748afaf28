import ContextConfig.Text.Blank
/-!
# Service addresses

A host names a service as `scheme://name:port`. Users leave out the scheme or the port, and each
of them has a default that depends on the other: port 443 goes with `https`, every other one with
`http`. Normalising a host splits it into its parts, fills in what is missing and joins the parts
again.
-/

namespace ContextConfig

/-- The parts of a host, as far as they are given. -/
structure Address where
  scheme : Option (List Char)
  name : List Char
  port : Option (List Char)
  deriving DecidableEq, Repr

namespace Address

/-- The two sides of the first `://`. -/
def splitScheme : List Char → Option (List Char × List Char)
  | [] => none
  | ':' :: '/' :: '/' :: rest => some ([], rest)
  | c :: rest => (splitScheme rest).map fun (scheme, name) => (c :: scheme, name)

/-- The two sides of the last colon. -/
def splitPort : List Char → Option (List Char × List Char)
  | [] => none
  | c :: rest =>
    match splitPort rest with
    | some (name, port) => some (c :: name, port)
    | none => if c = ':' then some ([], rest) else none

/-- The parts of a host. Without a scheme, a colon at the very start marks no port. -/
def ofText (text : List Char) : Address :=
  match splitScheme text with
  | some (scheme, rest) =>
    match splitPort rest with
    | some (name, port) => ⟨some scheme, name, some port⟩
    | none => ⟨some scheme, rest, none⟩
  | none =>
    match splitPort text with
    | some (c :: name, port) => ⟨none, c :: name, some port⟩
    | _ => ⟨none, text, none⟩

def https : List Char := "https".toList

def http : List Char := "http".toList

/-- The port that goes without saying under a scheme. -/
def defaultPort (scheme : Option (List Char)) : List Char :=
  if scheme = some https then "443".toList else "80".toList

/-- The scheme that goes without saying at a port. -/
def defaultScheme (port : Option (List Char)) : List Char :=
  if port = some "443".toList then https else http

/-- The host with a scheme and a port. -/
def complete (a : Address) : List Char :=
  a.scheme.getD (defaultScheme a.port) ++ "://".toList ++ a.name
    ++ ':' :: a.port.getD (defaultPort a.scheme)

end Address

namespace Host

/-- A host without slashes at its end. -/
def dropSlashes (host : List Char) : List Char := Text.dropEndWhile (· = '/') host

/-- A host as `scheme://name:port` without a slash at its end; no host stays no host. -/
def normalizeChars (host : List Char) : List Char :=
  if host = [] then [] else (Address.ofText (dropSlashes host)).complete

def normalize (host : String) : String := String.ofList (normalizeChars host.toList)

example : normalize "example.com" = "http://example.com:80" := by decide +kernel
example : normalize "https://example.com/" = "https://example.com:443" := by decide +kernel
example : normalize ":80" = "http://:80:80" := by decide +kernel

end Host
end ContextConfig
