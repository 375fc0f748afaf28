import ContextConfig.Authentication
import ContextConfig.Duration
import ContextConfig.Host
/-!
# Clients

A client is what one context holds: the address of a service and the means to log in there. A
client is valid when it has a host and a token or credentials. Filling a client from another one
replaces the fields that the other one provides; `changedFields` names those fields.
-/

namespace ContextConfig

structure Client where
  host : String := ""
  token : String := ""
  timeout : String := ""
  debug : Bool := false
  authentication : Option Authentication := none
  deriving DecidableEq, Repr, Inhabited

/-- The fields of a client, in the order in which changes are reported. -/
inductive ClientField where
  | host
  | token
  | timeout
  | authentication
  | debug
  deriving DecidableEq, Repr

def ClientField.name : ClientField → String
  | host => "host"
  | token => "token"
  | timeout => "timeout"
  | authentication => "authentication"
  | debug => "debug"

/-- A text replaced by another one, unless that one is empty. -/
def overrideText (old new : String) : String := if new = "" then old else new

namespace Client

/-- A host, judged in its normal form, and a token or credentials. -/
def isValid (c : Client) : Bool :=
  c.host ≠ "" && Host.normalize c.host ≠ "" && (c.token ≠ "" || c.authentication.isSome)

def normalizeHost (c : Client) : Client := { c with host := Host.normalize c.host }

/-- Replace the texts and credentials that `other` provides, and take its debug switch.
Credentials are taken as a whole. -/
def fill (c other : Client) : Client where
  host := overrideText c.host other.host
  token := overrideText c.token other.token
  timeout := overrideText c.timeout other.timeout
  debug := other.debug
  authentication := other.authentication.or c.authentication

/-- The fields that filling a client from a layer changes. A layer that carries credentials counts
as changing them. -/
def changedFields (c layer : Client) : List ClientField :=
  let text (field : ClientField) (old new : String) : List ClientField :=
    if new ≠ "" && new ≠ old then [field] else []
  text .host c.host layer.host ++ text .token c.token layer.token
    ++ text .timeout c.timeout layer.timeout
    ++ (if layer.authentication.isSome then [.authentication] else [])
    ++ (if layer.debug ≠ c.debug then [.debug] else [])

/-- The credentials if they are a user name and a password. -/
def basicAuthentication (c : Client) : Option Authentication :=
  c.authentication.filter (·.isBasic)

/-- The credentials if they are Kerberos ones. -/
def kerberosAuthentication (c : Client) : Option Authentication :=
  c.authentication.filter (!·.isBasic)

/-- A view of the client without its secrets, as fields. -/
def describeFields (c : Client) : List (String × Json) :=
  [("host", .string c.host),
    ("authentication", (c.authentication.map Authentication.describe).getD .null),
    ("token", .string (mask c.token)), ("timeout", .string c.timeout), ("debug", .bool c.debug)]

def describe (c : Client) : Json := .object c.describeFields

end Client
end ContextConfig
