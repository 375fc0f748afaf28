import ContextConfig.Json.Basic
/-!
# Credentials

A context logs in with a user name and a password, or through Kerberos with at most one source of
tickets. `describe` gives a view for logs and reports in which passwords are masked.
-/

namespace ContextConfig

/-- Where a Kerberos ticket comes from. -/
inductive TicketSource where
  | password (username password realm : String)
  | keytab (file : String)
  | cache (file : String)
  deriving DecidableEq, Repr

inductive Authentication where
  | basic (username password : String)
  | kerberos (confFile : String) (source : Option TicketSource)
  deriving DecidableEq, Repr

/-- What is shown of a secret: that it is there. -/
def mask (secret : String) : String := if secret = "" then "" else "****"

namespace TicketSource

def kind : TicketSource → String
  | password .. => "password"
  | keytab _ => "keytab"
  | cache _ => "ccache"

def describe (s : TicketSource) : Json :=
  match s with
  | password username secret realm =>
    .object [("kind", .string s.kind), ("username", .string username),
      ("password", .string (mask secret)), ("realm", .string realm)]
  | keytab file => .object [("kind", .string s.kind), ("keytab_file", .string file)]
  | cache file => .object [("kind", .string s.kind), ("ccache_file", .string file)]

end TicketSource

namespace Authentication

def kind : Authentication → String
  | basic .. => "basic"
  | kerberos .. => "kerberos"

def isBasic (a : Authentication) : Bool := a.kind == "basic"

/-- A view of the credentials without their secrets. -/
def describe (a : Authentication) : Json :=
  match a with
  | basic username password =>
    .object [("kind", .string a.kind), ("username", .string username),
      ("password", .string (mask password))]
  | kerberos confFile source =>
    .object [("kind", .string a.kind), ("conf_file", .string confFile),
      ("method", (source.map TicketSource.describe).getD .null)]

end Authentication
end ContextConfig
