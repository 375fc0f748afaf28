import ContextConfig.Client
import ContextConfig.CommandLine.Arguments
/-!
# Connection settings

The connection options together describe partial settings of a client. Of an option that is given
several times the last one counts, and an empty text is as good as none. Any Kerberos option makes
the credentials Kerberos ones; the source of tickets is the keytab, the cache or the user's
password, in this order, and the first two exclude each other.
-/

namespace ContextConfig.CommandLine

/-- The text of an option, if it is given. -/
def textOf? (option : TextOption) (given : List Given) : Option String :=
  given.reverse.findSome? fun
    | .text other value => if other = option then some value else none
    | _ => none

/-- The text of an option; empty where it is not given. -/
def textOf (option : TextOption) (given : List Given) : String := (textOf? option given).getD ""

/-- Whether a switch is turned on or off, if it is given. -/
def switchOf? (which : Switch) (given : List Given) : Option Bool :=
  given.reverse.findSome? fun
    | .toggle other on => if other = which then some on else none
    | _ => none

/-- The options that describe a connection. -/
def connectionOptions : List (String × Meaning) :=
  [("--host", .text .host), ("--token", .text .token), ("--user", .text .user),
    ("--password", .text .password), ("--timeout", .text .timeout),
    ("--debug", .toggle .debug true), ("--no-debug", .toggle .debug false),
    ("--kerberos-conf", .text .kerberosConf), ("--kerberos-realm", .text .kerberosRealm),
    ("--kerberos-keytab", .text .kerberosKeytab), ("--kerberos-ccache", .text .kerberosCache)]

/-- The source of Kerberos tickets. -/
def ticketSource (given : List Given) : Option TicketSource :=
  let text option := textOf option given
  if text .kerberosKeytab ≠ "" then some (.keytab (text .kerberosKeytab))
  else if text .kerberosCache ≠ "" then some (.cache (text .kerberosCache))
  else if text .user ≠ "" || text .password ≠ "" then
    some (.password (text .user) (text .password) (text .kerberosRealm))
  else none

/-- Whether an option asks for Kerberos. -/
def wantsKerberos (given : List Given) : Bool :=
  [TextOption.kerberosConf, .kerberosKeytab, .kerberosCache, .kerberosRealm].any fun option =>
    textOf option given ≠ ""

/-- The credentials. -/
def credentials (given : List Given) : Except UsageError (Option Authentication) :=
  let text option := textOf option given
  if text .kerberosKeytab ≠ "" && text .kerberosCache ≠ "" then .error .severalTicketSources
  else if wantsKerberos given then
    .ok (some (.kerberos (text .kerberosConf) (ticketSource given)))
  else if text .user ≠ "" || text .password ≠ "" then
    .ok (some (.basic (text .user) (text .password)))
  else .ok none

/-- The settings. The debug switch stays as it is unless it is given. -/
def settings (given : List Given) (debug : Bool) : Except UsageError Client :=
  (credentials given).map fun authentication =>
    { host := textOf .host given
      token := textOf .token given
      timeout := textOf .timeout given
      debug := (switchOf? .debug given).getD debug
      authentication }

end ContextConfig.CommandLine
