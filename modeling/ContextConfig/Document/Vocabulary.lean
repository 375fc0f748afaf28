/-!
# Vocabularies

Every format has its own names for the fields of a configuration document. The two vocabularies in
use differ in spelling only; the shape of the document is the same.
-/

namespace ContextConfig

/-- The names of the fields of a configuration document. -/
structure Vocabulary where
  current : String
  contexts : String
  host : String
  token : String
  timeout : String
  debug : String
  basic : String
  kerberos : String
  username : String
  password : String
  realm : String
  confFile : String
  withPassword : String
  withKeytab : String
  keytabFile : String
  fromCache : String
  cacheFile : String
  deriving DecidableEq, Repr

namespace Vocabulary

def json : Vocabulary where
  current := "currentContext"
  contexts := "contexts"
  host := "host"
  token := "token"
  timeout := "timeout"
  debug := "debug"
  basic := "basic_authentication"
  kerberos := "kerberos_authentication"
  username := "username"
  password := "password"
  realm := "realm"
  confFile := "confFile"
  withPassword := "with_password"
  withKeytab := "with_keytab"
  keytabFile := "keytab"
  fromCache := "from_ccache"
  cacheFile := "ccache"

def yaml : Vocabulary where
  current := "CurrentContext"
  contexts := "Contexts"
  host := "Host"
  token := "Token"
  timeout := "Timeout"
  debug := "Debug"
  basic := "BasicAuthentication"
  kerberos := "KerberosAuthentication"
  username := "Username"
  password := "Password"
  realm := "Realm"
  confFile := "ConfFile"
  withPassword := "WithPassword"
  withKeytab := "WithKeytab"
  keytabFile := "KeytabFile"
  fromCache := "FromCCache"
  cacheFile := "CCacheFile"

/-- The names that can stand beside each other in one mapping. -/
def blocks (v : Vocabulary) : List (List String) :=
  [[v.current, v.contexts],
    [v.host, v.token, v.timeout, v.debug, v.basic, v.kerberos],
    [v.username, v.password],
    [v.confFile, v.withPassword, v.withKeytab, v.fromCache],
    [v.username, v.password, v.realm]]

/-- No mapping needs one name for two fields. -/
def Distinct (v : Vocabulary) : Prop := ∀ block ∈ v.blocks, block.Nodup

instance (v : Vocabulary) : Decidable v.Distinct :=
  inferInstanceAs (Decidable (∀ block ∈ v.blocks, block.Nodup))

theorem distinct_json : json.Distinct := by decide +kernel

theorem distinct_yaml : yaml.Distinct := by decide +kernel

end Vocabulary
end ContextConfig
