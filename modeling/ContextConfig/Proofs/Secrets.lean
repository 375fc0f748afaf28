import ContextConfig.Proofs.Normalization
/-!
# Secrets

Tokens and passwords are secrets. Whether a secret is there decides what a client is good for, but
its value decides nothing: filling, healing and checking a configuration commute with masking its
secrets, and so does what is described of a client.
-/

namespace ContextConfig

/-- Secrets that cannot be told apart once they are masked: both are there, or neither is. -/
def SameSecret (a b : String) : Prop := a = "" ↔ b = ""

inductive TicketSource.Alike : TicketSource → TicketSource → Prop where
  | password (username realm : String) {a b : String} (secret : SameSecret a b) :
      Alike (.password username a realm) (.password username b realm)
  | keytab (file : String) : Alike (.keytab file) (.keytab file)
  | cache (file : String) : Alike (.cache file) (.cache file)

inductive Authentication.Alike : Authentication → Authentication → Prop where
  | basic (username : String) {a b : String} (secret : SameSecret a b) :
      Alike (.basic username a) (.basic username b)
  | kerberos (confFile : String) {a b : Option TicketSource}
      (source : Option.Rel TicketSource.Alike a b) :
      Alike (.kerberos confFile a) (.kerberos confFile b)

structure Client.Alike (a b : Client) : Prop where
  host : a.host = b.host
  token : SameSecret a.token b.token
  timeout : a.timeout = b.timeout
  debug : a.debug = b.debug
  authentication : Option.Rel Authentication.Alike a.authentication b.authentication

/-- Two configurations that agree except for the values of their secrets. -/
structure Configuration.Alike (a b : Configuration) : Prop where
  current : a.current = b.current
  contexts : List.Forall₂ (fun entry other => entry.1 = other.1 ∧ entry.2.Alike other.2)
    a.contexts.entries b.contexts.entries

section Masking

theorem mask_eq_empty {secret : String} : mask secret = "" ↔ secret = "" := by
  rw [mask]
  split
  case isTrue h => simp [h]
  case isFalse h => simp [h]

theorem mask_mask (secret : String) : mask (mask secret) = mask secret := by
  by_cases h : secret = ""
  · subst h
    rfl
  · rw [mask, if_neg (mask_eq_empty.not.mpr h), mask, if_neg h]

theorem SameSecret.mask_eq {a b : String} (h : SameSecret a b) : mask a = mask b := by
  by_cases ha : a = ""
  · rw [mask, mask, if_pos ha, if_pos (h.mp ha)]
  · rw [mask, mask, if_neg ha, if_neg (h.not.mp ha)]

theorem mask_overrideText (old new : String) :
    mask (overrideText old new) = overrideText (mask old) (mask new) := by
  by_cases h : new = ""
  · rw [overrideText, overrideText, if_pos h, if_pos (mask_eq_empty.mpr h)]
  · rw [overrideText, overrideText, if_neg h, if_neg (mask_eq_empty.not.mpr h)]

end Masking

/-- The source of tickets with its password masked. -/
def TicketSource.redact : TicketSource → TicketSource
  | password username secret realm => password username (mask secret) realm
  | source => source

/-- The credentials with their passwords masked. -/
def Authentication.redact : Authentication → Authentication
  | basic username secret => basic username (mask secret)
  | kerberos confFile source => kerberos confFile (source.map TicketSource.redact)

/-- The client with its secrets masked. -/
def Client.redact (client : Client) : Client :=
  { client with
    token := mask client.token
    authentication := client.authentication.map Authentication.redact }

def Layer.redact (layer : Layer) : Layer := { layer with settings := layer.settings.redact }

/-- The configuration with the secrets of all contexts masked. -/
def Configuration.redact (c : Configuration) : Configuration :=
  { c with contexts := c.contexts.map Client.redact }

section Alike

theorem map_eq_of_rel {α β : Type} {r : α → α → Prop} {f : α → β} {a b : Option α}
    (hab : Option.Rel r a b) (h : ∀ a b, r a b → f a = f b) : a.map f = b.map f := by
  cases hab with
  | none => rfl
  | some hab => exact congrArg some (h _ _ hab)

theorem TicketSource.Alike.redact_eq {a b : TicketSource} (h : a.Alike b) :
    a.redact = b.redact := by
  cases h with
  | password username realm secret => simp only [redact, secret.mask_eq]
  | keytab file => rfl
  | cache file => rfl

theorem Authentication.Alike.redact_eq {a b : Authentication} (h : a.Alike b) :
    a.redact = b.redact := by
  cases h with
  | basic username secret => simp only [redact, secret.mask_eq]
  | kerberos confFile source => simp only [redact, map_eq_of_rel source fun _ _ h => h.redact_eq]

theorem Client.Alike.redact_eq {a b : Client} (h : a.Alike b) : a.redact = b.redact := by
  simp only [redact, h.host, h.token.mask_eq, h.timeout, h.debug,
    map_eq_of_rel h.authentication fun _ _ h => h.redact_eq]

theorem Configuration.Alike.redact_eq {a b : Configuration} (h : a.Alike b) :
    a.redact = b.redact := by
  obtain ⟨hcurrent, hcontexts⟩ := h
  have hentries :
      (a.contexts.map Client.redact).entries = (b.contexts.map Client.redact).entries := by
    simp only [OrderedMap.map]
    generalize a.contexts.entries = entries, b.contexts.entries = others at hcontexts
    induction hcontexts with
    | nil => rfl
    | cons hentry _ ih => rw [List.map_cons, List.map_cons, ih, hentry.1, hentry.2.redact_eq]
  rw [redact, redact, hcurrent, OrderedMap.ext hentries]

end Alike

namespace Client

theorem isValid_redact (client : Client) : client.redact.isValid = client.isValid := by
  rw [Bool.eq_iff_iff, isValid_iff, isValid_iff]
  simp [redact, mask_eq_empty]

/-- What fills a masked client is masked as well. -/
theorem fill_redact (client layer : Client) :
    client.redact.fill layer.redact = (client.fill layer).redact := by
  simp only [fill, redact, mask_overrideText]
  cases layer.authentication <;> rfl

theorem describe_redact_source (source : TicketSource) :
    source.redact.describe = source.describe := by
  cases source <;> simp [TicketSource.redact, TicketSource.describe, TicketSource.kind, mask_mask]

theorem describe_redact_authentication (a : Authentication) : a.redact.describe = a.describe := by
  cases a with
  | basic username password =>
    simp [Authentication.redact, Authentication.describe, Authentication.kind, mask_mask]
  | kerberos confFile source =>
    cases source <;> simp [Authentication.redact, Authentication.describe, Authentication.kind,
      describe_redact_source]

/-- Describing masks every secret, so that masking them before changes nothing. -/
theorem describeFields_redact (client : Client) :
    client.redact.describeFields = client.describeFields := by
  have hdescribe : Authentication.describe ∘ Authentication.redact = Authentication.describe :=
    funext describe_redact_authentication
  simp [describeFields, redact, mask_mask, hdescribe]

end Client

namespace Configuration

variable (c : Configuration)

theorem currentClient?_redact : c.redact.currentClient? = c.currentClient?.map Client.redact :=
  c.contexts.get?_map Client.redact c.current

/-- A client that is put into a masked configuration. -/
theorem putCurrent_redact (client : Client) :
    c.redact.putCurrent client.redact = (c.putCurrent client).redact :=
  congrArg (Configuration.mk c.current) (c.contexts.map_insert Client.redact c.current client).symm

theorem fillCurrent_redact (layer : Client) :
    c.redact.fillCurrent layer.redact
      = ((c.fillCurrent layer).1, (c.fillCurrent layer).2.redact) := by
  cases h : c.currentClient? with
  | some client =>
    have hredact : c.redact.currentClient? = some client.redact := by
      rw [currentClient?_redact, h, Option.map_some]
    rw [fillCurrent_of_some hredact, fillCurrent_of_some h, Client.fill_redact,
      Client.isValid_redact, putCurrent_redact]
  | none =>
    have hredact : c.redact.currentClient? = none := by rw [currentClient?_redact, h]; rfl
    rw [fillCurrent_of_none hredact, fillCurrent_of_none h, Client.isValid_redact,
      putCurrent_redact]
    split <;> rfl

theorem fillFrom_redact (layers : List Layer) (valid : Bool) :
    (c.redact.fillFrom valid (layers.map Layer.redact)).value
      = ((c.fillFrom valid layers).value.1, (c.fillFrom valid layers).value.2.redact) := by
  induction layers generalizing valid c with
  | nil => rfl
  | cons layer layers ih =>
    rw [List.map_cons, fillFrom, fillFrom, Logged.bind_value, Logged.bind_value, Layer.apply,
      Layer.apply, Layer.redact, fillCurrent_redact]
    exact ih (c.fillCurrent layer.settings).2 (c.fillCurrent layer.settings).1

theorem fillLayers_redact (layers : List Layer) :
    (c.redact.fillLayers (layers.map Layer.redact)).value
      = ((c.fillLayers layers).value.1, (c.fillLayers layers).value.2.redact) := by
  have hvalid :
      c.redact.currentClient?.any Client.isValid = c.currentClient?.any Client.isValid := by
    rw [currentClient?_redact]
    cases c.currentClient? with
    | none => rfl
    | some client => exact client.isValid_redact
  rw [fillLayers, fillLayers, hvalid, fillFrom_redact]

theorem healedClient_redact : c.redact.healedClient = c.healedClient.redact := by
  rw [healedClient, healedClient, currentClient?_redact]
  cases c.currentClient? <;> rfl

theorem heal_redact : c.redact.heal = c.heal.redact := by
  cases h : c.currentClient? with
  | some client =>
    have hredact : c.redact.currentClient? = some client.redact := by
      rw [currentClient?_redact, h, Option.map_some]
    rw [heal_of_some hredact, heal_of_some h]
  | none =>
    have hredact : c.redact.currentClient? = none := by rw [currentClient?_redact, h]; rfl
    rw [heal_of_none hredact, heal_of_none h]
    exact congrArg (Configuration.mk c.currentName)
      (c.contexts.map_insert Client.redact c.currentName {}).symm

theorem modifyCurrent_redact :
    c.redact.modifyCurrent Client.normalizeHost
      = (c.modifyCurrent Client.normalizeHost).redact := by
  rw [modifyCurrent, modifyCurrent, currentClient?_redact]
  cases c.currentClient? with
  | none => rfl
  | some client => exact c.putCurrent_redact client.normalizeHost

theorem check_redact : c.redact.check = c.check := by
  have hempty : c.redact.contexts.isEmpty = c.contexts.isEmpty := by
    simp [redact, OrderedMap.map, OrderedMap.isEmpty]
  have hinvalid : c.redact.invalidContexts = c.invalidContexts := by
    simp [invalidContexts, redact, OrderedMap.map, List.filter_map, Function.comp_def,
      Client.isValid_redact]
  rw [check, check, hempty, hinvalid]

end Configuration

end ContextConfig
