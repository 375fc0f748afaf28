import ContextConfig.Proofs.Normalization
/-!
# When validating succeeds

Validating changes what it judges: a current context that is missing is inserted first, and the host
of the current client is normalised. The verdict is still that on the configuration as it was held.
What is inserted is not valid, so a missing context is never accepted, and normalising a host makes
no client valid or invalid. The timeout comes last and is refused for its text.
-/

namespace ContextConfig

theorem Duration.eq_of_parse_error {value : String} {error : Error}
    (h : Duration.parse value = .error error) : error = .invalid (.duration value) := by
  rw [Duration.parse] at h
  split at h
  · cases h
  · cases h
  · cases h
    rfl

namespace Configuration

variable {c : Configuration} {client : Client}

/-- The verdict is the same when the host of the current client is normalised before it. -/
theorem check_putCurrent_normalizeHost (h : c.currentClient? = some client) :
    (c.putCurrent client.normalizeHost).check = c.check := by
  have hsame : (c.putCurrent client.normalizeHost).normalizeHosts = c.normalizeHosts := by
    rw [normalizeHosts_putCurrent, Client.normalizeHost_normalizeHost,
      putCurrent_eq_self (c.currentClient?_normalizeHosts h)]
  rw [← check_normalizeHosts, hsame, check_normalizeHosts]

/-- A configuration is accepted after it was healed exactly if it needs no healing and is valid. -/
theorem check_heal_eq_ok_iff (c : Configuration) :
    c.heal.check = .ok () ↔ c.isValid = true ∧ ∃ client, c.currentClient? = some client := by
  rw [check_eq_ok_iff]
  cases h : c.currentClient? with
  | some client => simp [heal_of_some h]
  | none =>
    have hinserted : (c.heal.current, ({} : Client)) ∈ c.heal.contexts.entries := by
      have hclient := c.currentClient?_heal
      rw [healedClient, h] at hclient
      exact OrderedMap.get?_eq_some_iff.mp hclient
    have hinvalid : ¬ c.heal.isValid = true := by
      intro hvalid
      have hempty : ({} : Client).isValid = true := (isValid_iff.mp hvalid).2 _ hinserted
      exact absurd hempty (by decide)
    simp [hinvalid]

end Configuration

namespace Session

/-- Validating heals first, so healing before it makes no difference. -/
theorem validate_heal (s : Session) : s.heal.validate = s.validate := by
  rw [validate, validate, heal, Configuration.heal_of_some s.configuration.currentClient?_heal]

/-- The verdict is that on the healed configuration, and then on the timeout of its current
client. -/
theorem validate_value (s : Session) :
    s.validate
      = (s.configuration.heal.check.bind fun _ =>
          (Duration.parse s.configuration.healedClient.timeout).map fun _ =>
            s.configuration.healedClient.normalizeHost,
        { s with configuration :=
          s.configuration.heal.putCurrent s.configuration.healedClient.normalizeHost }) := by
  have hclient := s.configuration.currentClient?_heal
  rw [← validate_heal, validate_eq (s := s.heal) hclient, heal,
    Configuration.check_putCurrent_normalizeHost hclient]

theorem validate_eq_ok_iff {s : Session} {client : Client} :
    s.validate.1 = .ok client ↔ s.configuration.isValid = true ∧
      ∃ old, s.configuration.currentClient? = some old ∧ client = old.normalizeHost ∧
        ∃ duration, Duration.parse old.timeout = .ok duration := by
  rw [validate_value]
  constructor
  · intro h
    cases hcheck : s.configuration.heal.check with
    | error error =>
      rw [hcheck] at h
      cases h
    | ok =>
      obtain ⟨hvalid, old, hold⟩ := s.configuration.check_heal_eq_ok_iff.mp hcheck
      rw [hcheck, Configuration.healedClient, hold] at h
      cases htimeout : Duration.parse old.timeout with
      | error error => simp [htimeout, Except.bind, Except.map] at h
      | ok duration =>
        simp only [htimeout, Option.getD_some, Except.bind, Except.map, Except.ok.injEq] at h
        exact ⟨hvalid, old, hold, h.symm, duration, htimeout⟩
  · rintro ⟨hvalid, old, hold, rfl, duration, htimeout⟩
    have hcheck := s.configuration.check_heal_eq_ok_iff.mpr ⟨hvalid, old, hold⟩
    rw [hcheck, Configuration.healedClient, hold]
    simp [htimeout, Except.bind, Except.map]

theorem validate_eq_error {s : Session} {error : Error} (h : s.validate.1 = .error error) :
    error = .invalid (.contexts s.configuration.heal.invalidContexts) ∨
      error = .invalid (.duration s.configuration.healedClient.timeout) := by
  rw [validate_value, Configuration.check_of_some s.configuration.currentClient?_heal] at h
  split at h
  · right
    cases htimeout : Duration.parse s.configuration.healedClient.timeout with
    | ok duration => simp [htimeout, Except.bind, Except.map] at h
    | error refused =>
      simp only [htimeout, Except.bind, Except.map, Except.error.injEq] at h
      rw [← h]
      exact Duration.eq_of_parse_error htimeout
  · left
    exact (Except.error.inj h).symm

/-- Validating succeeds exactly where the current context is stored, the configuration is valid and
the timeout of the current context can be read. Otherwise it names the contexts that are not valid,
or the timeout. Where it succeeds it gives the current client, which is valid and has its host in
normal form, and nothing but that host is changed. -/
theorem validate_outcome (s : Session) :
    ((∃ client, s.validate.1 = .ok client) ↔
      s.configuration.currentExists = true ∧ s.configuration.isValid = true ∧
        ∃ client, s.configuration.currentClient? = some client ∧
          ∃ duration, Duration.parse client.timeout = .ok duration) ∧
    (∀ error, s.validate.1 = .error error →
      error = .invalid (.contexts s.configuration.heal.invalidContexts) ∨
      error = .invalid (.duration s.configuration.healedClient.timeout)) ∧
    ∀ client, s.validate.1 = .ok client →
      client.isValid = true ∧ Host.normalize client.host = client.host ∧
      ∃ before old after changed,
        s.configuration.contexts.entries = before ++ (s.configuration.current, old) :: after ∧
        client = { old with host := Host.normalize old.host } ∧
        s.validate.2 = { s with configuration := changed } ∧
        changed.current = s.configuration.current ∧
        changed.contexts.entries = before ++ (s.configuration.current, client) :: after := by
  refine ⟨⟨?_, ?_⟩, fun _ => validate_eq_error, ?_⟩
  · rintro ⟨client, h⟩
    obtain ⟨hvalid, old, hold, -, htimeout⟩ := validate_eq_ok_iff.mp h
    exact ⟨Option.isSome_iff_exists.mpr ⟨old, hold⟩, hvalid, old, hold, htimeout⟩
  · rintro ⟨-, hvalid, old, hold, htimeout⟩
    exact ⟨_, validate_eq_ok_iff.mpr ⟨hvalid, old, hold, rfl, htimeout⟩⟩
  · intro client h
    obtain ⟨hvalid, old, hold, rfl, -⟩ := validate_eq_ok_iff.mp h
    have hclient := (Configuration.isValid_iff.mp hvalid).2 _ (OrderedMap.get?_eq_some_iff.mp hold)
    obtain ⟨before, after, hentries, hchanged⟩ :=
      OrderedMap.entries_insert_of_get?_some hold old.normalizeHost
    exact ⟨old.isValid_normalizeHost.trans hclient, Host.normalize_normalize old.host, before, old,
      after, s.configuration.putCurrent old.normalizeHost, hentries, rfl, (validate_of_some hold).1,
      rfl, hchanged⟩

end Session

end ContextConfig
