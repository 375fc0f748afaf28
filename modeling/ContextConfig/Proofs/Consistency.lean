import ContextConfig.Proofs.Healing
import ContextConfig.Proofs.Host
import ContextConfig.Proofs.Layers
import ContextConfig.Proofs.Removal
/-!
# Consistent configurations

A configuration is consistent when its current context is stored, no context is without a name and
every client has a host in normal form and a timeout that can be read. Each change that a command
makes keeps this; what `configure` commits has it because the whole of it was checked.
-/

namespace ContextConfig

/-- A client with a host in normal form and a timeout that can be read. -/
structure Client.Settled (client : Client) : Prop where
  host_ne : client.host ≠ ""
  host_normal : Host.normalize client.host = client.host
  timeout : ∃ duration, Duration.parse client.timeout = .ok duration

theorem Client.normalizeHost_normalizeHost (client : Client) :
    client.normalizeHost.normalizeHost = client.normalizeHost :=
  congrArg (fun host => { client with host }) (Host.normalize_normalize client.host)

namespace Configuration

/-- The current context is stored, unless there are no contexts and none is current; every context
has a name, and its client is settled. -/
structure Consistent (c : Configuration) : Prop where
  current : c.current ∈ c.contexts.names ∨ c.contexts.names = [] ∧ c.current = ""
  names : "" ∉ c.contexts.names
  clients : ∀ entry ∈ c.contexts.entries, entry.2.Settled

variable {c : Configuration} {name : String}

theorem normalizeHosts_eq_self
    (h : ∀ entry ∈ c.contexts.entries, Host.normalize entry.2.host = entry.2.host) :
    c.normalizeHosts = c := by
  have hentries : c.normalizeHosts.contexts.entries = c.contexts.entries := by
    refine (List.map_congr_left fun entry hentry => ?_).trans (List.map_id _)
    rw [Client.normalizeHost, h entry hentry]
    rfl
  exact congrArg (Configuration.mk c.current) (OrderedMap.ext hentries)

theorem host_normal_of_normalizeHosts {entry : String × Client}
    (h : entry ∈ c.normalizeHosts.contexts.entries) :
    Host.normalize entry.2.host = entry.2.host := by
  obtain ⟨old, -, rfl⟩ := List.mem_map.mp h
  exact Host.normalize_normalize old.2.host

namespace Consistent

theorem empty : Configuration.empty.Consistent := ⟨.inr ⟨rfl, rfl⟩, nofun, nofun⟩

theorem setCurrent (h : c.Consistent) (hname : c.contexts.contains name = true) :
    (c.setCurrent name).Consistent :=
  ⟨.inl (OrderedMap.contains_iff.mp hname), h.names, h.clients⟩

theorem erase (h : c.Consistent) {current : String} (hcurrent : current ∈ c.contexts.names)
    (hne : current ≠ name) : Consistent ⟨current, c.contexts.erase name⟩ where
  current := .inl (OrderedMap.mem_names_erase.mpr ⟨hcurrent, hne⟩)
  names hempty := h.names (OrderedMap.mem_names_erase.mp hempty).1
  clients entry hentry := h.clients entry (List.mem_filter.mp hentry).1

theorem removeContext (h : c.Consistent) (hremoved : (c.removeContext name).1 = true) :
    (c.removeContext name).2.Consistent := by
  obtain ⟨hname, current, hne, hcurrent, hresult⟩ := removeContext_of_removed hremoved
  rw [hresult]
  refine h.erase (hcurrent.elim (fun hsame => ?_) id) hne
  rw [hsame]
  refine h.current.resolve_right fun hnone => ?_
  rw [hnone.1] at hname
  cases hname

theorem removeTokens (h : c.Consistent) : c.removeTokens.Consistent where
  current := by simpa [Configuration.removeTokens] using h.current
  names := by simpa [Configuration.removeTokens] using h.names
  clients entry hentry := by
    obtain ⟨entry, hmem, rfl⟩ := List.mem_map.mp hentry
    obtain ⟨hne, hnormal, htimeout⟩ := h.clients entry hmem
    exact ⟨hne, hnormal, htimeout⟩

/-- A consistent configuration is not changed by being loaded. -/
theorem normalizeHosts_eq (h : c.Consistent) : c.normalizeHosts = c :=
  normalizeHosts_eq_self fun entry hentry => (h.clients entry hentry).host_normal

end Consistent

/-- Two configurations that differ in the client of the current context at most. -/
structure ChangesCurrent (c c' : Configuration) : Prop where
  current : c'.current = c.current
  entries : ∀ entry ∈ c'.contexts.entries, entry.1 = c.current ∨ entry ∈ c.contexts.entries

/-- Layers change the current client alone. -/
theorem fillLayers_changes (c : Configuration) (layers : List Layer) :
    c.ChangesCurrent (c.fillLayers layers).value.2 := by
  obtain ⟨hcurrent, hothers⟩ := c.fillLayers_frame layers
  refine ⟨hcurrent, fun entry hentry => ?_⟩
  by_cases hname : entry.1 = c.current
  · exact .inl hname
  · have hkept : entry ∈ ((c.fillLayers layers).value.2.contexts.erase c.current).entries :=
      List.mem_filter.mpr ⟨hentry, decide_eq_true hname⟩
    rw [hothers] at hkept
    exact .inr (List.mem_filter.mp hkept).1

theorem get?_normalizeHosts (c : Configuration) (name : String) :
    c.normalizeHosts.contexts.get? name = (c.contexts.get? name).map Client.normalizeHost :=
  c.contexts.get?_map Client.normalizeHost name

theorem currentClient?_normalizeHosts (c : Configuration) {client : Client}
    (h : c.currentClient? = some client) :
    c.normalizeHosts.currentClient? = some client.normalizeHost :=
  (c.get?_normalizeHosts c.current).trans (congrArg (Option.map Client.normalizeHost) h)

/-- What is committed is consistent if the current context is stored and has a timeout that can be
read: the hosts are normalised, and the other clients are those of a consistent configuration. -/
theorem Consistent.commit (h : c.Consistent) {staged changed : Configuration} {client : Client}
    (hstaged : staged.contexts = c.contexts) (hname : staged.current ≠ "")
    (hchanges : staged.ChangesCurrent changed) (hcheck : changed.normalizeHosts.check = .ok ())
    (hclient : changed.currentClient? = some client)
    (htimeout : ∃ duration, Duration.parse client.timeout = .ok duration) :
    changed.normalizeHosts.Consistent := by
  have hentry := OrderedMap.get?_eq_some_iff.mp (changed.currentClient?_normalizeHosts hclient)
  refine ⟨.inl (List.mem_map_of_mem hentry), fun hempty => ?_, fun entry hmem => ?_⟩
  · rw [normalizeHosts, OrderedMap.names_map] at hempty
    obtain ⟨entry, hmem, hnone⟩ := List.mem_map.mp hempty
    obtain hsame | hmem := hchanges.entries entry hmem
    · exact hname (hsame.symm.trans hnone)
    · rw [hstaged] at hmem
      exact h.names (hnone ▸ List.mem_map_of_mem hmem)
  · have hvalid := isValid_of_check hcheck hmem
    simp only [Client.isValid, Bool.and_eq_true, decide_eq_true_eq] at hvalid
    obtain ⟨old, hold, rfl⟩ := List.mem_map.mp hmem
    refine ⟨hvalid.1.1, Host.normalize_normalize _, ?_⟩
    obtain hsame | hother := hchanges.entries old hold
    · have hthis : changed.contexts.get? old.1 = some old.2 := OrderedMap.get?_eq_some_iff.mpr hold
      rw [hsame, ← hchanges.current] at hthis
      rw [currentClient?, hthis] at hclient
      cases hclient
      exact htimeout
    · rw [hstaged] at hother
      exact (h.clients old hother).timeout

end Configuration

namespace Session

theorem commit_eq_ok {s s' : Session} {staged : Configuration} (h : s.commit staged = .ok s') :
    staged.check = .ok () ∧ s' = { s with configuration := staged.normalizeHosts } := by
  rw [commit] at h
  cases hcheck : staged.check with
  | error error =>
    rw [hcheck] at h
    cases h
  | ok =>
    rw [hcheck] at h
    cases h
    exact ⟨rfl, rfl⟩

/-- Validating normalises the host of the current client where it is stored, checks the whole and
then reads the timeout of that client. -/
theorem validate_eq {s : Session} {client : Client}
    (h : s.configuration.currentClient? = some client) :
    s.validate
      = ((s.configuration.putCurrent client.normalizeHost).check.bind fun _ =>
          (Duration.parse client.timeout).map fun _ => client.normalizeHost,
        { s with configuration := s.configuration.putCurrent client.normalizeHost }) := by
  have hconfiguration : s.configuration.heal.modifyCurrent Client.normalizeHost
      = s.configuration.putCurrent client.normalizeHost := by
    rw [Configuration.heal_of_some h, Configuration.modifyCurrent, h]
    rfl
  rw [validate, hconfiguration, Configuration.healedClient, Configuration.currentClient?_putCurrent]
  rfl

/-- The current client is accepted if the configuration is valid once its host is normalised and its
timeout can be read. -/
theorem validate_of_some {s : Session} {client : Client}
    (h : s.configuration.currentClient? = some client) :
    s.validate.2
        = { s with configuration := s.configuration.putCurrent client.normalizeHost } ∧
      ∀ current, s.validate.1 = .ok current ↔ current = client.normalizeHost ∧
        (s.configuration.putCurrent client.normalizeHost).check = .ok () ∧
        ∃ duration, Duration.parse client.timeout = .ok duration := by
  rw [validate_eq h]
  refine ⟨rfl, fun current => ?_⟩
  cases (s.configuration.putCurrent client.normalizeHost).check with
  | error error => simp [Except.bind]
  | ok => cases Duration.parse client.timeout <;> simp [Except.bind, Except.map, eq_comm]

end Session

end ContextConfig
