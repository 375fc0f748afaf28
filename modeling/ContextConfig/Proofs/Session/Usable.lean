import ContextConfig.Proofs.Normalization
import ContextConfig.Proofs.Session.Operations
/-!
# Usable configurations stay usable

A configuration is usable when every context is valid, the current one is stored and none is without
a name. Selecting and removing contexts, filling in layers, reading, validating and committing what
is usable keep it so, whether they succeed or not. All that can then be wrong with the current
context is its timeout.
-/

namespace ContextConfig

namespace Client

/-- A layer cannot take away what makes a client valid. -/
theorem isValid_fill {client : Client} (h : client.isValid = true) (layer : Client) :
    (client.fill layer).isValid = true := by
  have hkeeps : ∀ {old new : String}, old ≠ "" → overrideText old new ≠ "" := by
    intro old new hold
    rw [overrideText]
    split <;> assumption
  rw [isValid_iff] at h ⊢
  refine ⟨hkeeps h.1, h.2.imp hkeeps fun hauthentication => ?_⟩
  simp [fill, hauthentication]

theorem isValid_fillAll {client : Client} (h : client.isValid = true) (layers : List Layer) :
    (client.fillAll layers).isValid = true := by
  induction layers generalizing client with
  | nil => exact h
  | cons layer layers ih => exact ih (isValid_fill h layer.settings)

end Client

namespace Configuration

/-- Every context is valid, the current one is stored, and none is without a name. -/
structure Usable (c : Configuration) : Prop where
  clients : ∀ entry ∈ c.contexts.entries, entry.2.isValid = true
  current : c.current ∈ c.contexts.names
  names : "" ∉ c.contexts.names

instance (c : Configuration) : Decidable c.Usable :=
  decidable_of_iff ((∀ entry ∈ c.contexts.entries, entry.2.isValid = true) ∧
      c.current ∈ c.contexts.names ∧ "" ∉ c.contexts.names)
    ⟨fun h => ⟨h.1, h.2.1, h.2.2⟩, fun h => ⟨h.clients, h.current, h.names⟩⟩

variable {c : Configuration}

namespace Usable

variable {client : Client}

theorem exists_client (h : c.Usable) :
    ∃ client, c.currentClient? = some client ∧ client.isValid = true := by
  obtain ⟨client, hclient⟩ := Option.isSome_iff_exists.mp (OrderedMap.contains_iff.mpr h.current)
  exact ⟨client, hclient, h.clients _ (OrderedMap.get?_eq_some_iff.mp hclient)⟩

theorem current_ne (h : c.Usable) : c.current ≠ "" := by
  intro hempty
  exact h.names (hempty ▸ h.current)

theorem isValid (h : c.Usable) : c.isValid = true :=
  isValid_iff.mpr ⟨List.ne_nil_of_mem h.current, h.clients⟩

theorem setCurrent (h : c.Usable) {name : String} (hname : c.contexts.contains name = true) :
    (c.setCurrent name).Usable :=
  ⟨h.clients, OrderedMap.contains_iff.mp hname, h.names⟩

theorem removeContext (h : c.Usable) (name : String) : (c.removeContext name).2.Usable where
  clients entry hentry := h.clients entry (mem_of_mem_removeContext hentry)
  current := OrderedMap.contains_iff.mp
    (currentExists_removeContext (OrderedMap.contains_iff.mpr h.current) name)
  names hempty := by
    obtain ⟨entry, hentry, hname⟩ := List.mem_map.mp hempty
    exact h.names (hname ▸ List.mem_map_of_mem (mem_of_mem_removeContext hentry))

/-- The current client can be exchanged for another valid one. -/
theorem putCurrent (h : c.Usable) (hvalid : client.isValid = true) : (c.putCurrent client).Usable := by
  obtain ⟨old, hold, -⟩ := h.exists_client
  have hnames : (c.putCurrent client).contexts.names = c.contexts.names := OrderedMap.names_put hold
  refine ⟨fun entry hentry => ?_, hnames ▸ h.current, hnames ▸ h.names⟩
  have hget := OrderedMap.get?_eq_some_iff.mpr hentry
  by_cases hname : entry.1 = c.current
  · rw [hname] at hget
    have hsame := (c.currentClient?_putCurrent client).symm.trans hget
    cases hsame
    exact hvalid
  · rw [Configuration.putCurrent, OrderedMap.get?_insert_ne _ hname] at hget
    exact h.clients entry (OrderedMap.get?_eq_some_iff.mp hget)

theorem fillLayers (h : c.Usable) (layers : List Layer) : (c.fillLayers layers).value.2.Usable := by
  obtain ⟨client, hclient, hvalid⟩ := h.exists_client
  rw [fillLayers_of_some hclient]
  exact h.putCurrent (client.isValid_fillAll hvalid layers)

theorem normalizeHosts (h : c.Usable) : c.normalizeHosts.Usable where
  clients entry hentry := by
    obtain ⟨old, hold, rfl⟩ := List.mem_map.mp hentry
    exact old.2.isValid_normalizeHost.trans (h.clients old hold)
  current := by simpa [Configuration.normalizeHosts] using h.current
  names := by simpa [Configuration.normalizeHosts] using h.names

end Usable

end Configuration

namespace Session

variable {s : Session}

/-- Validating what is usable reads the timeout of the current client, and nothing else can be
wrong. -/
theorem validate_of_usable (h : s.configuration.Usable) :
    s.validate.2.configuration.Usable ∧
      ∃ client, s.configuration.currentClient? = some client ∧
        s.validate.1 = (Duration.parse client.timeout).map fun _ => client.normalizeHost := by
  obtain ⟨client, hclient, hvalid⟩ := h.exists_client
  have hput := h.putCurrent (client.isValid_normalizeHost.trans hvalid)
  rw [validate_eq hclient, (Configuration.check_eq_ok_iff _).mpr hput.isValid]
  exact ⟨hput, client, hclient, rfl⟩

/-- Operations that ask for contexts that are stored and commit what is usable, and leave it to
others to load, to save and to make changes from outside. -/
def Operation.Proper : Operation → Prop
  | .readCurrent | .removeContext _ | .applyOverrides _ | .validate => True
  | .useContext _ requireExisting => requireExisting = true
  | .commit staged => staged.Usable
  | .load .. | .loadFile .. | .save .. | .edit _ => False

theorem usable_step {op : Operation} (hop : op.Proper) (h : s.configuration.Usable) :
    (s.step op).configuration.Usable := by
  cases op with
  | load | loadFile | save | edit => exact hop.elim
  | readCurrent =>
    obtain ⟨client, hclient, -⟩ := h.exists_client
    rwa [step, heal, Configuration.heal_of_some hclient]
  | useContext name requireExisting =>
    obtain rfl : requireExisting = true := hop
    rw [step, Session.useContext]
    cases hname : s.configuration.contexts.contains name with
    | true => exact h.setCurrent hname
    | false => exact h
  | removeContext name => exact h.removeContext name
  | applyOverrides layers =>
    have hname : s.configuration.currentName = s.configuration.current := if_neg h.current_ne
    rw [step, Session.applyOverrides, Logged.bind_value, hname]
    exact h.fillLayers layers
  | commit staged =>
    rw [step]
    cases hcommit : s.commit staged with
    | error error => exact h
    | ok s' =>
      obtain ⟨-, rfl⟩ := commit_eq_ok hcommit
      exact Configuration.Usable.normalizeHosts hop
  | validate => exact (validate_of_usable h).1

/-- From a usable configuration, proper operations lead to usable ones after every step, refused
ones and those that fail included. So a context always remains, and validating fails exactly where
the timeout of the current one cannot be read, for that reason. -/
theorem usable_run (h : s.configuration.Usable) {ops : List Operation}
    (hops : ∀ op ∈ ops, op.Proper) {done : List Operation} (hdone : done <+: ops) :
    (s.run done).configuration.Usable ∧
      (s.run done).configuration.contexts.names ≠ [] ∧
      ∃ client, (s.run done).configuration.currentClient? = some client ∧
        (s.run done).validate.1
          = (Duration.parse client.timeout).map fun _ => client.normalizeHost := by
  have husable : (s.run done).configuration.Usable :=
    run_keeps (P := fun s => s.configuration.Usable)
      (fun s op hop => usable_step (hops op (hdone.subset hop))) h
  exact ⟨husable, List.ne_nil_of_mem husable.current, (validate_of_usable husable).2⟩

/-- A configuration with a context of either kind of credentials. -/
def pair : Configuration :=
  ⟨"a", .ofList [("a", { host := "a:443", token := "t" }),
    ("b", { host := "b", authentication := some (.basic "u" "p") })]⟩

def holding (c : Configuration) : Session where
  locations := ⟨.ofText "/", .ofText "/bin/program", .empty, defaultPlatform, ""⟩
  configuration := c

/-- One context is asked for and missing, one is removed, the other one is not, and what is left gets
a timeout that cannot be read. -/
def oneLeft : List Operation :=
  [.useContext "c" true, .commit pair, .removeContext "a", .removeContext "b",
    .applyOverrides [⟨"flags", { timeout := "soon" }⟩], .validate]

theorem usable_run_oneLeft :
    pair.Usable ∧ (∀ op ∈ oneLeft, op.Proper) ∧
      ((holding pair).run oneLeft).configuration.Usable ∧
      ((holding pair).run oneLeft).configuration.contexts.names = ["b"] ∧
      ((holding pair).run oneLeft).validate.1 = .error (.invalid (.duration "soon")) := by
  have hpair : pair.Usable := by decide +kernel
  have hops : ∀ op ∈ oneLeft, op.Proper := by simp [oneLeft, Operation.Proper, hpair]
  obtain ⟨husable, -, client, hclient, hvalidate⟩ :=
    usable_run (s := holding pair) hpair hops (List.prefix_refl _)
  have hstored : ((holding pair).run oneLeft).configuration.currentClient?
      = some { host := "http://b:80", timeout := "soon", authentication := some (.basic "u" "p") } := by
    decide +kernel
  rw [hstored] at hclient
  cases hclient
  exact ⟨hpair, hops, husable, by decide +kernel, hvalidate⟩

end Session

end ContextConfig
