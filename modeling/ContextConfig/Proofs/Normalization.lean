import ContextConfig.Proofs.Consistency
/-!
# When hosts are normalised

Hosts can be normalised when a configuration is loaded, or as late as when it is committed. Whatever
is done to it in between answers the same and leaves the same behind, because nothing asks for more
of a host than whether it is empty, and normalising neither empties nor fills it.
-/

namespace ContextConfig

namespace Client

variable {a b : Client}

theorem isValid_iff {client : Client} :
    client.isValid = true ↔ client.host ≠ "" ∧ (client.token ≠ "" ∨ client.authentication.isSome) := by
  simp [isValid, Host.normalize_eq_empty]

/-- Normalising a host neither empties nor fills it. -/
theorem isValid_normalizeHost (client : Client) : client.normalizeHost.isValid = client.isValid := by
  rw [Bool.eq_iff_iff, isValid_iff, isValid_iff]
  simp [normalizeHost, Host.normalize_eq_empty]

theorem isValid_congr (h : a.normalizeHost = b.normalizeHost) : a.isValid = b.isValid := by
  rw [← a.isValid_normalizeHost, h, b.isValid_normalizeHost]

/-- It makes no difference whether hosts are normalised before they are replaced. -/
theorem fill_congr (h : a.normalizeHost = b.normalizeHost) (layer : Client) :
    (a.fill layer).normalizeHost = (b.fill layer).normalizeHost := by
  simp only [normalizeHost, Client.mk.injEq] at h
  obtain ⟨hhost, htoken, htimeout, -, hauthentication⟩ := h
  simp only [normalizeHost, fill, overrideText, htoken, htimeout, hauthentication, Client.mk.injEq,
    and_true]
  split
  · exact hhost
  · rfl

theorem fillAll_congr (h : a.normalizeHost = b.normalizeHost) (layers : List Layer) :
    (a.fillAll layers).normalizeHost = (b.fillAll layers).normalizeHost := by
  induction layers generalizing a b with
  | nil => exact h
  | cons layer layers ih => exact ih (fill_congr h layer.settings)

theorem fillAll_normalizeHost (client : Client) (layers : List Layer) :
    (client.normalizeHost.fillAll layers).normalizeHost = (client.fillAll layers).normalizeHost :=
  fillAll_congr client.normalizeHost_normalizeHost layers

end Client

namespace Configuration

section Operations

/-- What is done to a configuration, and asked of it, between loading and committing. -/
inductive Operation where
  | setCurrent (name : String)
  | getCurrent
  | removeContext (name : String)
  | fillCurrent (layer : Client)
  | removeTokens
  | isValid
  | invalidContexts
  | currentExists
  deriving DecidableEq

inductive Answer where
  | done
  | flag (value : Bool)
  | names (names : List String)
  | client (held : Client)
  deriving DecidableEq

/-- An answer with the host normalised, if there is one in it. -/
def Answer.normalizeHost : Answer → Answer
  | .client held => .client held.normalizeHost
  | answer => answer

def step (c : Configuration) : Operation → Answer × Configuration
  | .setCurrent name => (.done, c.setCurrent name)
  | .getCurrent => (.client c.healedClient, c.heal)
  | .removeContext name => (.flag (c.removeContext name).1, (c.removeContext name).2)
  | .fillCurrent layer => (.flag (c.fillCurrent layer).1, (c.fillCurrent layer).2)
  | .removeTokens => (.done, c.removeTokens)
  | .isValid => (.flag c.isValid, c)
  | .invalidContexts => (.names c.invalidContexts, c)
  | .currentExists => (.flag c.currentExists, c)

/-- The answers to operations, one after the other, and what they leave. -/
def run (c : Configuration) : List Operation → List Answer × Configuration
  | [] => ([], c)
  | op :: ops =>
    let (answer, changed) := c.step op
    let (answers, last) := changed.run ops
    (answer :: answers, last)

end Operations

theorem normalizeHosts_normalizeHosts (c : Configuration) :
    c.normalizeHosts.normalizeHosts = c.normalizeHosts :=
  normalizeHosts_eq_self fun _ => host_normal_of_normalizeHosts

section Questions

theorem isValid_normalizeHosts (c : Configuration) : c.normalizeHosts.isValid = c.isValid := by
  simp [isValid, normalizeHosts, OrderedMap.isEmpty, OrderedMap.values, OrderedMap.map,
    Function.comp_def, Client.isValid_normalizeHost]

theorem invalidContexts_normalizeHosts (c : Configuration) :
    c.normalizeHosts.invalidContexts = c.invalidContexts := by
  simp [invalidContexts, normalizeHosts, OrderedMap.map, List.filter_map, Function.comp_def,
    Client.isValid_normalizeHost]

theorem check_normalizeHosts (c : Configuration) : c.normalizeHosts.check = c.check := by
  have hempty : c.normalizeHosts.contexts.isEmpty = c.contexts.isEmpty := by
    simp [normalizeHosts, OrderedMap.isEmpty, OrderedMap.map]
  rw [check, check, hempty, invalidContexts_normalizeHosts]

theorem currentExists_normalizeHosts (c : Configuration) :
    c.normalizeHosts.currentExists = c.currentExists :=
  c.contexts.contains_map Client.normalizeHost c.current

theorem replacementFor_normalizeHosts (c : Configuration) (name : String) :
    c.normalizeHosts.replacementFor name = c.replacementFor name := by
  simp [replacementFor, normalizeHosts, OrderedMap.map, List.find?_map, Function.comp_def,
    Client.isValid_normalizeHost]

end Questions

section Changes

theorem normalizeHosts_putCurrent (c : Configuration) (client : Client) :
    (c.putCurrent client).normalizeHosts = c.normalizeHosts.putCurrent client.normalizeHost :=
  congrArg (Configuration.mk c.current)
    (c.contexts.map_insert Client.normalizeHost c.current client)

theorem currentClient?_normalizeHosts_of_none {c : Configuration} (h : c.currentClient? = none) :
    c.normalizeHosts.currentClient? = none :=
  (c.get?_normalizeHosts c.current).trans (congrArg (Option.map Client.normalizeHost) h)

theorem healedClient_normalizeHosts (c : Configuration) :
    c.normalizeHosts.healedClient = c.healedClient.normalizeHost := by
  cases h : c.currentClient? with
  | some client =>
    rw [healedClient, healedClient, h, c.currentClient?_normalizeHosts h]
    rfl
  | none =>
    rw [healedClient, healedClient, h, currentClient?_normalizeHosts_of_none h]
    rfl

/-- The empty client that is inserted has a host in normal form. -/
theorem heal_normalizeHosts (c : Configuration) : c.normalizeHosts.heal = c.heal.normalizeHosts := by
  cases h : c.currentClient? with
  | some client => rw [heal_of_some h, heal_of_some (c.currentClient?_normalizeHosts h)]
  | none =>
    rw [heal_of_none h, heal_of_none (currentClient?_normalizeHosts_of_none h)]
    exact congrArg (Configuration.mk c.currentName)
      (c.contexts.map_insert Client.normalizeHost c.currentName {}).symm

/-- The context that takes over is the same one. -/
theorem removeContext_normalizeHosts (c : Configuration) (name : String) :
    c.normalizeHosts.removeContext name
      = ((c.removeContext name).1, (c.removeContext name).2.normalizeHosts) := by
  rw [removeContext, removeContext, replacementFor_normalizeHosts]
  simp only [normalizeHosts, OrderedMap.contains_map, OrderedMap.erase_map]
  split
  · rfl
  · split
    · cases c.replacementFor name <;> rfl
    · rfl

theorem removeTokens_normalizeHosts (c : Configuration) :
    c.normalizeHosts.removeTokens = c.removeTokens.normalizeHosts := by
  simp only [removeTokens, normalizeHosts, OrderedMap.map_map]
  rfl

/-- A host that the layer does not replace is normalised later on. -/
theorem fillCurrent_normalizeHosts (c : Configuration) (layer : Client) :
    (c.normalizeHosts.fillCurrent layer).1 = (c.fillCurrent layer).1 ∧
      (c.normalizeHosts.fillCurrent layer).2.normalizeHosts
        = (c.fillCurrent layer).2.normalizeHosts := by
  cases h : c.currentClient? with
  | some client =>
    have hfilled := Client.fill_congr client.normalizeHost_normalizeHost layer
    rw [fillCurrent_of_some h, fillCurrent_of_some (c.currentClient?_normalizeHosts h)]
    refine ⟨Client.isValid_congr hfilled, ?_⟩
    rw [normalizeHosts_putCurrent, normalizeHosts_putCurrent, hfilled, normalizeHosts_normalizeHosts]
  | none =>
    rw [fillCurrent_of_none h, fillCurrent_of_none (currentClient?_normalizeHosts_of_none h)]
    split
    · refine ⟨rfl, ?_⟩
      rw [normalizeHosts_putCurrent, normalizeHosts_putCurrent, normalizeHosts_normalizeHosts]
    · exact ⟨rfl, c.normalizeHosts_normalizeHosts⟩

end Changes

section Runs

variable {a b : Configuration}

/-- Every operation gives the same answer, and leaves the same once the hosts are normalised. -/
theorem step_normalizeHosts (c : Configuration) (op : Operation) :
    (c.normalizeHosts.step op).1.normalizeHost = (c.step op).1.normalizeHost ∧
      (c.normalizeHosts.step op).2.normalizeHosts = (c.step op).2.normalizeHosts := by
  cases op with
  | setCurrent name => exact ⟨rfl, (c.setCurrent name).normalizeHosts_normalizeHosts⟩
  | getCurrent =>
    rw [step, healedClient_normalizeHosts, heal_normalizeHosts]
    exact ⟨congrArg Answer.client c.healedClient.normalizeHost_normalizeHost,
      c.heal.normalizeHosts_normalizeHosts⟩
  | removeContext name =>
    rw [step, removeContext_normalizeHosts]
    exact ⟨rfl, (c.removeContext name).2.normalizeHosts_normalizeHosts⟩
  | fillCurrent layer =>
    obtain ⟨hflag, hfilled⟩ := c.fillCurrent_normalizeHosts layer
    exact ⟨congrArg Answer.flag hflag, hfilled⟩
  | removeTokens =>
    rw [step, removeTokens_normalizeHosts]
    exact ⟨rfl, c.removeTokens.normalizeHosts_normalizeHosts⟩
  | isValid => exact ⟨congrArg Answer.flag c.isValid_normalizeHosts, c.normalizeHosts_normalizeHosts⟩
  | invalidContexts =>
    exact ⟨congrArg Answer.names c.invalidContexts_normalizeHosts, c.normalizeHosts_normalizeHosts⟩
  | currentExists =>
    exact ⟨congrArg Answer.flag c.currentExists_normalizeHosts, c.normalizeHosts_normalizeHosts⟩

theorem step_congr (h : a.normalizeHosts = b.normalizeHosts) (op : Operation) :
    (a.step op).1.normalizeHost = (b.step op).1.normalizeHost ∧
      (a.step op).2.normalizeHosts = (b.step op).2.normalizeHosts := by
  obtain ⟨hanswer, hleft⟩ := a.step_normalizeHosts op
  obtain ⟨hanswer', hleft'⟩ := b.step_normalizeHosts op
  rw [h] at hanswer hleft
  exact ⟨hanswer.symm.trans hanswer', hleft.symm.trans hleft'⟩

/-- Configurations that differ in the spelling of hosts stay so. -/
theorem run_congr (h : a.normalizeHosts = b.normalizeHosts) (ops : List Operation) :
    (a.run ops).1.map Answer.normalizeHost = (b.run ops).1.map Answer.normalizeHost ∧
      (a.run ops).2.normalizeHosts = (b.run ops).2.normalizeHosts := by
  induction ops generalizing a b with
  | nil => exact ⟨rfl, h⟩
  | cons op ops ih =>
    obtain ⟨hanswer, hleft⟩ := step_congr h op
    obtain ⟨hanswers, hlast⟩ := ih hleft
    exact ⟨congrArg₂ List.cons hanswer hanswers, hlast⟩

/-- Operations answer the same whether the hosts are normalised before them or after them, up to the
host of a client that is handed out, and leave the same: the same contexts in the same order, and
the same one of them current. -/
theorem run_normalizeHosts (c : Configuration) (ops : List Operation) :
    (c.normalizeHosts.run ops).1.map Answer.normalizeHost
        = (c.run ops).1.map Answer.normalizeHost ∧
      (c.normalizeHosts.run ops).2.normalizeHosts = (c.run ops).2.normalizeHosts :=
  run_congr c.normalizeHosts_normalizeHosts ops

end Runs

end Configuration

end ContextConfig
