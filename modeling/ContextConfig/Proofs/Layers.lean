import ContextConfig.Layers
import ContextConfig.Proofs.OrderedMap
/-!
# What layers leave of a configuration

Layers change the client of the current context and nothing else. A stored client is filled from
each of them in turn, so that what is left of it is known without the configuration around it. One
that is missing is there when the last layer is reported as valid.
-/

namespace ContextConfig

/-- A client filled from layers, one after the other. -/
def Client.fillAll (client : Client) (layers : List Layer) : Client :=
  layers.foldl (fun client layer => client.fill layer.settings) client

@[simp] theorem Client.fillAll_nil (client : Client) : client.fillAll [] = client := rfl

@[simp] theorem Client.fillAll_cons (client : Client) (layer : Layer) (layers : List Layer) :
    client.fillAll (layer :: layers) = (client.fill layer.settings).fillAll layers := rfl

namespace Configuration

/-- A configuration with a client in its current context. -/
def putCurrent (c : Configuration) (client : Client) : Configuration :=
  { c with contexts := c.contexts.insert c.current client }

variable {c : Configuration} {client : Client}

@[simp] theorem current_putCurrent (c : Configuration) (client : Client) :
    (c.putCurrent client).current = c.current := rfl

@[simp] theorem currentClient?_putCurrent (c : Configuration) (client : Client) :
    (c.putCurrent client).currentClient? = some client :=
  c.contexts.get?_insert_self c.current client

@[simp] theorem putCurrent_putCurrent (c : Configuration) (client other : Client) :
    (c.putCurrent client).putCurrent other = c.putCurrent other :=
  congrArg (Configuration.mk c.current) (c.contexts.insert_insert c.current client other)

theorem putCurrent_eq_self (h : c.currentClient? = some client) : c.putCurrent client = c :=
  congrArg (Configuration.mk c.current) (OrderedMap.insert_eq_self h)

@[simp] theorem erase_putCurrent (c : Configuration) (client : Client) :
    (c.putCurrent client).contexts.erase c.current = c.contexts.erase c.current :=
  c.contexts.erase_insert c.current client

section Stored

theorem fillCurrent_of_some (h : c.currentClient? = some client) (layer : Client) :
    c.fillCurrent layer = ((client.fill layer).isValid, c.putCurrent (client.fill layer)) := by
  rw [fillCurrent, h]
  rfl

theorem fillFrom_of_some (h : c.currentClient? = some client) (layers : List Layer) :
    (c.fillFrom client.isValid layers).value
      = ((client.fillAll layers).isValid, c.putCurrent (client.fillAll layers)) := by
  induction layers generalizing c client with
  | nil => exact congrArg (Prod.mk client.isValid) (putCurrent_eq_self h).symm
  | cons layer layers ih =>
    have hfilled := fillCurrent_of_some h layer.settings
    have hrest := ih (c.currentClient?_putCurrent (client.fill layer.settings))
    rw [putCurrent_putCurrent] at hrest
    rw [fillFrom, Logged.bind_value, Layer.apply, hfilled]
    exact hrest

/-- A stored client is filled from every layer, and the flag is its validity then. -/
theorem fillLayers_of_some (h : c.currentClient? = some client) (layers : List Layer) :
    (c.fillLayers layers).value
      = ((client.fillAll layers).isValid, c.putCurrent (client.fillAll layers)) := by
  rw [fillLayers, h]
  exact fillFrom_of_some h layers

end Stored

section Others

theorem fillCurrent_frame (c : Configuration) (layer : Client) :
    (c.fillCurrent layer).2.current = c.current ∧
      (c.fillCurrent layer).2.contexts.erase c.current = c.contexts.erase c.current := by
  cases h : c.currentClient? with
  | some client =>
    rw [fillCurrent_of_some h]
    exact ⟨rfl, c.erase_putCurrent _⟩
  | none =>
    rw [fillCurrent, h]
    dsimp only
    split
    · exact ⟨rfl, c.erase_putCurrent layer⟩
    · exact ⟨rfl, rfl⟩

theorem fillFrom_frame (layers : List Layer) (valid : Bool) (c : Configuration) :
    (c.fillFrom valid layers).value.2.current = c.current ∧
      (c.fillFrom valid layers).value.2.contexts.erase c.current = c.contexts.erase c.current := by
  induction layers generalizing valid c with
  | nil => exact ⟨rfl, rfl⟩
  | cons layer layers ih =>
    obtain ⟨hcurrent, hothers⟩ := c.fillCurrent_frame layer.settings
    obtain ⟨hlast, hrest⟩ := ih (c.fillCurrent layer.settings).1 (c.fillCurrent layer.settings).2
    rw [hcurrent] at hlast hrest
    exact ⟨hlast, hrest.trans hothers⟩

/-- Layers leave the pointer and the other contexts as they are. -/
theorem fillLayers_frame (c : Configuration) (layers : List Layer) :
    (c.fillLayers layers).value.2.current = c.current ∧
      (c.fillLayers layers).value.2.contexts.erase c.current = c.contexts.erase c.current :=
  fillFrom_frame layers _ c

end Others

section Validity

theorem fillCurrent_of_none {c : Configuration} (h : c.currentClient? = none) (layer : Client) :
    c.fillCurrent layer = if layer.isValid then (true, c.putCurrent layer) else (false, c) := by
  rw [fillCurrent, h]
  rfl

/-- What filling reports is the validity of the current client afterwards. -/
theorem fillCurrent_valid (c : Configuration) (layer : Client) :
    (c.fillCurrent layer).1 = (c.fillCurrent layer).2.currentClient?.any Client.isValid := by
  cases h : c.currentClient? with
  | some client =>
    rw [fillCurrent_of_some h, currentClient?_putCurrent]
    rfl
  | none =>
    rw [fillCurrent_of_none h]
    split
    · rename_i hvalid
      rw [currentClient?_putCurrent]
      exact hvalid.symm
    · rw [h]
      rfl

theorem fillFrom_valid (layers : List Layer) {valid : Bool} {c : Configuration}
    (hvalid : valid = c.currentClient?.any Client.isValid) :
    (c.fillFrom valid layers).value.1
      = (c.fillFrom valid layers).value.2.currentClient?.any Client.isValid := by
  induction layers generalizing valid c with
  | nil => exact hvalid
  | cons layer layers ih => exact ih (c.fillCurrent_valid layer.settings)

/-- The flag is the validity of the current client after the last layer. -/
theorem fillLayers_valid (c : Configuration) (layers : List Layer) :
    (c.fillLayers layers).value.1
      = (c.fillLayers layers).value.2.currentClient?.any Client.isValid :=
  fillFrom_valid layers rfl

/-- The current context is stored when filling it is reported as valid. -/
theorem exists_of_fillLayers {c changed : Configuration} {layers : List Layer}
    (h : (c.fillLayers layers).value = (true, changed)) :
    ∃ client, changed.currentClient? = some client := by
  have hvalid := c.fillLayers_valid layers
  rw [h] at hvalid
  obtain ⟨client, hclient, -⟩ := (Option.any_eq_true ..).mp hvalid.symm
  exact ⟨client, hclient⟩

end Validity

end Configuration

end ContextConfig
