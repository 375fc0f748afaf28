import ContextConfig.Proofs.Layers
/-!
# Which layer wins

Layers are filled in one after the other, but what comes of them can be read off field by field: the
last layer that gives a text or credentials wins, and the debug switch is that of the last layer. A
context that is missing is made of the first layer that is valid on its own and of those behind it.
-/

namespace ContextConfig

/-- The last text that is not empty, or else `text`. -/
def lastGiven (text : String) (texts : List String) : String :=
  (texts.filter (· ≠ "")).getLastD text

theorem lastGiven_overrideText (text other : String) (texts : List String) :
    lastGiven (overrideText text other) texts = lastGiven text (other :: texts) := by
  by_cases h : other = ""
  · simp [lastGiven, overrideText, h]
  · have hgiven : (other :: texts).filter (· ≠ "") = other :: texts.filter (· ≠ "") :=
      List.filter_cons_of_pos (decide_eq_true h)
    rw [lastGiven, lastGiven, overrideText, if_neg h, hgiven, List.getLastD_cons]

namespace Client

/-- A client under layers: the last value that is given for a field counts. Credentials are given as
a whole or not at all, and a debug switch is given by every layer. -/
def under (client : Client) (layers : List Layer) : Client where
  host := lastGiven client.host (layers.map (·.settings.host))
  token := lastGiven client.token (layers.map (·.settings.token))
  timeout := lastGiven client.timeout (layers.map (·.settings.timeout))
  debug := (layers.map (·.settings.debug)).getLastD client.debug
  authentication :=
    (layers.filterMap (·.settings.authentication)).getLast?.or client.authentication

theorem under_fill (client : Client) (layer : Layer) (layers : List Layer) :
    (client.fill layer.settings).under layers = client.under (layer :: layers) := by
  have hauthentication : (layers.filterMap (·.settings.authentication)).getLast?.or
      (layer.settings.authentication.or client.authentication)
        = ((layer :: layers).filterMap (·.settings.authentication)).getLast?.or
          client.authentication := by
    cases h : layer.settings.authentication with
    | none => simp [h]
    | some a =>
      have hgiven : (layer :: layers).filterMap (·.settings.authentication)
          = a :: layers.filterMap (·.settings.authentication) := List.filterMap_cons_some h
      rw [hgiven, List.getLast?_cons]
      cases (layers.filterMap (·.settings.authentication)).getLast? <;> rfl
  simp only [under, fill, lastGiven_overrideText, hauthentication, List.map_cons,
    List.getLastD_cons]

/-- Filling in layers one after the other leaves the last value that is given for each field. -/
theorem fillAll_eq_under (client : Client) (layers : List Layer) :
    client.fillAll layers = client.under layers := by
  induction layers generalizing client with
  | nil => rfl
  | cons layer layers ih => rw [fillAll_cons, ih, under_fill]

end Client

namespace Configuration

section Seeding

variable {c : Configuration} {before : List Layer}

/-- Layers that are not valid on their own come to nothing where the context is missing. -/
theorem fillFrom_of_refused (h : c.currentClient? = none)
    (hrefused : ∀ layer ∈ before, layer.settings.isValid = false) (layers : List Layer) :
    (c.fillFrom false (before ++ layers)).value = (c.fillFrom false layers).value := by
  induction before with
  | nil => rfl
  | cons layer before ih =>
    obtain ⟨hlayer, hbefore⟩ := List.forall_mem_cons.mp hrefused
    have hfilled : c.fillCurrent layer.settings = (false, c) := by
      rw [fillCurrent_of_none h, hlayer]
      rfl
    rw [List.cons_append, fillFrom, Logged.bind_value, Layer.apply, hfilled]
    exact ih hbefore

/-- The first layer that is valid on its own becomes the missing client, and the layers behind it
are filled into that. -/
theorem fillFrom_of_seed (h : c.currentClient? = none) {seed : Layer}
    (hseed : seed.settings.isValid = true) (layers : List Layer) :
    (c.fillFrom false (seed :: layers)).value.2
      = c.putCurrent (seed.settings.fillAll layers) := by
  have hfilled : c.fillCurrent seed.settings = (true, c.putCurrent seed.settings) := by
    rw [fillCurrent_of_none h, hseed]
    rfl
  have hrest := fillFrom_of_some (c.currentClient?_putCurrent seed.settings) layers
  rw [hseed, putCurrent_putCurrent] at hrest
  rw [fillFrom, Logged.bind_value, Layer.apply, hfilled]
  exact congrArg Prod.snd hrest

end Seeding

/-- Layers leave the pointer, the other contexts and their order as they are. A stored client ends up
under all of the layers and stays where it is. A missing one stays missing where no layer is valid on
its own; otherwise the first such layer is put at the end, under the layers behind it, and the
layers before it come to nothing. The flag is the validity of the current client then. -/
theorem fillLayers_eq_under (c : Configuration) (layers : List Layer) :
    (c.fillLayers layers).value.2.current = c.current ∧
    (c.fillLayers layers).value.2.contexts.erase c.current = c.contexts.erase c.current ∧
    (∀ client, c.currentClient? = some client →
      (c.fillLayers layers).value.2.contexts.names = c.contexts.names ∧
      (c.fillLayers layers).value.2.currentClient? = some (client.under layers)) ∧
    (c.currentClient? = none → (∀ layer ∈ layers, layer.settings.isValid = false) →
      (c.fillLayers layers).value.2 = c) ∧
    (c.currentClient? = none → ∀ before seed after, layers = before ++ seed :: after →
      (∀ layer ∈ before, layer.settings.isValid = false) → seed.settings.isValid = true →
      (c.fillLayers layers).value.2.contexts.entries
        = c.contexts.entries ++ [(c.current, seed.settings.under after)]) ∧
    (c.fillLayers layers).value.1
      = (c.fillLayers layers).value.2.currentClient?.any Client.isValid := by
  obtain ⟨hcurrent, hothers⟩ := c.fillLayers_frame layers
  refine ⟨hcurrent, hothers, ?_, ?_, ?_, c.fillLayers_valid layers⟩
  · intro client hclient
    rw [fillLayers_of_some hclient, Client.fillAll_eq_under, currentClient?_putCurrent]
    exact ⟨OrderedMap.names_put hclient, rfl⟩
  · intro hmissing hrefused
    have hlast := fillFrom_of_refused hmissing hrefused []
    rw [List.append_nil] at hlast
    rw [fillLayers, hmissing]
    exact congrArg Prod.snd hlast
  · rintro hmissing before seed after rfl hrefused hseed
    rw [fillLayers, hmissing]
    change (c.fillFrom false (before ++ seed :: after)).value.2.contexts.entries = _
    rw [fillFrom_of_refused hmissing hrefused, fillFrom_of_seed hmissing hseed,
      Client.fillAll_eq_under]
    exact OrderedMap.entries_insert_of_get?_none hmissing

/-- A context that is missing, and layers before and behind the one that seeds it. -/
example : ((⟨"a", .empty⟩ : Configuration).fillLayers [⟨"file", { host := "old", debug := true }⟩,
      ⟨"flags", { host := "new", token := "t" }⟩, ⟨"prompt", { token := "u", timeout := "5s" }⟩]).value
    = (true, ⟨"a", .ofList [("a", { host := "new", token := "u", timeout := "5s" })]⟩) := by
  decide +kernel

end Configuration

end ContextConfig
