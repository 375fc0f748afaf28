import ContextConfig.Proofs.Layers
/-!
# Which changes are reported

Every layer is reported with the fields that it changes. The report is worked out from the layer
before it is filled in, and what it changes can be read off the clients before and after that. The
two agree but for credentials: a layer that carries some is reported to change them even where they
are the ones that were there before.
-/

namespace ContextConfig

namespace ClientField

/-- All fields of a client, in the order in which changes are reported. -/
def all : List ClientField := [.host, .token, .timeout, .authentication, .debug]

/-- Whether a field has different values in two clients. -/
def differs (before after : Client) : ClientField → Bool
  | host => before.host ≠ after.host
  | token => before.token ≠ after.token
  | timeout => before.timeout ≠ after.timeout
  | authentication => before.authentication ≠ after.authentication
  | debug => before.debug ≠ after.debug

@[simp] theorem differs_self (client : Client) (field : ClientField) :
    field.differs client client = false := by
  cases field <;> simp [differs]

theorem filter_all (p : ClientField → Bool) : all.filter p
    = (if p .host then [.host] else []) ++ (if p .token then [.token] else [])
      ++ (if p .timeout then [.timeout] else [])
      ++ (if p .authentication then [.authentication] else [])
      ++ (if p .debug then [.debug] else []) := by
  simp only [all, List.filter_cons, List.filter_nil]
  split_ifs <;> rfl

end ClientField

namespace Client

/-- The fields that have different values in two clients. -/
def differences (before after : Client) : List ClientField :=
  ClientField.all.filter fun field => field.differs before after

/-- Whether a layer carries the credentials that are there already. -/
def repeats (client layer : Client) : Bool :=
  layer.authentication.isSome && client.authentication = layer.authentication

/-- The fields that have different values, and the credentials where the layer that leads from one
client to the other repeats them. -/
def reportedChanges (before layer after : Client) : List ClientField :=
  ClientField.all.filter fun field =>
    field.differs before after || (field = .authentication && before.repeats layer)

variable {client layer : Client}

/-- The empty client adopts a layer as it is. -/
@[simp] theorem fill_empty (layer : Client) : ({} : Client).fill layer = layer := by
  have htext (new : String) : overrideText "" new = new := by
    rw [overrideText]
    split
    · exact Eq.symm ‹_›
    · rfl
  simp [fill, htext]

@[simp] theorem repeats_empty (layer : Client) : ({} : Client).repeats layer = false := by
  cases h : layer.authentication <;> simp [repeats, h]

section Fields

theorem ne_overrideText_iff {old new : String} :
    old ≠ overrideText old new ↔ new ≠ "" ∧ new ≠ old := by
  rw [overrideText]
  split
  case isTrue h => simp [h]
  case isFalse h => simp [h, eq_comm]

theorem isSome_iff_ne_or {old new : Option Authentication} :
    new.isSome = true ↔ old ≠ new.or old ∨ new.isSome = true ∧ old = new := by
  cases new with
  | none => simp
  | some a => simp [em']

/-- Whether a field is reported, decided for each field on its own. -/
def reports (client layer : Client) : ClientField → Bool
  | .host => layer.host ≠ "" && layer.host ≠ client.host
  | .token => layer.token ≠ "" && layer.token ≠ client.token
  | .timeout => layer.timeout ≠ "" && layer.timeout ≠ client.timeout
  | .authentication => layer.authentication.isSome
  | .debug => layer.debug ≠ client.debug

theorem changedFields_eq_filter (client layer : Client) :
    client.changedFields layer = ClientField.all.filter (client.reports layer) := by
  rw [ClientField.filter_all]
  simp [changedFields, reports]
  rfl

/-- A field is reported if the layer changes it; credentials also if it repeats them. -/
theorem reports_iff (client layer : Client) (field : ClientField) :
    client.reports layer field = true ↔ field.differs client (client.fill layer) = true
      ∨ field = .authentication ∧ client.repeats layer = true := by
  have htext {old new : String} : (new ≠ "" && new ≠ old : Bool) = true
      ↔ decide (old ≠ overrideText old new) = true := by
    rw [Bool.and_eq_true, decide_eq_true_eq, decide_eq_true_eq, decide_eq_true_eq]
    exact ne_overrideText_iff.symm
  cases field with
  | host => exact htext.trans (or_iff_left (by simp)).symm
  | token => exact htext.trans (or_iff_left (by simp)).symm
  | timeout => exact htext.trans (or_iff_left (by simp)).symm
  | authentication =>
    rw [ClientField.differs, decide_eq_true_eq, repeats, Bool.and_eq_true, decide_eq_true_eq]
    simpa [reports, fill] using isSome_iff_ne_or
  | debug =>
    rw [reports, ClientField.differs, decide_eq_true_eq, decide_eq_true_eq]
    exact ne_comm.trans (or_iff_left (by simp)).symm

end Fields

theorem changedFields_eq_reportedChanges (client layer : Client) :
    client.changedFields layer = client.reportedChanges layer (client.fill layer) := by
  rw [changedFields_eq_filter]
  apply List.filter_congr
  intro field _
  rw [Bool.eq_iff_iff, reports_iff]
  simp

/-- Credentials that are repeated stay the same. -/
theorem authentication_fill_of_repeats (h : client.repeats layer = true) :
    (client.fill layer).authentication = client.authentication := by
  rw [repeats, Bool.and_eq_true, decide_eq_true_eq] at h
  rw [fill, h.2]
  exact Option.or_self

/-- The report names what a layer changes, unless the layer repeats credentials. -/
theorem reportedChanges_eq_differences_iff (client layer : Client) :
    client.reportedChanges layer (client.fill layer) = client.differences (client.fill layer)
      ↔ client.repeats layer = false := by
  constructor
  · intro h
    by_contra hrepeats
    rw [Bool.not_eq_false] at hrepeats
    have hreported : ClientField.authentication ∈ client.differences (client.fill layer) := by
      rw [← h, reportedChanges, List.mem_filter, hrepeats]
      exact ⟨by decide, by simp⟩
    have hdiffers : client.authentication ≠ (client.fill layer).authentication :=
      of_decide_eq_true (List.mem_filter.mp hreported).2
    exact hdiffers (authentication_fill_of_repeats hrepeats).symm
  · intro h
    rw [reportedChanges, differences, h]
    simp

end Client

namespace Configuration

variable {c : Configuration} {client layer : Client}

/-- Whether a layer is refused: it is not valid on its own, and there is nothing to fill it into. -/
def refuses (c : Configuration) (layer : Client) : Bool := c.currentClient?.isNone && !layer.isValid

/-- The fields that are reported when a layer is filled into the current context. -/
def reportedFields (c : Configuration) (layer : Client) : List ClientField :=
  if (c.fillCurrent layer).2.currentExists then c.healedClient.changedFields layer else []

theorem healedClient_of_some (h : c.currentClient? = some client) : c.healedClient = client := by
  rw [healedClient, h]
  rfl

theorem healedClient_of_none (h : c.currentClient? = none) : c.healedClient = {} := by
  rw [healedClient, h]
  rfl

theorem refuses_iff : c.refuses layer = true ↔ c.currentClient? = none ∧ layer.isValid = false := by
  rw [refuses, Bool.and_eq_true, Option.isNone_iff_eq_none, Bool.not_eq_true']

/-- A layer that is refused changes nothing. -/
theorem fillCurrent_of_refuses (h : c.refuses layer = true) : c.fillCurrent layer = (false, c) := by
  obtain ⟨hmissing, hinvalid⟩ := refuses_iff.mp h
  rw [fillCurrent_of_none hmissing, hinvalid]
  rfl

/-- Any other layer is filled into the current client, or into the empty one where it is missing. -/
theorem currentClient?_fillCurrent (h : c.refuses layer = false) :
    (c.fillCurrent layer).2.currentClient? = some (c.healedClient.fill layer) := by
  cases hclient : c.currentClient? with
  | some client =>
    rw [fillCurrent_of_some hclient, healedClient_of_some hclient]
    exact c.currentClient?_putCurrent _
  | none =>
    have hvalid : layer.isValid = true := by
      by_contra hinvalid
      rw [refuses_iff.mpr ⟨hclient, by simpa using hinvalid⟩] at h
      cases h
    rw [fillCurrent_of_none hclient, if_pos hvalid, healedClient_of_none hclient, Client.fill_empty]
    exact c.currentClient?_putCurrent _

theorem reportedFields_of_refuses (h : c.refuses layer = true) : c.reportedFields layer = [] := by
  have hmissing : c.currentExists = false := Option.isSome_eq_false_iff.mpr
    (Option.isNone_iff_eq_none.mpr (refuses_iff.mp h).1)
  rw [reportedFields, fillCurrent_of_refuses h, hmissing]
  rfl

/-- What is reported of a layer, from the current clients before and after it is filled in. -/
theorem reportedFields_eq (c : Configuration) (layer : Client) : c.reportedFields layer
    = c.healedClient.reportedChanges layer (c.fillCurrent layer).2.healedClient := by
  cases h : c.refuses layer with
  | true =>
    have hclient := healedClient_of_none (refuses_iff.mp h).1
    rw [reportedFields_of_refuses h, fillCurrent_of_refuses h, hclient, Client.reportedChanges]
    simp
  | false =>
    have hclient := currentClient?_fillCurrent h
    have hstored : (c.fillCurrent layer).2.currentExists = true := Option.isSome_of_eq_some hclient
    rw [reportedFields, if_pos hstored, healedClient_of_some hclient]
    exact Client.changedFields_eq_reportedChanges ..

/-- The report names what changes in the current context, unless the layer repeats credentials. -/
theorem reportedFields_eq_differences_iff (c : Configuration) (layer : Client) :
    c.reportedFields layer = c.healedClient.differences (c.fillCurrent layer).2.healedClient
      ↔ c.healedClient.repeats layer = false := by
  cases h : c.refuses layer with
  | true =>
    have hclient := healedClient_of_none (refuses_iff.mp h).1
    rw [reportedFields_of_refuses h, fillCurrent_of_refuses h, hclient, Client.repeats_empty]
    simp [Client.differences]
  | false =>
    rw [reportedFields_eq, healedClient_of_some (currentClient?_fillCurrent h)]
    exact Client.reportedChanges_eq_differences_iff ..

section Run

/-- The configuration after the first layers of a row. -/
def afterLayers (c : Configuration) (layers : List Layer) (n : Nat) : Configuration :=
  (c.fillLayers (layers.take n)).value.2

/-- Filling in a layer is reported once, under the name of the current context. -/
theorem events_apply (layer : Layer) (c : Configuration) : (layer.apply c).events
    = [.overrideApplied c.current layer.source (c.reportedFields layer.settings)
        (c.fillCurrent layer.settings).1] := by
  have hcurrent := (c.fillCurrent_frame layer.settings).1
  rw [Layer.apply]
  dsimp only
  rw [hcurrent]
  rfl

theorem value_fillFrom_append (before after : List Layer) (valid : Bool) (c : Configuration) :
    (c.fillFrom valid (before ++ after)).value
      = ((c.fillFrom valid before).value.2.fillFrom (c.fillFrom valid before).value.1 after).value := by
  induction before generalizing valid c with
  | nil => rfl
  | cons layer before ih => exact ih _ _

theorem events_fillFrom_append (before after : List Layer) (valid : Bool) (c : Configuration) :
    (c.fillFrom valid (before ++ after)).events = (c.fillFrom valid before).events
      ++ ((c.fillFrom valid before).value.2.fillFrom (c.fillFrom valid before).value.1 after).events := by
  induction before generalizing valid c with
  | nil => rfl
  | cons layer before ih =>
    have hrest := ih (layer.apply c).value.1 (layer.apply c).value.2
    simp only [List.cons_append, fillFrom, Logged.bind_events, Logged.bind_value, hrest,
      List.append_assoc]

/-- There is one event for each layer. -/
theorem length_events_fillFrom (layers : List Layer) (valid : Bool) (c : Configuration) :
    (c.fillFrom valid layers).events.length = layers.length := by
  induction layers generalizing valid c with
  | nil => rfl
  | cons layer layers ih =>
    rw [fillFrom, Logged.bind_events, List.length_append, ih, events_apply, List.length_singleton,
      List.length_cons, Nat.add_comm]

variable {layers : List Layer}

theorem afterLayers_succ (c : Configuration) (i : Fin layers.length) : c.afterLayers layers (i + 1)
    = ((c.afterLayers layers i).fillCurrent layers[i].settings).2 := by
  rw [afterLayers, fillLayers, List.take_succ_eq_append_getElem i.isLt, value_fillFrom_append]
  rfl

/-- The event of a layer says what it does to the configuration that the layers before it lead to. -/
theorem event_fillLayers (c : Configuration) (i : Fin layers.length) :
    (c.fillLayers layers).events[i.val]? = some (.overrideApplied c.current layers[i].source
      ((c.afterLayers layers i).reportedFields layers[i].settings)
      ((c.afterLayers layers i).fillCurrent layers[i].settings).1) := by
  have hsplit : layers.take i ++ layers[i] :: layers.drop (i + 1) = layers := by
    rw [Fin.getElem_fin, ← List.drop_eq_getElem_cons i.isLt, List.take_append_drop]
  have hcurrent : (c.afterLayers layers i).current = c.current := (c.fillLayers_frame _).1
  have hlength : (c.fillLayers (layers.take i)).events.length = i := by
    rw [fillLayers, length_events_fillFrom, List.length_take, Nat.min_eq_left (Nat.le_of_lt i.isLt)]
  obtain ⟨rest, hevents⟩ : ∃ rest, (c.fillLayers layers).events
      = (c.fillLayers (layers.take i)).events
        ++ (Event.overrideApplied (c.afterLayers layers i).current layers[i].source
          ((c.afterLayers layers i).reportedFields layers[i].settings)
          ((c.afterLayers layers i).fillCurrent layers[i].settings).1 :: rest) := by
    have happend := events_fillFrom_append (layers.take i) (layers[i] :: layers.drop (i + 1))
      (c.currentClient?.any Client.isValid) c
    rw [hsplit, fillFrom, Logged.bind_events, events_apply] at happend
    exact ⟨_, happend⟩
  rw [hevents, List.getElem?_append_right (Nat.le_of_eq hlength), hlength, Nat.sub_self, hcurrent]
  rfl

end Run

/-- A layer is reported with exactly the fields that filling it in changes if and only if it does not
carry the credentials that are there already; otherwise the credentials are reported besides. Layers
that are filled into a configuration are reported one by one in their order, under the name of the
current context, each with the fields in which the current clients before and after it differ, under
the same proviso. One that is refused is reported without fields and changes nothing. -/
theorem fillLayers_reports (c : Configuration) (layers : List Layer) :
    (∀ (client : Option Client) (layer : Client),
      (client.getD {}).changedFields layer
          = (client.getD {}).reportedChanges layer ((client.getD {}).fill layer) ∧
      ((client.getD {}).changedFields layer
          = (client.getD {}).differences ((client.getD {}).fill layer)
        ↔ (client.getD {}).repeats layer = false)) ∧
    (c.fillLayers layers).events.length = layers.length ∧
    c.afterLayers layers layers.length = (c.fillLayers layers).value.2 ∧
    ∀ i : Fin layers.length, ∃ fields valid,
      (c.fillLayers layers).events[i.val]?
          = some (.overrideApplied c.current layers[i].source fields valid) ∧
      fields = (c.afterLayers layers i).healedClient.reportedChanges layers[i].settings
        (c.afterLayers layers (i + 1)).healedClient ∧
      (fields = (c.afterLayers layers i).healedClient.differences
          (c.afterLayers layers (i + 1)).healedClient
        ↔ (c.afterLayers layers i).healedClient.repeats layers[i].settings = false) ∧
      ((c.afterLayers layers i).refuses layers[i].settings = true →
        fields = [] ∧ c.afterLayers layers (i + 1) = c.afterLayers layers i) := by
  refine ⟨fun client layer => ⟨?_, ?_⟩, length_events_fillFrom .., ?_, fun i => ?_⟩
  · exact Client.changedFields_eq_reportedChanges ..
  · rw [Client.changedFields_eq_reportedChanges]
    exact Client.reportedChanges_eq_differences_iff ..
  · rw [afterLayers, List.take_length]
  · have hstep := c.afterLayers_succ i
    refine ⟨_, _, c.event_fillLayers i, ?_, ?_, fun hrefused => ⟨?_, ?_⟩⟩
    · rw [hstep]
      exact reportedFields_eq ..
    · rw [hstep]
      exact reportedFields_eq_differences_iff ..
    · exact reportedFields_of_refuses hrefused
    · rw [hstep, fillCurrent_of_refuses hrefused]

/-- The same credentials again are reported as a change. -/
theorem not_reportsChanges_sameCredentials :
    ¬ ∀ (client : Option Client) (layer : Client), (client.getD {}).changedFields layer
      = (client.getD {}).differences ((client.getD {}).fill layer) := by
  intro hall
  have hsame := hall (some { host := "h", authentication := some (.basic "u" "p") })
    { authentication := some (.basic "u" "p") }
  exact absurd hsame (by decide)

end Configuration
end ContextConfig
