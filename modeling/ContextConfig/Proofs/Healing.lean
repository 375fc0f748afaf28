import ContextConfig.Proofs.OrderedMap
import ContextConfig.Session
/-!
# What healing keeps

Healing makes sure that the current context is stored. It leaves a stored one alone and inserts an
empty client otherwise; that client takes the place of another one exactly when no context is
current and the default context is stored with something in it.
-/

namespace ContextConfig

namespace Configuration

variable {c : Configuration}

/-- Whether healing puts an empty client in the place of another one: no context is current, and
the default context, which then becomes current, is stored and not empty. -/
def LosesDefault (c : Configuration) : Prop :=
  c.current = "" ∧ c.currentClient? = none ∧
    ∃ client, c.contexts.get? defaultContext = some client ∧ client ≠ {}

theorem heal_of_some {client : Client} (h : c.currentClient? = some client) : c.heal = c := by
  rw [heal, h]

theorem heal_of_none (h : c.currentClient? = none) :
    c.heal = { current := c.currentName, contexts := c.contexts.insert c.currentName {} } := by
  rw [heal, h]

theorem currentClient?_heal (c : Configuration) : c.heal.currentClient? = some c.healedClient := by
  cases h : c.currentClient? with
  | some client => rw [heal_of_some h, healedClient, h, Option.getD_some]
  | none =>
    rw [heal_of_none h, currentClient?, healedClient, h, Option.getD_none]
    exact c.contexts.get?_insert_self _ _

/-- The client that is stored under the name in use, where the current context is missing. -/
theorem get?_currentName (h : c.currentClient? = none) {client : Client} :
    c.contexts.get? c.currentName = some client ↔
      c.current = "" ∧ c.contexts.get? defaultContext = some client := by
  rw [currentName]
  split
  case isTrue hempty => simp [hempty]
  case isFalse hne =>
    rw [currentClient?] at h
    simp [h, hne]

theorem sublist_heal_iff (c : Configuration) :
    c.contexts.entries.Sublist c.heal.contexts.entries ↔ ¬ c.LosesDefault := by
  cases h : c.currentClient? with
  | some client => simp [heal_of_some h, LosesDefault, h]
  | none =>
    rw [heal_of_none h, OrderedMap.sublist_insert_iff]
    simp only [get?_currentName h, LosesDefault, h]
    constructor
    · rintro hkeeps ⟨hempty, -, client, hclient, hne⟩
      exact hne (hkeeps client ⟨hempty, hclient⟩)
    · rintro hnot client ⟨hempty, hclient⟩
      by_contra hne
      exact hnot ⟨hempty, trivial, client, hclient, hne⟩

theorem get?_heal_of_ne {name : String} {client : Client} (hne : name ≠ defaultContext)
    (h : c.contexts.get? name = some client) : c.heal.contexts.get? name = some client := by
  cases hcurrent : c.currentClient? with
  | some current => rw [heal_of_some hcurrent, h]
  | none =>
    have hname : name ≠ c.currentName := by
      rintro rfl
      rw [get?_currentName hcurrent] at h
      rw [currentName, if_pos h.1] at hne
      exact hne rfl
    rw [heal_of_none hcurrent]
    exact (c.contexts.get?_insert_ne hname _).trans h

theorem names_prefix_heal (c : Configuration) : c.contexts.names <+: c.heal.contexts.names := by
  cases h : c.currentClient? with
  | some client => exact (heal_of_some h).symm ▸ List.prefix_refl _
  | none =>
    rw [heal_of_none h]
    exact c.contexts.names_prefix_insert _ _

/-- Healing keeps all entries, in their order and as they are, unless it loses the default context;
the other contexts and all names are kept even then. Afterwards the current context names the
client that is given back; where it did before, nothing changes, and so it is when healing is
repeated. The session that holds the configuration changes in nothing else. -/
theorem heal_keeps (c : Configuration) :
    (c.contexts.entries.Sublist c.heal.contexts.entries ↔ ¬ c.LosesDefault) ∧
    c.contexts.names <+: c.heal.contexts.names ∧
    (∀ name client, name ≠ defaultContext → c.contexts.get? name = some client →
      c.heal.contexts.get? name = some client) ∧
    c.heal.currentClient? = some c.healedClient ∧
    (c.currentExists = true → c.heal = c) ∧
    c.heal.heal = c.heal ∧
    ∀ s : Session, s.configuration = c → s.heal = { s with configuration := c.heal } := by
  refine ⟨c.sublist_heal_iff, c.names_prefix_heal, fun _ _ => get?_heal_of_ne,
    c.currentClient?_heal, ?_, heal_of_some c.currentClient?_heal, ?_⟩
  · intro hexists
    obtain ⟨client, hclient⟩ := Option.isSome_iff_exists.mp hexists
    exact heal_of_some hclient
  · rintro s rfl
    rfl

/-- A default context with no context current. -/
def unnamedCurrent : Configuration :=
  ⟨"", .ofList [("master", { host := "http://a:80", token := "t" })]⟩

/-- Reading the current client of that configuration blanks its only context. -/
theorem not_keeps_unnamedCurrent :
    ¬ unnamedCurrent.contexts.entries.Sublist unnamedCurrent.heal.contexts.entries ∧
      unnamedCurrent.heal = ⟨"master", .ofList [("master", {})]⟩ := by
  decide +kernel

end Configuration

end ContextConfig
