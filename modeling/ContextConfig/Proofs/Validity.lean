import ContextConfig.Error
import ContextConfig.Proofs.OrderedMap
/-!
# When a configuration is valid

A configuration is valid when it has a context and every context is valid. Checking it comes to the
same: it is refused when it has no context, or else for its invalid ones, which the refusal names in
their order.
-/

namespace ContextConfig.Configuration

variable {c : Configuration}

theorem isValid_iff : c.isValid = true ↔
    c.contexts.names ≠ [] ∧ ∀ entry ∈ c.contexts.entries, entry.2.isValid = true := by
  simp [isValid, OrderedMap.isEmpty, OrderedMap.names, OrderedMap.values]

theorem invalidContexts_eq_nil_iff :
    c.invalidContexts = [] ↔ ∀ entry ∈ c.contexts.entries, entry.2.isValid = true := by
  simp [invalidContexts, List.filter_eq_nil_iff]

theorem mem_invalidContexts {name : String} : name ∈ c.invalidContexts ↔
    ∃ client, c.contexts.get? name = some client ∧ client.isValid = false := by
  simp [invalidContexts, OrderedMap.get?_eq_some_iff]

theorem invalidContexts_erase (c : Configuration) (current name : String) :
    invalidContexts ⟨current, c.contexts.erase name⟩ = c.invalidContexts.filter (· ≠ name) := by
  simp [invalidContexts, OrderedMap.erase, List.filter_map, List.filter_filter, Function.comp_def,
    Bool.and_comm]

/-- Where there are contexts, the invalid ones are all that can be refused. -/
theorem check_eq (h : c.contexts.names ≠ []) :
    c.check = if c.invalidContexts = [] then .ok ()
      else .error (.invalid (.contexts c.invalidContexts)) := by
  have hempty : c.contexts.isEmpty = false := by
    simpa [OrderedMap.isEmpty, OrderedMap.names] using h
  rw [check, hempty]
  cases c.invalidContexts <;> rfl

theorem check_of_some {client : Client} (h : c.currentClient? = some client) :
    c.check = if c.invalidContexts = [] then .ok ()
      else .error (.invalid (.contexts c.invalidContexts)) :=
  check_eq (List.ne_nil_of_mem (List.mem_map_of_mem (OrderedMap.get?_eq_some_iff.mp h)))

/-- A configuration is refused unless there is a context and all of them are valid. -/
theorem check_eq_ok_iff (c : Configuration) : c.check = .ok () ↔ c.isValid = true := by
  rw [isValid_iff, ← invalidContexts_eq_nil_iff]
  by_cases h : c.contexts.names = []
  · have hempty : c.contexts.isEmpty = true := by
      simpa [OrderedMap.isEmpty, OrderedMap.names] using h
    simp [check, hempty, h]
  · rw [check_eq h]
    simp [h]

/-- All clients of a configuration that is not refused are valid. -/
theorem isValid_of_check (h : c.check = .ok ()) {entry : String × Client}
    (hentry : entry ∈ c.contexts.entries) : entry.2.isValid = true :=
  (isValid_iff.mp ((check_eq_ok_iff c).mp h)).2 entry hentry

end ContextConfig.Configuration
