import ContextConfig.Proofs.Validity
/-!
# Removing a context

A context can be removed unless it is the current one and no other valid one could take its place.
Removing it takes its entry out and leaves the others where and as they are; when it was the current
one, the first other valid context becomes current. What is refused leaves everything as it was.
-/

namespace ContextConfig.Configuration

variable {c : Configuration} {name other : String}

/-- The first context in order that is valid and has another name. -/
def FirstValidOther (c : Configuration) (name other : String) : Prop :=
  ∃ before client after, c.contexts.entries = before ++ (other, client) :: after ∧
    other ≠ name ∧ client.isValid = true ∧
    ∀ entry ∈ before, entry.1 = name ∨ entry.2.isValid = false

/-- A context that cannot be removed: it is not stored, or is the current one and no other context is
valid. -/
def Irremovable (c : Configuration) (name : String) : Prop :=
  name ∉ c.contexts.names ∨
    c.current = name ∧ ∀ entry ∈ c.contexts.entries, entry.1 ≠ name → entry.2.isValid = false

/-- What removing a context leaves: all entries but one, in their order, and a current context that
only moves away from the one that is removed. -/
structure Removes (c : Configuration) (name : String) (c' : Configuration) : Prop where
  entries : ∃ before client after, c.contexts.entries = before ++ (name, client) :: after ∧
    c'.contexts.entries = before ++ after
  kept : c.current ≠ name → c'.current = c.current
  moved : c.current = name → c.FirstValidOther name c'.current

theorem replacementFor_eq_some_iff :
    c.replacementFor name = some other ↔ c.FirstValidOther name other := by
  simp only [replacementFor, FirstValidOther, Option.map_eq_some_iff, List.find?_eq_some_iff_append]
  constructor
  · rintro ⟨⟨_, client⟩, ⟨hentry, before, after, hentries, hbefore⟩, rfl⟩
    simp only [Bool.and_eq_true, decide_eq_true_eq] at hentry
    refine ⟨before, client, after, hentries, hentry.1, hentry.2, fun entry hmem => ?_⟩
    simpa [← imp_iff_not_or] using hbefore entry hmem
  · rintro ⟨before, client, after, hentries, hne, hvalid, hbefore⟩
    refine ⟨(other, client), ⟨by simp [hne, hvalid], before, after, hentries, ?_⟩, rfl⟩
    intro entry hmem
    simpa [← imp_iff_not_or] using hbefore entry hmem

theorem replacementFor_eq_none_iff :
    c.replacementFor name = none ↔
      ∀ entry ∈ c.contexts.entries, entry.1 ≠ name → entry.2.isValid = false := by
  simp [replacementFor]

/-- The context that takes over is a stored one. -/
theorem FirstValidOther.mem_names (h : c.FirstValidOther name other) : other ∈ c.contexts.names := by
  obtain ⟨before, client, after, hentries, -⟩ := h
  rw [OrderedMap.names, hentries]
  simp

theorem FirstValidOther.ne (h : c.FirstValidOther name other) : other ≠ name := by
  obtain ⟨-, -, -, -, hne, -⟩ := h
  exact hne

/-- All that removing a context can come to. -/
theorem removeContext_cases (c : Configuration) (name : String) :
    (c.Irremovable name ∧ c.removeContext name = (false, c)) ∨
      ∃ current, c.removeContext name = (true, ⟨current, c.contexts.erase name⟩) ∧
        name ∈ c.contexts.names ∧ (c.current ≠ name ∧ current = c.current ∨
          c.current = name ∧ c.FirstValidOther name current) := by
  rw [removeContext]
  by_cases hname : c.contexts.contains name = true
  · have hstored := OrderedMap.contains_iff.mp hname
    by_cases hcurrent : c.current = name
    · cases hother : c.replacementFor name with
      | none =>
        exact .inl ⟨.inr ⟨hcurrent, replacementFor_eq_none_iff.mp hother⟩, by simp [hname, hcurrent]⟩
      | some other =>
        exact .inr ⟨other, by simp [hname, hcurrent], hstored,
          .inr ⟨hcurrent, replacementFor_eq_some_iff.mp hother⟩⟩
    · exact .inr ⟨c.current, by simp [hname, hcurrent], hstored, .inl ⟨hcurrent, rfl⟩⟩
  · exact .inl ⟨.inl fun hstored => hname (OrderedMap.contains_iff.mpr hstored), by simp [hname]⟩

theorem removeContext_eq_false_iff : (c.removeContext name).1 = false ↔ c.Irremovable name := by
  obtain ⟨hirremovable, hresult⟩ | ⟨current, hresult, hname, hcurrent⟩ := c.removeContext_cases name
  · rw [hresult]
    exact iff_of_true rfl hirremovable
  · rw [hresult]
    refine iff_of_false Bool.noConfusion ?_
    rintro (hmissing | ⟨hsame, hothers⟩)
    · exact hmissing hname
    · obtain ⟨hne, -⟩ | ⟨-, before, client, after, hentries, hne, hvalid, -⟩ := hcurrent
      · exact hne hsame
      · have hinvalid := hothers (current, client) (by simp [hentries]) hne
        rw [hvalid] at hinvalid
        cases hinvalid

/-- A removal that is refused leaves everything as it was. -/
theorem removeContext_of_refused (h : (c.removeContext name).1 = false) :
    (c.removeContext name).2 = c := by
  obtain ⟨-, hresult⟩ | ⟨current, hresult, -⟩ := c.removeContext_cases name
  · rw [hresult]
  · rw [hresult] at h
    cases h

/-- A context that is removed was stored, and another one is current afterwards: the one that was,
or else a stored one. -/
theorem removeContext_of_removed (h : (c.removeContext name).1 = true) :
    name ∈ c.contexts.names ∧ ∃ current, current ≠ name ∧
      (current = c.current ∨ current ∈ c.contexts.names) ∧
      (c.removeContext name).2 = ⟨current, c.contexts.erase name⟩ := by
  obtain ⟨-, hresult⟩ | ⟨current, hresult, hname, hcurrent⟩ := c.removeContext_cases name
  · rw [hresult] at h
    cases h
  · rw [hresult]
    refine ⟨hname, current, ?_, ?_, rfl⟩
    · obtain ⟨hne, rfl⟩ | ⟨-, hfirst⟩ := hcurrent
      · exact hne
      · exact hfirst.ne
    · obtain ⟨-, hsame⟩ | ⟨-, hfirst⟩ := hcurrent
      · exact .inl hsame
      · exact .inr hfirst.mem_names

theorem removes_of_removed (h : (c.removeContext name).1 = true) :
    c.Removes name (c.removeContext name).2 := by
  obtain ⟨-, hresult⟩ | ⟨current, hresult, hname, hcurrent⟩ := c.removeContext_cases name
  · rw [hresult] at h
    cases h
  · rw [hresult]
    obtain ⟨client, hclient⟩ := Option.isSome_iff_exists.mp (OrderedMap.contains_iff.mpr hname)
    obtain ⟨before, after, hentries, herased⟩ := OrderedMap.entries_erase hclient
    refine ⟨⟨before, client, after, hentries, herased⟩, fun hne => ?_, fun hsame => ?_⟩
    · exact (hcurrent.resolve_right fun hmoved => hne hmoved.1).2
    · exact (hcurrent.resolve_left fun hkept => hkept.1 hsame).2

theorem currentExists_removeContext (h : c.currentExists = true) (name : String) :
    (c.removeContext name).2.currentExists = true := by
  have hstored : c.current ∈ c.contexts.names := OrderedMap.contains_iff.mp h
  cases hremoved : (c.removeContext name).1 with
  | false =>
    rw [removeContext_of_refused hremoved]
    exact h
  | true =>
    obtain ⟨-, current, hne, hcurrent, hresult⟩ := removeContext_of_removed hremoved
    rw [hresult, currentExists, OrderedMap.contains_iff, OrderedMap.mem_names_erase]
    exact ⟨hcurrent.elim (fun hsame => hsame ▸ hstored) id, hne⟩

theorem mem_of_mem_removeContext {entry : String × Client}
    (h : entry ∈ (c.removeContext name).2.contexts.entries) : entry ∈ c.contexts.entries := by
  cases hremoved : (c.removeContext name).1 with
  | false => rwa [removeContext_of_refused hremoved] at h
  | true =>
    obtain ⟨-, current, -, -, hresult⟩ := removeContext_of_removed hremoved
    rw [hresult] at h
    exact (List.mem_filter.mp h).1

/-- Removing a context is refused exactly for one that is not stored, or is current where no other
one is valid, and then everything is as it was. Otherwise exactly its entry is taken out, and the
first other valid context becomes current if it was. So a current context that is stored stays so,
and what is valid then stays valid and keeps a context. -/
theorem removeContext_outcome (c : Configuration) (name : String) :
    ((c.removeContext name).1 = false ↔ name ∉ c.contexts.names ∨
      c.current = name ∧ ∀ entry ∈ c.contexts.entries, entry.1 ≠ name → entry.2.isValid = false) ∧
    ((c.removeContext name).1 = false → (c.removeContext name).2 = c) ∧
    ((c.removeContext name).1 = true → c.Removes name (c.removeContext name).2) ∧
    (c.currentExists = true → (c.removeContext name).2.currentExists = true) ∧
    (c.isValid = true → c.currentExists = true →
      (c.removeContext name).2.isValid = true ∧ (c.removeContext name).2.contexts.names ≠ []) := by
  refine ⟨removeContext_eq_false_iff, removeContext_of_refused, removes_of_removed,
    (currentExists_removeContext · name), fun hvalid hexists => ?_⟩
  have hcurrent := OrderedMap.contains_iff.mp (currentExists_removeContext hexists name)
  have hsome := List.ne_nil_of_mem hcurrent
  refine ⟨isValid_iff.mpr ⟨hsome, fun entry hentry => ?_⟩, hsome⟩
  exact (isValid_iff.mp hvalid).2 entry (mem_of_mem_removeContext hentry)

end ContextConfig.Configuration
