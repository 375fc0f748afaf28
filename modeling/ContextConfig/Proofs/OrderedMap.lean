import ContextConfig.OrderedMap
import Mathlib.Data.List.Nodup
/-!
# What changing a map does to its entries

Inserting under a present name changes one value and nothing else; under a new name it adds an
entry at the end. Either way the names stay in their order, and entries are only lost where a
different value was stored under the name.
-/

namespace ContextConfig.OrderedMap

variable {α : Type} {name : String} {value old : α} {entries : List (String × α)}

theorem names_put (h : find name entries = some old) :
    (put name value entries).map Prod.fst = entries.map Prod.fst := by
  induction entries with
  | nil => cases h
  | cons entry rest ih =>
    by_cases hk : entry.1 = name
    · simp [put, hk]
    · rw [find, if_neg hk] at h
      rw [put, if_neg hk, List.map_cons, List.map_cons, ih h]

/-- Assigning the value that is there changes nothing. -/
theorem put_eq_self (h : find name entries = some value) : put name value entries = entries := by
  induction entries with
  | nil => cases h
  | cons entry rest ih =>
    obtain ⟨key, present⟩ := entry
    by_cases hk : key = name
    · rw [find, if_pos hk] at h
      cases h
      rw [put, if_pos hk]
    · rw [find, if_neg hk] at h
      rw [put, if_neg hk, ih h]

theorem names_prefix_insert (m : OrderedMap α) (name : String) (value : α) :
    m.names <+: (m.insert name value).names := by
  cases h : m.get? name with
  | none =>
    rw [names, names, entries_insert_of_get?_none h, List.map_append]
    exact List.prefix_append _ _
  | some old =>
    have hnames : (m.insert name value).names = m.names := names_put h
    exact hnames ▸ List.prefix_refl _

/-- Inserting keeps all entries exactly if it replaces no other value. -/
theorem sublist_insert_iff (m : OrderedMap α) (name : String) (value : α) :
    m.entries.Sublist (m.insert name value).entries ↔ ∀ old, m.get? name = some old → old = value := by
  constructor
  · intro hsub old hold
    have hlength : (m.insert name value).entries.length = m.entries.length := by
      have hnames : (m.insert name value).entries.map Prod.fst = m.entries.map Prod.fst :=
        names_put hold
      have hlength := congrArg List.length hnames
      rwa [List.length_map, List.length_map] at hlength
    have hsame : m = m.insert name value := ext (hsub.eq_of_length hlength.symm)
    have hvalue := m.get?_insert_self name value
    rw [← hsame, hold] at hvalue
    exact Option.some.inj hvalue
  · intro hold
    cases h : m.get? name with
    | none =>
      rw [entries_insert_of_get?_none h]
      exact List.sublist_append_left _ _
    | some old =>
      obtain rfl := hold old h
      have hentries : (m.insert name old).entries = m.entries := put_eq_self h
      rw [hentries]

theorem mem_of_find {entries : List (String × α)} (h : find name entries = some value) :
    (name, value) ∈ entries := by
  induction entries with
  | nil => cases h
  | cons entry rest ih =>
    by_cases hk : entry.1 = name
    · rw [find, if_pos hk] at h
      cases h
      cases hk
      exact List.mem_cons_self
    · rw [find, if_neg hk] at h
      exact List.mem_cons_of_mem _ (ih h)

/-- The entries are the values under their names. -/
theorem get?_eq_some_iff {m : OrderedMap α} : m.get? name = some value ↔ (name, value) ∈ m.entries := by
  refine ⟨mem_of_find, fun h => ?_⟩
  have hname : m.contains name = true := contains_iff.mpr (List.mem_map_of_mem h)
  obtain ⟨other, hother⟩ := Option.isSome_iff_exists.mp hname
  have hpair := List.inj_on_of_nodup_map m.distinct (mem_of_find hother) h rfl
  cases hpair
  exact hother

/-- A stored value has its place among the entries, and its name stands nowhere else. -/
theorem exists_split {m : OrderedMap α} (h : m.get? name = some old) :
    ∃ before after, m.entries = before ++ (name, old) :: after ∧
      name ∉ before.map Prod.fst ∧ name ∉ after.map Prod.fst := by
  obtain ⟨before, after, hentries⟩ := List.append_of_mem (get?_eq_some_iff.mp h)
  have hdistinct := m.distinct
  rw [hentries, List.map_append, List.map_cons, List.nodup_middle, List.nodup_cons,
    List.mem_append, not_or] at hdistinct
  exact ⟨before, after, hentries, hdistinct.1⟩

theorem filter_of_not_mem (h : name ∉ entries.map Prod.fst) :
    entries.filter (·.1 ≠ name) = entries := by
  rw [List.filter_eq_self]
  intro entry hentry
  exact decide_eq_true fun hsame => h (hsame ▸ List.mem_map_of_mem hentry)

/-- Erasing takes one entry out and leaves the rest as it is. -/
theorem entries_erase {m : OrderedMap α} (h : m.get? name = some old) :
    ∃ before after, m.entries = before ++ (name, old) :: after ∧
      (m.erase name).entries = before ++ after := by
  obtain ⟨before, after, hentries, hbefore, hafter⟩ := exists_split h
  refine ⟨before, after, hentries, ?_⟩
  calc (m.erase name).entries
      = (before ++ (name, old) :: after).filter (·.1 ≠ name) := by rw [← hentries]; rfl
    _ = before ++ after := by
        rw [List.filter_append, List.filter_cons_of_neg (by simp), filter_of_not_mem hbefore,
          filter_of_not_mem hafter]

theorem put_append {before after : List (String × α)} (h : name ∉ before.map Prod.fst) :
    put name value (before ++ (name, old) :: after) = before ++ (name, value) :: after := by
  induction before with
  | nil => simp [put]
  | cons entry before ih =>
    rw [List.map_cons, List.mem_cons, not_or] at h
    rw [List.cons_append, put, if_neg (Ne.symm h.1), ih h.2, List.cons_append]

/-- Assigning to a present name changes its value and leaves the rest as it is. -/
theorem entries_insert_of_get?_some {m : OrderedMap α} (h : m.get? name = some old) (value : α) :
    ∃ before after, m.entries = before ++ (name, old) :: after ∧
      (m.insert name value).entries = before ++ (name, value) :: after := by
  obtain ⟨before, after, hentries, hbefore, -⟩ := exists_split h
  have hput : put name value m.entries = before ++ (name, value) :: after := by
    rw [hentries]
    exact put_append hbefore
  exact ⟨before, after, hentries, hput⟩

/-- Of two values assigned to a name the second one stays. -/
theorem put_put (name : String) (value other : α) (entries : List (String × α)) :
    put name other (put name value entries) = put name other entries := by
  induction entries with
  | nil => simp [put]
  | cons entry rest ih =>
    by_cases hk : entry.1 = name
    · simp [put, hk]
    · simp [put, hk, ih]

theorem insert_insert (m : OrderedMap α) (name : String) (value other : α) :
    (m.insert name value).insert name other = m.insert name other :=
  ext (put_put name value other m.entries)

theorem insert_eq_self {m : OrderedMap α} (h : m.get? name = some value) :
    m.insert name value = m :=
  ext (put_eq_self h)

/-- What is stored under other names, and in which order, does not change. -/
theorem filter_put (name : String) (value : α) (entries : List (String × α)) :
    (put name value entries).filter (·.1 ≠ name) = entries.filter (·.1 ≠ name) := by
  induction entries with
  | nil => simp [put]
  | cons entry rest ih =>
    by_cases hk : entry.1 = name
    · simp [put, hk]
    · simpa [put, hk] using ih

@[simp] theorem erase_insert (m : OrderedMap α) (name : String) (value : α) :
    (m.insert name value).erase name = m.erase name :=
  ext (filter_put name value m.entries)

theorem erase_map {β : Type} (m : OrderedMap α) (f : α → β) (name : String) :
    (m.map f).erase name = (m.erase name).map f := by
  apply ext
  simp only [erase, map, List.filter_map, Function.comp_def]

theorem find_map {β : Type} (f : α → β) (name : String) (entries : List (String × α)) :
    find name (entries.map fun entry => (entry.1, f entry.2)) = (find name entries).map f := by
  induction entries with
  | nil => rfl
  | cons entry rest ih =>
    by_cases hk : entry.1 = name
    · simp [find, hk]
    · simpa [find, hk] using ih

theorem get?_map {β : Type} (m : OrderedMap α) (f : α → β) (name : String) :
    (m.map f).get? name = (m.get? name).map f :=
  find_map f name m.entries

@[simp] theorem names_map {β : Type} (m : OrderedMap α) (f : α → β) : (m.map f).names = m.names := by
  simp [names, map, Function.comp_def]

theorem put_map {β : Type} (f : α → β) (name : String) (value : α) (entries : List (String × α)) :
    put name (f value) (entries.map fun entry => (entry.1, f entry.2))
      = (put name value entries).map fun entry => (entry.1, f entry.2) := by
  induction entries with
  | nil => rfl
  | cons entry rest ih =>
    by_cases hk : entry.1 = name
    · simp [put, hk]
    · simpa [put, hk] using ih

theorem map_insert {β : Type} (m : OrderedMap α) (f : α → β) (name : String) (value : α) :
    (m.insert name value).map f = (m.map f).insert name (f value) :=
  ext (put_map f name value m.entries).symm

@[simp] theorem contains_map {β : Type} (m : OrderedMap α) (f : α → β) (name : String) :
    (m.map f).contains name = m.contains name := by
  rw [contains, contains, get?_map, Option.isSome_map]

theorem map_map {β γ : Type} (m : OrderedMap α) (f : α → β) (g : β → γ) :
    (m.map f).map g = m.map (g ∘ f) :=
  ext (List.map_map ..)

theorem mem_names_erase {m : OrderedMap α} {other : String} :
    other ∈ (m.erase name).names ↔ other ∈ m.names ∧ other ≠ name := by
  simp only [names, erase, List.mem_map, List.mem_filter, decide_eq_true_eq]
  constructor
  · rintro ⟨entry, ⟨hentry, hne⟩, rfl⟩
    exact ⟨⟨entry, hentry, rfl⟩, hne⟩
  · rintro ⟨⟨entry, hentry, rfl⟩, hne⟩
    exact ⟨entry, ⟨hentry, hne⟩, rfl⟩

end ContextConfig.OrderedMap
