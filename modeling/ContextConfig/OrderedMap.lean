/-!
# Maps that remember the order of their names

An entry keeps the place where its name was first inserted: assigning to a present name changes
the value in place, and a new name goes to the end. No name occurs twice. Look-up, the names and
the size are the views in which the lemmas below describe each operation.
-/

namespace ContextConfig

/-- Entries under distinct names, in insertion order. -/
structure OrderedMap (α : Type) where
  entries : List (String × α)
  distinct : (entries.map Prod.fst).Nodup
  deriving DecidableEq

namespace OrderedMap

variable {α β : Type}

/-- The value under a name in a list of entries. -/
def find (name : String) : List (String × α) → Option α
  | [] => none
  | (key, value) :: rest => if key = name then some value else find name rest

/-- The list with a value assigned to a name: in place, or at the end when the name is new. -/
def put (name : String) (value : α) : List (String × α) → List (String × α)
  | [] => [(name, value)]
  | (key, old) :: rest =>
    if key = name then (key, value) :: rest else (key, old) :: put name value rest

theorem mem_names_put {name other : String} {value : α} {entries : List (String × α)} :
    other ∈ (put name value entries).map Prod.fst ↔
      other = name ∨ other ∈ entries.map Prod.fst := by
  induction entries with
  | nil => simp [put]
  | cons entry rest ih =>
    by_cases h : entry.1 = name
    · simp [put, h]
    · simp only [put, h, if_false, List.map_cons, List.mem_cons, ih]
      constructor
      · rintro (h | h | h) <;> simp [h]
      · rintro (h | h | h) <;> simp [h]

theorem nodup_put {name : String} {value : α} {entries : List (String × α)}
    (h : (entries.map Prod.fst).Nodup) : ((put name value entries).map Prod.fst).Nodup := by
  induction entries with
  | nil => simp [put]
  | cons entry rest ih =>
    rw [List.map_cons, List.nodup_cons] at h
    by_cases hk : entry.1 = name
    · rw [put, if_pos hk, List.map_cons, List.nodup_cons]
      exact h
    · rw [put, if_neg hk, List.map_cons, List.nodup_cons, mem_names_put]
      exact ⟨fun hor => hor.elim hk h.1, ih h.2⟩

def empty : OrderedMap α := ⟨[], List.nodup_nil⟩

instance : Inhabited (OrderedMap α) := ⟨empty⟩

def get? (m : OrderedMap α) (name : String) : Option α := find name m.entries

def names (m : OrderedMap α) : List String := m.entries.map Prod.fst

def values (m : OrderedMap α) : List α := m.entries.map Prod.snd

def size (m : OrderedMap α) : Nat := m.entries.length

def isEmpty (m : OrderedMap α) : Bool := m.entries.isEmpty

def contains (m : OrderedMap α) (name : String) : Bool := (m.get? name).isSome

def insert (m : OrderedMap α) (name : String) (value : α) : OrderedMap α :=
  ⟨put name value m.entries, nodup_put m.distinct⟩

def erase (m : OrderedMap α) (name : String) : OrderedMap α where
  entries := m.entries.filter (·.1 ≠ name)
  distinct := m.distinct.sublist (List.filter_sublist.map _)

/-- Change every value and keep the names. -/
def map (m : OrderedMap α) (f : α → β) : OrderedMap β where
  entries := m.entries.map fun entry => (entry.1, f entry.2)
  distinct := by simpa [Function.comp_def] using m.distinct

/-- Insert the entries of a list from left to right. -/
def ofList (entries : List (String × α)) : OrderedMap α :=
  entries.foldl (fun m entry => m.insert entry.1 entry.2) empty

/-- Two maps with equal values under equal names, in whatever order. -/
def SameEntries (a b : OrderedMap α) : Prop := ∀ name, a.get? name = b.get? name

/-- Decides whether two maps have the same entries. -/
def sameEntries [DecidableEq α] (a b : OrderedMap α) : Bool :=
  a.size == b.size && a.entries.all fun entry => b.get? entry.1 == some entry.2

@[ext] theorem ext {a b : OrderedMap α} (h : a.entries = b.entries) : a = b := by
  cases a; cases b; cases h; rfl

theorem find_put_self (name : String) (value : α) (entries : List (String × α)) :
    find name (put name value entries) = some value := by
  induction entries with
  | nil => simp [put, find]
  | cons entry rest ih => by_cases h : entry.1 = name <;> simp [put, find, h, ih]

theorem find_put_ne {name other : String} (h : other ≠ name) (value : α)
    (entries : List (String × α)) : find other (put name value entries) = find other entries := by
  induction entries with
  | nil => simp [put, find, Ne.symm h]
  | cons entry rest ih =>
    by_cases hk : entry.1 = name
    · simp [put, find, hk, Ne.symm h]
    · simp [put, find, hk, ih]

@[simp] theorem get?_insert_self (m : OrderedMap α) (name : String) (value : α) :
    (m.insert name value).get? name = some value := find_put_self ..

theorem get?_insert_ne (m : OrderedMap α) {name other : String} (h : other ≠ name) (value : α) :
    (m.insert name value).get? other = m.get? other := find_put_ne h ..

theorem find_eq_none_iff {name : String} {entries : List (String × α)} :
    find name entries = none ↔ name ∉ entries.map Prod.fst := by
  induction entries with
  | nil => simp [find]
  | cons entry rest ih =>
    by_cases h : entry.1 = name
    · simp [find, h]
    · simp [find, h, ih, Ne.symm h]

/-- A name has a value exactly when it is one of the names. -/
theorem contains_iff {m : OrderedMap α} {name : String} :
    m.contains name = true ↔ name ∈ m.names := by
  rw [contains, names, ← Decidable.not_iff_not, ← find_eq_none_iff, get?]
  cases find name m.entries <;> simp

/-- A new name goes to the end. -/
theorem put_of_not_mem {name : String} {value : α} {entries : List (String × α)}
    (h : name ∉ entries.map Prod.fst) : put name value entries = entries ++ [(name, value)] := by
  induction entries with
  | nil => rfl
  | cons entry rest ih =>
    rw [List.map_cons, List.mem_cons, not_or] at h
    simp [put, Ne.symm h.1, ih h.2]

theorem entries_insert_of_get?_none {m : OrderedMap α} {name : String} {value : α}
    (h : m.get? name = none) : (m.insert name value).entries = m.entries ++ [(name, value)] :=
  put_of_not_mem (find_eq_none_iff.mp h)

end OrderedMap
end ContextConfig
