import ContextConfig.Text.Split
/-!
# Paths

A path is a row of names, relative or from the root. Repeated slashes and the name `.` vanish when
a path is read; `..` stays and is only resolved on demand. Exactly two slashes at the start are a
root of their own.
-/

namespace ContextConfig

/-- Where a path starts. -/
inductive PathRoot where
  | relative
  | slash
  | twoSlashes
  deriving DecidableEq, Repr

/-- What a row of names consists of: neither nothing nor the dot, and without a slash. -/
def IsName (name : String) : Prop := name ≠ "" ∧ name ≠ "." ∧ '/' ∉ name.toList

instance (name : String) : Decidable (IsName name) :=
  inferInstanceAs (Decidable (_ ∧ _ ∧ _))

structure Path where
  root : PathRoot
  names : List String
  valid : ∀ name ∈ names, IsName name
  deriving DecidableEq

namespace Path

def current : Path := ⟨.relative, [], by simp⟩

/-- The names between slashes, without empty ones and dots. -/
def namesOf (text : String) : List String :=
  ((Text.splitOn '/' text.toList).map String.ofList).filter fun name => name ≠ "" && name ≠ "."

theorem isName_of_mem_namesOf {text name : String} (h : name ∈ namesOf text) : IsName name := by
  rw [namesOf, List.mem_filter, Bool.and_eq_true, decide_eq_true_eq, decide_eq_true_eq] at h
  obtain ⟨hmem, hempty, hdot⟩ := h
  obtain ⟨part, hpart, rfl⟩ := List.mem_map.mp hmem
  refine ⟨hempty, hdot, ?_⟩
  rw [String.toList_ofList]
  exact Text.not_mem_of_mem_splitOn hpart

def rootOf (text : String) : PathRoot :=
  match (text.toList.takeWhile (· = '/')).length with
  | 0 => .relative
  | 2 => .twoSlashes
  | _ => .slash

def ofText (text : String) : Path := ⟨rootOf text, namesOf text, fun _ => isName_of_mem_namesOf⟩

def rootText : PathRoot → String
  | .relative => ""
  | .slash => "/"
  | .twoSlashes => "//"

def text (p : Path) : String :=
  match p.root, p.names with
  | .relative, [] => "."
  | root, names => rootText root ++ "/".intercalate names

def isAbsolute (p : Path) : Bool := p.root ≠ .relative

/-- A path seen from another one; an absolute path stays. -/
def join (base p : Path) : Path :=
  if p.isAbsolute then p
  else ⟨base.root, base.names ++ p.names,
    fun name h => (List.mem_append.mp h).elim (base.valid name) (p.valid name)⟩

def child (base : Path) (name : String) : Path := base.join (ofText name)

def parent (p : Path) : Path :=
  ⟨p.root, p.names.dropLast, fun name h => p.valid name (List.dropLast_subset _ h)⟩

/-- The last name; empty where there is none. -/
def name (p : Path) : String := p.names.getLast?.getD ""

/-- The end of the last name from its last dot on, unless that dot is its first or last
character. -/
def suffix (p : Path) : List Char :=
  let chars := p.name.toList
  let ending := (chars.reverse.takeWhile (· ≠ '.')).reverse
  if ending = [] || chars.length ≤ ending.length + 1 then [] else '.' :: ending

/-- Names with every `..` resolved against the one before it. -/
def resolveNames (names : List String) : List String :=
  names.foldl (fun resolved name => if name = ".." then resolved.dropLast else resolved ++ [name]) []

theorem mem_of_mem_resolveNames {name : String} {names : List String}
    (h : name ∈ resolveNames names) : name ∈ names := by
  suffices hgo : ∀ (rest resolved : List String), name ∈ rest.foldl (fun resolved name =>
      if name = ".." then resolved.dropLast else resolved ++ [name]) resolved →
      name ∈ resolved ∨ name ∈ rest from by
    simpa using hgo names [] h
  intro rest
  induction rest with
  | nil => exact fun resolved h => .inl h
  | cons first rest ih =>
    intro resolved h
    rw [List.foldl_cons] at h
    obtain h | h := ih _ h
    · split at h
      · exact .inl (List.dropLast_subset _ h)
      · rw [List.mem_append, List.mem_singleton] at h
        obtain h | rfl := h
        · exact .inl h
        · exact .inr List.mem_cons_self
    · exact .inr (List.mem_cons_of_mem _ h)

/-- The path itself, taken from the root if it is relative. -/
def rooted (p : Path) : Path := if p.isAbsolute then p else ⟨.slash, p.names, p.valid⟩

/-- The path from the root, in a working directory. -/
def absolute (p workingDirectory : Path) : Path := workingDirectory.rooted.join p

/-- The path from the root without any `..`. -/
def resolve (p workingDirectory : Path) : Path :=
  ⟨.slash, resolveNames (p.absolute workingDirectory).names,
    fun name h => (p.absolute workingDirectory).valid name (mem_of_mem_resolveNames h)⟩

theorem isAbsolute_rooted (p : Path) : p.rooted.isAbsolute = true := by
  unfold rooted
  split
  case isTrue h => exact h
  case isFalse => rfl

theorem isAbsolute_absolute (p workingDirectory : Path) :
    (p.absolute workingDirectory).isAbsolute = true := by
  unfold absolute join
  split
  case isTrue h => exact h
  case isFalse => exact workingDirectory.isAbsolute_rooted

/-- A path from the root stays in every working directory. -/
theorem absolute_of_isAbsolute {p : Path} (h : p.isAbsolute = true) (workingDirectory : Path) :
    p.absolute workingDirectory = p := by
  rw [absolute, join, if_pos h]

end Path
end ContextConfig
