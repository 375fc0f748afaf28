import ContextConfig.Path
/-!
# Paths as texts

The text of a path is read as that path. Names have no slash, so the slashes of the text are those
that separate the names, and at its start there are as many as the root has.
-/

namespace ContextConfig.Path

@[ext] theorem ext {p q : Path} (hroot : p.root = q.root) (hnames : p.names = q.names) : p = q := by
  cases p
  cases q
  cases hroot
  cases hnames
  rfl

/-- The characters of names with slashes between them. -/
def joined (names : List String) : List Char := (['/'] : List Char).intercalate (names.map String.toList)

theorem splitOn_joined {names : List String} (hne : names ≠ []) (h : ∀ name ∈ names, IsName name) :
    Text.splitOn '/' (joined names) = names.map String.toList := by
  induction names with
  | nil => exact absurd rfl hne
  | cons name names ih =>
    have hslash := (h name List.mem_cons_self).2.2
    cases names with
    | nil =>
      rw [joined, List.map_cons, List.map_nil, List.intercalate_singleton]
      exact Text.splitOn_of_not_mem hslash
    | cons next names =>
      have hrest := ih (List.cons_ne_nil _ _) fun n hn => h n (List.mem_cons_of_mem _ hn)
      rw [joined, List.map_cons, List.intercalate_cons_of_ne_nil (by simp), List.append_assoc,
        List.singleton_append, Text.splitOn_append hslash]
      exact congrArg _ hrest

theorem takeWhile_joined {names : List String} (h : ∀ name ∈ names, IsName name) :
    (joined names).takeWhile (· = '/') = [] := by
  cases names with
  | nil => rfl
  | cons name names =>
    obtain ⟨hempty, -, hslash⟩ := h name List.mem_cons_self
    obtain ⟨c, rest, hname⟩ := List.exists_cons_of_ne_nil (mt String.toList_eq_nil_iff.mp hempty)
    have hc : c ≠ '/' := by
      rintro rfl
      exact hslash (hname ▸ List.mem_cons_self)
    cases names with
    | nil => simp [joined, hname, hc]
    | cons next names => simp [joined, List.intercalate_cons_cons, hname, hc]

theorem filter_names {names : List String} (h : ∀ name ∈ names, IsName name) :
    names.filter (fun name => name ≠ "" && name ≠ ".") = names := by
  rw [List.filter_eq_self]
  intro name hname
  obtain ⟨hempty, hdot, -⟩ := h name hname
  simp [hempty, hdot]

/-- The names between the slashes of a text that starts with some. -/
theorem namesOf_append {names : List String} (h : ∀ name ∈ names, IsName name) (n : Nat) :
    namesOf (String.ofList (List.replicate n '/' ++ joined names)) = names := by
  rw [namesOf, String.toList_ofList]
  induction n with
  | zero =>
    rw [List.replicate_zero, List.nil_append]
    by_cases hne : names = []
    · subst hne
      decide
    · rw [splitOn_joined hne h, List.map_map]
      simpa [Function.comp_def] using filter_names h
  | succ n ih =>
    rw [List.replicate_succ, List.cons_append, Text.splitOn, if_pos rfl, List.map_cons,
      List.filter_cons_of_neg (by simp)]
    exact ih

/-- The number of slashes at the start of a path. -/
def slashes : PathRoot → Nat
  | .relative => 0
  | .slash => 1
  | .twoSlashes => 2

theorem rootOf_append (root : PathRoot) {names : List String} (h : ∀ name ∈ names, IsName name) :
    rootOf (String.ofList (List.replicate (slashes root) '/' ++ joined names)) = root := by
  rw [rootOf, String.toList_ofList, List.takeWhile_append_of_pos (by simp), takeWhile_joined h,
    List.append_nil, List.length_replicate]
  cases root <;> rfl

theorem rootText_append (root : PathRoot) (names : List String) :
    rootText root ++ "/".intercalate names
      = String.ofList (List.replicate (slashes root) '/' ++ joined names) := by
  apply String.toList_injective
  cases root <;> simp [joined, rootText, slashes]

/-- The text of a path is read as the path. -/
theorem ofText_text (p : Path) : ofText p.text = p := by
  obtain ⟨root, names, valid⟩ := p
  by_cases hcurrent : root = .relative ∧ names = []
  · obtain ⟨rfl, rfl⟩ := hcurrent
    have hdot : ofText "." = current := by decide
    exact hdot
  · have htext : text ⟨root, names, valid⟩
        = String.ofList (List.replicate (slashes root) '/' ++ joined names) := by
      rw [← rootText_append, text]
      split
      · rename_i hroot hnames
        exact absurd ⟨hroot, hnames⟩ hcurrent
      · rfl
    rw [htext]
    exact ext (rootOf_append root valid) (namesOf_append valid _)

theorem names_join (base p : Path) :
    (base.join p).names = if p.isAbsolute then p.names else base.names ++ p.names := by
  rw [join]
  split <;> rfl

theorem root_join (base p : Path) :
    (base.join p).root = if p.isAbsolute then p.root else base.root := by
  rw [join]
  split <;> rfl

section Children

variable {name : String}

theorem ofText_name (h : IsName name) : ofText name = ⟨.relative, [name], by simpa using h⟩ := by
  have htext : text ⟨.relative, [name], by simpa using h⟩ = name := by
    simp [text, rootText]
  rw [← ofText_text ⟨.relative, [name], by simpa using h⟩, htext]

theorem names_child (h : IsName name) (base : Path) : (base.child name).names = base.names ++ [name] := by
  rw [child, ofText_name h, join]
  rfl

theorem root_child (h : IsName name) (base : Path) : (base.child name).root = base.root := by
  rw [child, ofText_name h, join]
  rfl

theorem parent_child (h : IsName name) (base : Path) : (base.child name).parent = base := by
  apply ext
  · exact root_child h base
  · change (base.child name).names.dropLast = base.names
    rw [names_child h, List.dropLast_concat]

theorem absolute_child (h : IsName name) (base workingDirectory : Path) :
    (base.child name).absolute workingDirectory = (base.absolute workingDirectory).child name := by
  have habsolute : (base.child name).isAbsolute = base.isAbsolute := by
    rw [isAbsolute, isAbsolute, root_child h]
  apply ext
  · rw [root_child h, absolute, absolute, root_join, root_join, habsolute, root_child h]
  · rw [names_child h, absolute, absolute, names_join, names_join, habsolute, names_child h]
    split
    case isTrue => rfl
    case isFalse => rw [List.append_assoc]

end Children

end ContextConfig.Path
