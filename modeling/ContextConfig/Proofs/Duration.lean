import ContextConfig.Error
import Mathlib.Data.List.TakeWhile
/-!
# Texts of durations

A duration is written as an optional sign in front of components, each of them a decimal number and
a unit, or in front of a lone `0`. `Duration.Spells` says so without the reader. The reader takes
the longest number and the first unit that fits, and never goes back. This is enough, because each
choice is forced by what follows: a unit starts with neither a digit nor a point, and a component
with one of these, so that no number ends earlier and `m` is never the start of `ms`. The reader
therefore accepts exactly the texts that are spelled like this, and finds the only way to take one
apart.
-/

namespace ContextConfig

open Text (isDecimalDigit)

namespace TimeUnit

variable {rest text : List Char} {unit : TimeUnit}

/-- A unit starts with a letter that can stand in no number. -/
theorem exists_spelling_cons (unit : TimeUnit) :
    ∃ c letters, unit.spelling = c :: letters ∧ isDecimalDigit c = false ∧ c ≠ '.' := by
  cases unit <;> exact ⟨_, _, rfl, by decide, by decide⟩

/-- A unit is read where no letter follows that makes another one of it. -/
theorem read_spelling (unit : TimeUnit) (h : ∀ c ∈ rest.head?, c ≠ 's') :
    read (unit.spelling ++ rest) = some (unit, rest) := by
  cases unit with
  -- `m` alone is the start of another unit.
  | minute =>
    cases rest with
    | nil => rfl
    | cons c rest =>
      have hc : 's' ≠ c := (h c rfl).symm
      simp [read, all, spelling, Text.after?, hc]
  | _ => rfl

theorem eq_of_read (h : read text = some (unit, rest)) : text = unit.spelling ++ rest := by
  obtain ⟨found, -, hfound⟩ := List.exists_of_findSome?_eq_some h
  obtain ⟨after, hafter, hparts⟩ := Option.map_eq_some_iff.mp hfound
  cases hparts
  exact Text.after?_eq_some_iff.mp hafter

end TimeUnit

namespace Duration

section Numbers

/-- A decimal number as it is written: digits with an optional point and further digits, or a point
and digits. -/
inductive IsNumber : List Char → Prop where
  | whole {digits : List Char} (hne : digits ≠ [])
    (hdigits : ∀ c ∈ digits, isDecimalDigit c = true) : IsNumber digits
  | pointed {digits fraction : List Char} (hne : digits ≠ [])
    (hdigits : ∀ c ∈ digits, isDecimalDigit c = true)
    (hfraction : ∀ c ∈ fraction, isDecimalDigit c = true) : IsNumber (digits ++ '.' :: fraction)
  | fraction {digits : List Char} (hne : digits ≠ [])
    (hdigits : ∀ c ∈ digits, isDecimalDigit c = true) : IsNumber ('.' :: digits)

variable {number rest text : List Char}

theorem IsNumber.exists_cons (h : IsNumber number) :
    ∃ c more, number = c :: more ∧ (isDecimalDigit c = true ∨ c = '.') := by
  cases h with
  | whole hne hdigits =>
    obtain ⟨c, digits, rfl⟩ := List.exists_cons_of_ne_nil hne
    exact ⟨c, digits, rfl, .inl (hdigits c List.mem_cons_self)⟩
  | pointed hne hdigits _ =>
    obtain ⟨c, digits, rfl⟩ := List.exists_cons_of_ne_nil hne
    exact ⟨c, _, rfl, .inl (hdigits c List.mem_cons_self)⟩
  | fraction => exact ⟨'.', _, rfl, .inr rfl⟩

/-- A number is read as a whole where neither a digit nor a point follows. -/
theorem readNumber_append (h : IsNumber number)
    (hrest : ∀ c ∈ rest.head?, isDecimalDigit c = false ∧ c ≠ '.') :
    readNumber (number ++ rest) = some (number, rest) := by
  have hends : ∀ c ∈ rest.head?, isDecimalDigit c = false := fun c hc => (hrest c hc).1
  have hpoint : ∀ more, rest ≠ '.' :: more := by
    rintro more rfl
    exact (hrest '.' rfl).2 rfl
  cases h with
  | whole hne hdigits =>
    obtain ⟨htake, hdrop⟩ := Text.takeWhile_run hdigits hends
    obtain ⟨c, digits, rfl⟩ := List.exists_cons_of_ne_nil hne
    rw [readNumber, htake, hdrop]
    split
    · rename_i hnil
      cases hnil
    · rename_i hnil _
      cases hnil
    · exact absurd rfl (hpoint _)
    · rfl
  | pointed hne hdigits hfraction =>
    rename_i digits fraction
    have hstop : ∀ c ∈ ('.' :: (fraction ++ rest)).head?, isDecimalDigit c = false := by
      rintro _ ⟨⟩
      decide
    obtain ⟨hfirst, hmore⟩ := Text.takeWhile_run hdigits hstop
    obtain ⟨htake, hdrop⟩ := Text.takeWhile_run hfraction hends
    obtain ⟨c, digits, rfl⟩ := List.exists_cons_of_ne_nil hne
    have htext : c :: digits ++ '.' :: fraction ++ rest
        = c :: digits ++ '.' :: (fraction ++ rest) := by simp
    rw [htext, readNumber, hfirst, hmore]
    simp only [htake, hdrop]
  | fraction hne hdigits =>
    obtain ⟨htake, hdrop⟩ := Text.takeWhile_run hdigits hends
    obtain ⟨c, digits, rfl⟩ := List.exists_cons_of_ne_nil hne
    have hfirst : ('.' :: (c :: digits ++ rest)).takeWhile isDecimalDigit = [] := rfl
    have hmore : ('.' :: (c :: digits ++ rest)).dropWhile isDecimalDigit
        = '.' :: (c :: digits ++ rest) := rfl
    rw [List.cons_append, readNumber, hfirst, hmore]
    simp only [htake, hdrop]

theorem eq_of_readNumber (h : readNumber text = some (number, rest)) :
    text = number ++ rest ∧ IsNumber number := by
  have hparts (text : List Char) :
      text.takeWhile isDecimalDigit ++ text.dropWhile isDecimalDigit = text :=
    List.takeWhile_append_dropWhile
  have hdigits (text : List Char) : ∀ c ∈ text.takeWhile isDecimalDigit, isDecimalDigit c = true :=
    fun _ hc => List.mem_takeWhile_imp hc
  have htext := hparts text
  rw [readNumber] at h
  split at h
  · rename_i more hnone hpoint
    split at h
    · cases h
    · rename_i hsome
      cases h
      refine ⟨?_, .fraction hsome (hdigits more)⟩
      rw [List.cons_append, hparts more, ← htext, hnone, hpoint, List.nil_append]
  · cases h
  · rename_i more hpoint hsome
    cases h
    refine ⟨?_, .pointed hsome (hdigits text) (hdigits more)⟩
    rw [List.append_assoc, List.cons_append, hparts more, ← hpoint, htext]
  · rename_i hsome _ _
    cases h
    exact ⟨htext.symm, .whole hsome (hdigits text)⟩

end Numbers

section Rows

/-- Components one after the other. -/
def row (components : List Component) : List Char := components.flatMap Component.text

variable {fuel : Nat} {text : List Char} {components : List Component}

@[simp] theorem row_nil : row [] = [] := rfl

theorem row_cons (c : Component) (components : List Component) :
    row (c :: components) = c.number ++ (c.unit.spelling ++ row components) :=
  List.append_assoc ..

theorem head?_row (h : ∀ c ∈ components, IsNumber c.number) :
    ∀ c ∈ (row components).head?, isDecimalDigit c = true ∨ c = '.' := by
  cases components with
  | nil => simp
  | cons first components =>
    obtain ⟨c, more, hnumber, hc⟩ := (h first List.mem_cons_self).exists_cons
    rw [row_cons, hnumber]
    rintro _ ⟨⟩
    exact hc

theorem readComponents_succ (hne : text ≠ []) : readComponents (fuel + 1) text =
    (readNumber text).bind fun (number, rest) =>
      (TimeUnit.read rest).bind fun (unit, rest) =>
        (readComponents fuel rest).map (⟨number, unit⟩ :: ·) := by
  obtain ⟨c, text, rfl⟩ := List.exists_cons_of_ne_nil hne
  rfl

/-- Number and unit of the first component are the ones that are read. -/
theorem readComponents_cons {c : Component} (hc : IsNumber c.number)
    (h : ∀ c ∈ components, IsNumber c.number) :
    readComponents (fuel + 1) (row (c :: components))
      = (readComponents fuel (row components)).map (c :: ·) := by
  obtain ⟨letter, letters, hunit, hdigit, hpoint⟩ := c.unit.exists_spelling_cons
  have hnumber : readNumber (row (c :: components))
      = some (c.number, c.unit.spelling ++ row components) := by
    rw [row_cons]
    refine readNumber_append hc ?_
    rw [hunit]
    rintro _ ⟨⟩
    exact ⟨hdigit, hpoint⟩
  have hread : TimeUnit.read (c.unit.spelling ++ row components)
      = some (c.unit, row components) := by
    refine TimeUnit.read_spelling c.unit ?_
    rintro _ hs rfl
    obtain hs | hs := head?_row h 's' hs
    · exact absurd hs (by decide)
    · exact absurd hs (by decide)
  have hne : row (c :: components) ≠ [] := by
    rw [row_cons, hunit]
    simp
  rw [readComponents_succ hne, hnumber]
  dsimp only [Option.bind_some]
  rw [hread]
  rfl

/-- Components are read as they are written, if each of them may take one step. -/
theorem readComponents_row (h : ∀ c ∈ components, IsNumber c.number)
    (hfuel : (row components).length ≤ fuel) :
    readComponents fuel (row components) = some components := by
  induction components generalizing fuel with
  | nil => cases fuel <;> rfl
  | cons c components ih =>
    obtain ⟨hc, hcomponents⟩ := List.forall_mem_cons.mp h
    obtain ⟨letter, letters, hunit, -⟩ := c.unit.exists_spelling_cons
    rw [row_cons, hunit] at hfuel
    simp only [List.length_append, List.length_cons] at hfuel
    obtain ⟨fuel, rfl⟩ := Nat.exists_eq_succ_of_ne_zero (n := fuel) (by omega)
    rw [readComponents_cons hc hcomponents, ih hcomponents (by omega)]
    rfl

theorem eq_of_readComponents (h : readComponents fuel text = some components) :
    text = row components ∧ ∀ c ∈ components, IsNumber c.number := by
  induction fuel generalizing text components with
  | zero =>
    cases text with
    | nil =>
      cases h
      exact ⟨rfl, by simp⟩
    | cons c text => cases h
  | succ fuel ih =>
    by_cases hne : text = []
    · subst hne
      cases h
      exact ⟨rfl, by simp⟩
    · rw [readComponents_succ hne] at h
      obtain ⟨⟨number, rest⟩, hnumber, h⟩ := Option.bind_eq_some_iff.mp h
      obtain ⟨⟨unit, after⟩, hunit, h⟩ := Option.bind_eq_some_iff.mp h
      obtain ⟨later, hlater, rfl⟩ := Option.map_eq_some_iff.mp h
      obtain ⟨rfl, hproper⟩ := eq_of_readNumber hnumber
      obtain rfl := TimeUnit.eq_of_read hunit
      obtain ⟨rfl, hcomponents⟩ := ih hlater
      exact ⟨(row_cons ⟨number, unit⟩ later).symm, List.forall_mem_cons.mpr ⟨hproper, hcomponents⟩⟩

/-- There is one way to take a row of components apart. -/
theorem row_injective {others : List Component} (h : ∀ c ∈ components, IsNumber c.number)
    (hothers : ∀ c ∈ others, IsNumber c.number) (heq : row components = row others) :
    components = others := by
  have hread := readComponents_row h (Nat.le_refl _)
  rw [heq, readComponents_row hothers (Nat.le_refl _)] at hread
  exact (Option.some.inj hread).symm

end Rows

section Spelling

/-- An optional sign, and whether it is a minus. -/
inductive IsSign : Bool → List Char → Prop where
  | none : IsSign false []
  | plus : IsSign false ['+']
  | minus : IsSign true ['-']

/-- The texts of a duration: after an optional sign a lone zero, or components. -/
inductive Spells : List Char → Duration → Prop where
  | zero {negative : Bool} {sign : List Char} (hsign : IsSign negative sign) :
    Spells (sign ++ ['0']) zero
  | sum {negative : Bool} {sign : List Char} {components : List Component}
    (hsign : IsSign negative sign) (hne : components ≠ [])
    (hnumbers : ∀ c ∈ components, IsNumber c.number) :
    Spells (sign ++ row components) (sum negative components)

variable {negative : Bool} {sign body text value : List Char} {duration : Duration}

theorem exists_sign (text : List Char) : ∃ negative sign body,
    IsSign negative sign ∧ text = sign ++ body ∧ Text.splitSign text = (negative, body) := by
  unfold Text.splitSign
  split
  · exact ⟨true, ['-'], _, .minus, rfl, rfl⟩
  · exact ⟨false, ['+'], _, .plus, rfl, rfl⟩
  · exact ⟨false, [], text, .none, rfl, rfl⟩

theorem splitSign_append (hsign : IsSign negative sign)
    (hbody : ∀ c ∈ body.head?, isDecimalDigit c = true ∨ c = '.') :
    Text.splitSign (sign ++ body) = (negative, body) := by
  cases hsign with
  | none =>
    unfold Text.splitSign
    rw [List.nil_append]
    split
    · exact absurd (hbody '-' rfl) (by decide)
    · exact absurd (hbody '+' rfl) (by decide)
    · rfl
  | plus => rfl
  | minus => rfl

/-- A row is longer than a lone zero. -/
theorem two_le_length_row (hne : components ≠ []) (h : ∀ c ∈ components, IsNumber c.number) :
    2 ≤ (row components).length := by
  obtain ⟨first, components, rfl⟩ := List.exists_cons_of_ne_nil hne
  obtain ⟨c, more, hnumber, -⟩ := (h first List.mem_cons_self).exists_cons
  obtain ⟨letter, letters, hunit, -⟩ := first.unit.exists_spelling_cons
  rw [row_cons, hnumber, hunit]
  simp only [List.length_append, List.length_cons]
  omega

theorem readChars_of_spells (h : Spells (Text.trim value) duration) :
    readChars value = .read duration := by
  unfold readChars
  generalize Text.trim value = text at h
  cases h with
  | zero hsign => cases hsign <;> rfl
  | sum hsign hne hnumbers =>
    have hlength := two_le_length_row hne hnumbers
    have hsplit := splitSign_append hsign (head?_row hnumbers)
    have hread := readComponents_row hnumbers (Nat.le_refl _)
    -- A row of components is too long to be taken for nothing or for a lone zero.
    split
    · rename_i hnil
      rw [(List.append_eq_nil_iff.mp hnil).2] at hlength
      cases hlength
    · rw [hsplit]
      split
      · rename_i hzero
        rw [(Prod.mk.inj hzero).2] at hlength
        exact absurd hlength (by decide)
      · rename_i hnil
        rw [(Prod.mk.inj hnil).2] at hlength
        cases hlength
      · rename_i hparts
        obtain ⟨rfl, rfl⟩ := Prod.mk.inj hparts
        rw [hread]

theorem spells_of_readChars (h : readChars value = .read duration) :
    Spells (Text.trim value) duration := by
  unfold readChars at h
  generalize Text.trim value = text at h
  obtain ⟨negative, sign, body, hsign, rfl, hsplit⟩ := exists_sign text
  split at h
  · cases h
  · rw [hsplit] at h
    split at h
    · rename_i hzero
      cases h
      rw [(Prod.mk.inj hzero).2]
      exact .zero hsign
    · cases h
    · rename_i hne hparts
      obtain ⟨rfl, rfl⟩ := Prod.mk.inj hparts
      split at h
      · rename_i components hread
        cases h
        obtain ⟨rfl, hnumbers⟩ := eq_of_readComponents hread
        refine .sum hsign ?_ hnumbers
        rintro rfl
        exact hne rfl
      · cases h

theorem readChars_eq_read_iff :
    readChars value = .read duration ↔ Spells (Text.trim value) duration :=
  ⟨spells_of_readChars, readChars_of_spells⟩

example : readChars " -1.5h30m5ms".toList = .read (.sum true
    [⟨"1.5".toList, .hour⟩, ⟨"30".toList, .minute⟩, ⟨"5".toList, .millisecond⟩]) := by
  decide +kernel

theorem readChars_eq_unset_iff : readChars value = .unset ↔ Text.trim value = [] := by
  unfold readChars
  split
  · rename_i hnil
    simp [hnil]
  · rename_i hne
    refine iff_of_false ?_ hne
    split
    · simp
    · simp
    · split <;> simp

/-- Parsing a timeout comes to nothing exactly where only blanks are given, to a duration exactly
where the rest of the text spells it, and to the one error everywhere else. The components of a
duration are the only ones that give its text. -/
theorem parse_outcome (value : String) :
    (parse value = .ok none ↔ Text.trim value.toList = []) ∧
    (∀ duration, parse value = .ok (some duration) ↔ Spells (Text.trim value.toList) duration) ∧
    (∀ error, parse value = .error error ↔ error = .invalid (.duration value) ∧
      Text.trim value.toList ≠ [] ∧ ∀ duration, ¬ Spells (Text.trim value.toList) duration) ∧
    ∀ components others : List Component, (∀ c ∈ components, IsNumber c.number) →
      (∀ c ∈ others, IsNumber c.number) → row components = row others → components = others := by
  refine ⟨?_, ?_, ?_, fun _ _ => row_injective⟩
  · rw [← readChars_eq_unset_iff, parse]
    cases readChars value.toList <;> simp
  · intro duration
    rw [← readChars_eq_read_iff, parse]
    cases readChars value.toList <;> simp
  · intro error
    simp only [ne_eq, ← readChars_eq_unset_iff, ← readChars_eq_read_iff, parse]
    cases readChars value.toList <;> simp [eq_comm]

end Spelling

end Duration
end ContextConfig
