import ContextConfig.Proofs.Pattern
import ContextConfig.Proofs.Yaml.Readers
import ContextConfig.Yaml.Value
/-!
# Scalars that do not fault

A plain scalar without a tag of its own has a value, and one that can be shown, unless it has the
form of a point in time that does not exist. Rules overlook a line feed at the end of a text; a
plain scalar ends with a word, so that the patterns of the rules describe all of it. Under a tag of
its own a text has a value or is malformed, unless the tag is for truth values, numbers or times.
-/

namespace ContextConfig

namespace Yaml

open Text.Pattern

/-- A text that has the form of a point in time, although there is no such time. -/
def IsImpossible (text : List Char) : Prop :=
  Rule.timestamp.applies text = true ∧ ∀ t, Value.readTimestamp text ≠ .ok t

/-- The tags under which a text may ask for a value that does not exist. -/
def Tag.isUncertain : Tag → Bool
  | bool | int | float | timestamp => true
  | _ => false

/-- Whether a complete tag leaves it open if a text has a value. The tag `!` has a text judged that is
in quotes or ends with a line feed. -/
def IsUncertainUri (uri : List Char) : Prop := uri = ['!'] ∨ (Tag.ofUri uri).isUncertain = true

section Tags

variable {text : List Char}

theorem Rule.matches_of_applies {r : Rule} (h : r.applies text = true)
    (hlast : text.getLast? ≠ some '\n') : Matches r.pattern text := by
  rw [Rule.applies, Bool.and_eq_true, Bool.or_eq_true, Bool.and_eq_true, decide_eq_true_eq] at h
  obtain ⟨-, h | ⟨hbreak, -⟩⟩ := h
  · exact accepts_iff.mp h
  · exact absurd hbreak hlast

/-- A word of the rule for truth values has one. -/
theorem exists_readBool (h : Matches Rule.bool.pattern text) :
    ∃ value, Value.readBool text = .ok value := by
  obtain ⟨word, hword, rfl⟩ := matches_words h
  have hread : ∀ word ∈ ["yes", "Yes", "YES", "no", "No", "NO", "true", "True", "TRUE", "false",
      "False", "FALSE", "on", "On", "ON", "off", "Off", "OFF"],
      Value.readBool word.toList = .ok true ∨ Value.readBool word.toList = .ok false := by
    decide +kernel
  obtain hread | hread := hread word hword
  · exact ⟨_, hread⟩
  · exact ⟨_, hread⟩

/-- The value of a plain text exists and can be shown. -/
theorem regular_ofText (hlast : text.getLast? ≠ some '\n') (hpossible : ¬ IsImpossible text) :
    Regular (fun value => value.key ≠ .unshowable)
      (Value.ofText (implicitTag textualRules text) text) := by
  unfold implicitTag
  cases hfind : textualRules.find? (·.applies text) with
  | none => exact .ok nofun
  | some r =>
    have happlies : r.applies text = true := by simpa using List.find?_some hfind
    have hmem := List.mem_of_find?_eq_some hfind
    simp only [textualRules, standardRules, List.mem_filter, List.mem_cons, List.not_mem_nil,
      or_false] at hmem
    rw [Option.map_some, Option.getD_some]
    obtain ⟨rfl | rfl | rfl | rfl | rfl | rfl | rfl | rfl, hnumeric⟩ := hmem
    · obtain ⟨value, hread⟩ := exists_readBool (Rule.matches_of_applies happlies hlast)
      simp only [Rule.bool, Value.ofText, hread, Except.map]
      cases value <;> exact .ok nofun
    · cases hnumeric
    · cases hnumeric
    · exact .malformed
    · exact .ok nofun
    · obtain ⟨t, hread⟩ : ∃ t, Value.readTimestamp text = .ok t := by
        by_contra hnone
        exact hpossible ⟨happlies, not_exists.mp hnone⟩
      simp only [Rule.timestamp, Value.ofText, hread, Except.map]
      exact .ok nofun
    · exact .malformed
    · exact .malformed

/-- Under most tags a text has a value that can be shown, or is malformed. -/
theorem Tag.regular_ofText {tag : Tag} (h : tag.isUncertain = false) (text : List Char) :
    Regular (fun value => value.key ≠ .unshowable) (Value.ofText tag text) := by
  cases tag with
  | null => exact .ok nofun
  | str => exact .ok nofun
  | binary =>
    rw [Value.ofText, Value.readBytes]
    split
    · split
      · exact .ok nofun
      · exact .malformed
    · exact .malformed
  | bool => cases h
  | int => cases h
  | float => cases h
  | timestamp => cases h
  | omap => exact .malformed
  | pairs => exact .malformed
  | set => exact .malformed
  | seq => exact .malformed
  | map => exact .malformed
  | merge => exact .malformed
  | value => exact .malformed
  | unknown => exact .malformed

end Tags

namespace Plain

theorem not_blank_of_mem_word {flow : Bool} {rest : List Char} {x : Char} (h : x ∈ word flow rest) :
    isBlankOrEnd x = false := by
  induction rest with
  | nil => cases h
  | cons y rest ih =>
    rw [word] at h
    split at h
    · cases h
    · rename_i hblank
      split at h
      · cases h
      · split at h
        · cases h
        · obtain rfl | h := List.mem_cons.mp h
          · simpa using hblank
          · exact ih h

theorem length_word_le (flow : Bool) (rest : List Char) : (word flow rest).length ≤ rest.length := by
  induction rest with
  | nil => exact Nat.le_refl _
  | cons x rest ih =>
    rw [word]
    split
    · exact Nat.zero_le _
    · split
      · exact Nat.zero_le _
      · split
        · exact Nat.zero_le _
        · exact Nat.succ_le_succ ih

/-- A plain scalar is not empty and ends with a word. -/
theorem getLast_read (flow : Bool) (indent : Int) {c : Cursor} {fuel : Nat} (hfuel : c.rest.length < fuel)
    (hword : word flow c.rest ≠ []) :
    ∃ x, (read flow indent fuel c).1.getLast? = some x ∧ isBlankOrEnd x = false := by
  induction fuel generalizing c with
  | zero => exact absurd hfuel (Nat.not_lt_zero _)
  | succ fuel ih =>
    have hlast : ∃ x, (word flow c.rest).getLast? = some x ∧ isBlankOrEnd x = false :=
      ⟨_, List.getLast?_eq_some_getLast hword, not_blank_of_mem_word (List.getLast_mem hword)⟩
    rw [read]
    split
    · rename_i hnil
      exact absurd hnil hword
    have hplace : Within ((c.skip (word flow c.rest).length)).rest
        (space (c.skip (word flow c.rest).length)).2.1 := Within.plainSpace (List.suffix_refl _)
    generalize space (c.skip (word flow c.rest).length) = spaced at hplace
    obtain ⟨gap, c', broke⟩ := spaced
    dsimp only at hplace ⊢
    split
    · exact hlast
    split
    · exact hlast
    rename_i hnext
    have hshorter : c'.rest.length < fuel := by
      have hlength := List.IsSuffix.length_le hplace
      have hpos := List.length_pos_iff.mpr hword
      rw [Cursor.rest_skip, List.length_drop] at hlength
      have hle := length_word_le flow c.rest
      omega
    obtain ⟨x, hx, hblank⟩ := ih hshorter hnext
    exact ⟨x, by rw [List.getLast?_append, hx, Option.some_or], hblank⟩

theorem not_break_read (flow : Bool) (indent : Int) (c : Cursor) :
    (read flow indent (c.rest.length + 1) c).1.getLast? ≠ some '\n' := by
  by_cases hword : word flow c.rest = []
  · simp [read, hword]
  · obtain ⟨x, hx, hblank⟩ := getLast_read flow indent (Nat.lt_succ_self _) hword
    rw [hx]
    intro hbreak
    obtain rfl := Option.some.inj hbreak
    cases hblank

end Plain

end Yaml
end ContextConfig
