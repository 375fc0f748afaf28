import ContextConfig.Proofs.Yaml.Codec
/-!
# Numbers without quotes

A plain scalar that is a number under the whole table of rules keeps its text, whatever it is used
for and wherever it stands in a file: reading goes on as if it were in quotes. In particular the
file of a configuration may leave all its numbers without quotes.
-/

namespace ContextConfig

open Document (ofConfiguration)

namespace Yaml

/-- The hand that leaves all numbers bare. -/
def Hand.numbers : Hand where
  leaves text := isNumber text && !text.contains '\n'
  opens h := by
    rw [Bool.and_eq_true, Bool.not_eq_true', List.contains_eq_mem, decide_eq_false_iff_not] at h
    exact opens_of_isNumber h.1 h.2
  isWord h := by
    rw [Bool.and_eq_true, Bool.not_eq_true', List.contains_eq_mem, decide_eq_false_iff_not] at h
    exact isWord_of_isNumber h.1 h.2
  textual {text} h := by
    rw [Bool.and_eq_true] at h
    exact (implicitTag_textualRules text).trans (if_pos h.1)

theorem leaves_numbers {text : List Char} :
    Hand.numbers.leaves text = true ↔ isNumber text = true ∧ '\n' ∉ text := by
  simp [Hand.numbers]

/-- A number without a tag of its own stands for its text. -/
theorem ofText_isNumber {text : List Char} (h : isNumber text = true) (plain : Bool) :
    Value.ofText (Build.scalarTag text plain none) text = .ok (.text text) := by
  have htag : implicitTag textualRules text = .str :=
    (implicitTag_textualRules text).trans (if_pos h)
  have hscalar : Build.scalarTag text plain none = .str := by
    cases plain <;> simp [Build.scalarTag, htag]
  rw [hscalar]
  rfl

/-- A file is read as if all numbers in it were in quotes. -/
theorem ofBytes_quoted (payload : List UInt8) : ofBytes payload
    = decodeBytes payload >>= fun text =>
      readTokens maxCalls ((Token.ofText text).1.map Token.quoted) (Token.ofText text).2 :=
  bind_congr (readWithin_quoted maxCalls)

end Yaml

namespace Format

open Yaml (Hand Token Value Tag isNumber implicitTag standardRules textualRules)

/-- Without the rules for numbers a number is a text, and all else has the tag that the whole table
gives it. So a number without a tag of its own stands for just its text, as a key and as a value, and
every file is read as if all numbers in it were in quotes. In particular the file of a configuration
in which each number is written as it is, without quotes, is decoded to that configuration, exactly
if the other names of contexts fit. -/
theorem plainNumbers_keepText :
    (∀ text, implicitTag textualRules text
      = if (implicitTag standardRules text).isNumeric then .str
        else implicitTag standardRules text) ∧
    (∀ text, isNumber text = true → ∀ plain,
      ∃ value, Value.ofText (Yaml.Build.scalarTag text plain none) text = .ok value ∧
        value.key = .text (String.ofList text) ∧ value.document = .text (String.ofList text)) ∧
    (∀ payload, Yaml.ofBytes payload
      = Yaml.decodeBytes payload >>= fun text =>
        Yaml.readTokens maxCalls ((Token.ofText text).1.map Token.quoted) (Token.ofText text).2) ∧
    (∀ text, isNumber text = true → '\n' ∉ text → ∀ simpleKey indent column,
      Hand.numbers.scalar simpleKey indent column text = text) ∧
    ∀ path omitEmpty c,
      (yaml.decode path (Encoding.bytes (Hand.numbers.write
          (ofConfiguration .yaml omitEmpty c)))).value
        = if ∀ name ∈ c.contexts.names, Hand.numbers.leaves name.toList ∨ Yaml.fits (.text name) then
            .ok c
          else .error (.yaml path) := by
  refine ⟨Yaml.implicitTag_textualRules, fun text h plain => ?_, Yaml.ofBytes_quoted, ?_, ?_⟩
  · exact ⟨_, Yaml.ofText_isNumber h plain, rfl, rfl⟩
  · intro text h hline simpleKey indent column
    exact if_pos (Yaml.leaves_numbers.mpr ⟨h, hline⟩)
  · intro path omitEmpty c
    have hfits : (∀ name ∈ c.contexts.names, Hand.numbers.leaves name.toList ∨ Yaml.fits (.text name))
        ↔ ∀ name ∈ c.contexts.names, Yaml.fits (.text name) :=
      forall₂_congr fun name _ => or_iff_right_of_imp fun h => Yaml.Lexer.fits_of_leaves h
    rw [decode_yaml_write, if_congr hfits rfl rfl]

/-- Numbers come in many forms. -/
example : ∀ text ∈ ["0042", "-7", "+1", "1_000", "0x1F", "017", "0b1", "6.", "1.5e+3", "1:30", "-.inf"],
    isNumber text.toList = true := by decide +kernel

/-- A name, the current context and a secret that are numbers. -/
example : String.ofList (Hand.numbers.write (ofConfiguration .yaml true
      ⟨"7", .ofList [("7", { host := "lenses:8080", token := "0042" })]⟩))
    = "CurrentContext: 7\nContexts:\n  7:\n    Host: lenses:8080\n    Token: 0042\n" := by
  decide +kernel

end Format
end ContextConfig
