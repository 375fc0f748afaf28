import ContextConfig.Codec
import ContextConfig.Proofs.Document
/-!
# Decoding

What bytes decode to is what the configuration of their document is. A format therefore decodes
its own output as soon as parsing that output gives the document back.
-/

namespace ContextConfig.Format

theorem distinct_vocabulary (format : Format) : format.vocabulary.Distinct := by
  cases format with
  | json => exact Vocabulary.distinct_json
  | yaml => exact Vocabulary.distinct_yaml

/-- The value of decoding, without its log. -/
theorem decode_value (format : Format) (path : String) (payload : List UInt8) :
    (format.decode path payload).value =
      match (format.parse path payload).value with
      | .error error => .error error
      | .ok document => format.interpret path document := by
  rw [decode, Logged.bind_value]
  cases (format.parse path payload).value with
  | error error => rfl
  | ok document =>
    dsimp only
    cases format.interpret path document <;> rfl

theorem interpret_ofConfiguration (format : Format) (path : String) (omitEmpty : Bool)
    (c : Configuration) :
    format.interpret path (.ofConfiguration format.vocabulary omitEmpty c) = .ok c := by
  rw [interpret, Document.configuration_ofConfiguration format.distinct_vocabulary]

/-- Parsing alone decides whether the document of a configuration is decoded. -/
theorem decode_of_parse {format : Format} {path : String} {payload : List UInt8}
    {omitEmpty : Bool} {c : Configuration}
    (h : (format.parse path payload).value
      = .ok (.ofConfiguration format.vocabulary omitEmpty c)) :
    (format.decode path payload).value = .ok c := by
  rw [decode_value, h]
  exact format.interpret_ofConfiguration path omitEmpty c

/-- The fault that an error of decoding stands for, if it does. -/
def faultOf : DecodeError → Option Fault
  | .fault fault => some fault
  | _ => none

/-- The path of the bytes shows in messages alone. -/
theorem decode_mapError (format : Format) (path path' : String) (payload : List UInt8) :
    (format.decode path payload).value.mapError faultOf
      = (format.decode path' payload).value.mapError faultOf := by
  have hinterpret : ∀ document, (format.interpret path document).mapError faultOf
      = (format.interpret path' document).mapError faultOf := by
    intro document
    unfold interpret
    split <;> rfl
  rw [decode_value, decode_value]
  cases format with
  | json =>
    simp only [parse]
    cases hread : Json.ofBytes payload with
    | ok value => exact hinterpret _
    | error error => cases error <;> rfl
  | yaml =>
    simp only [parse]
    cases hread : Yaml.ofBytes payload with
    | ok document => exact hinterpret _
    | error stop => cases stop <;> rfl

end ContextConfig.Format
