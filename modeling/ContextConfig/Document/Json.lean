import ContextConfig.Document
import ContextConfig.Json.Basic
/-!
# Documents and JSON

Objects are mappings, and numbers and arrays are values that no configuration uses. A number is an
integer exactly when it is written with digits and a sign alone.
-/

namespace ContextConfig

/-- Whether a number is written as an integer. -/
def Json.isIntegerLiteral (literal : String) : Bool :=
  literal.toList.all fun c => c.isDigit || c = '-'

mutual

/-- The document that a JSON value describes. -/
def Json.toDocument : Json → Document
  | .null => .null
  | .bool value => .bool value
  | .number literal => .other (if isIntegerLiteral literal then .integer else .float)
  | .string text => .text text
  | .array _ => .other .list
  | .object fields => .mapping (fieldsToDocument fields)

def Json.fieldsToDocument : List (String × Json) → List (Key × Document)
  | [] => []
  | (name, value) :: fields => (.text name, toDocument value) :: fieldsToDocument fields

end

mutual

/-- A document as a JSON value. What no configuration uses is written as null. -/
def Document.toJson : Document → Json
  | .null => .null
  | .bool value => .bool value
  | .text value => .string value
  | .mapping entries => .object (entriesToJson entries)
  | .other _ => .null

def Document.entriesToJson : List (Key × Document) → List (String × Json)
  | [] => []
  | (.text name, value) :: entries => (name, toJson value) :: entriesToJson entries
  | (.shown name, value) :: entries => (name, toJson value) :: entriesToJson entries
  | (.unshowable, value) :: entries => ("", toJson value) :: entriesToJson entries

end

end ContextConfig
