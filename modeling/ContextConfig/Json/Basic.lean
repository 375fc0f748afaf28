/-!
# JSON values

The values of JSON documents, of log entries and of printed reports. A number is kept as it is
written: nothing here computes with one.
-/

namespace ContextConfig

inductive Json where
  | null
  | bool (value : Bool)
  | number (literal : String)
  | string (text : String)
  | array (items : List Json)
  | object (fields : List (String × Json))
  deriving Repr, Inhabited

namespace Json

/-- A text that may be missing. -/
def ofText? : Option String → Json
  | some text => string text
  | none => null

def ofTexts (texts : List String) : Json := array (texts.map string)

def ofNat (n : Nat) : Json := number (toString n)

/-- Assign a field: in place, or at the end when its name is new. -/
def setField (name : String) (value : Json) : List (String × Json) → List (String × Json)
  | [] => [(name, value)]
  | (key, old) :: rest =>
    if key = name then (key, value) :: rest else (key, old) :: setField name value rest

/-- Assign the fields of a list from left to right. -/
def setFields (fields : List (String × Json)) (later : List (String × Json)) :
    List (String × Json) :=
  later.foldl (fun fields field => setField field.1 field.2 fields) fields

/-- Whether a number as written differs from zero: its digits before the exponent tell. -/
def isNonzeroLiteral (literal : String) : Bool :=
  (literal.toList.takeWhile fun c => c ≠ 'e' && c ≠ 'E').any fun c => '1' ≤ c && c ≤ '9'

/-- Whether a value carries something: not null, false, zero, or without contents. -/
def isTruthy : Json → Bool
  | null => false
  | bool value => value
  | number literal => isNonzeroLiteral literal
  | string text => text ≠ ""
  | array items => !items.isEmpty
  | object fields => !fields.isEmpty

end Json
end ContextConfig
