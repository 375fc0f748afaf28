/-!
# Documents

A document is what a configuration file says, whatever its format: texts, truth values and
mappings, and values of other kinds, which no configuration uses. A missing field and a null one
are the same.
-/

namespace ContextConfig

/-- The kinds of values that no configuration uses. -/
inductive Kind where
  | integer
  | float
  | list
  | date
  | datetime
  | bytes
  | set
  deriving DecidableEq, Repr

/-- The name of a field. A name that is no text is known by the text that shows it, unless it is
too long to be shown. -/
inductive Key where
  | text (name : String)
  | shown (name : String)
  | unshowable
  deriving DecidableEq, Repr

inductive Document where
  | null
  | bool (value : Bool)
  | text (value : String)
  | mapping (entries : List (Key × Document))
  | other (kind : Kind)
  deriving Repr, Inhabited

namespace Document

/-- The name of a value's kind in messages. -/
def kindName : Document → String
  | null => "NoneType"
  | bool _ => "bool"
  | text _ => "str"
  | mapping _ => "dict"
  | other .integer => "int"
  | other .float => "float"
  | other .list => "list"
  | other .date => "date"
  | other .datetime => "datetime"
  | other .bytes => "bytes"
  | other .set => "set"

def isNull : Document → Bool
  | null => true
  | _ => false

/-- The first value under a name. -/
def find (name : String) : List (Key × Document) → Option Document
  | [] => none
  | (key, value) :: rest => if key = .text name then some value else find name rest

/-- The value under a name; null where there is none. -/
def field (name : String) (entries : List (Key × Document)) : Document :=
  (find name entries).getD null

/-- A mapping under textual names. -/
def record (fields : List (String × Document)) : Document :=
  mapping (fields.map fun entry => (.text entry.1, entry.2))

@[simp] theorem find_cons_self (name : String) (value : Document) (rest : List (Key × Document)) :
    find name ((.text name, value) :: rest) = some value := by simp [find]

theorem find_cons_ne {name : String} {key : Key} (h : key ≠ .text name) (value : Document)
    (rest : List (Key × Document)) : find name ((key, value) :: rest) = find name rest := by
  simp [find, h]

end Document
end ContextConfig
