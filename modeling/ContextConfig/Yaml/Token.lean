/-!
# Tokens

A text is read as a row of tokens. The tokens that open and close block collections and the one
that marks a simple key have no spelling; they come from indentation and from a later colon.
-/

namespace ContextConfig.Yaml

/-- A tag as it is written: a suffix under a handle, or a complete one. -/
structure TagName where
  handle : Option (List Char)
  suffix : List Char
  deriving DecidableEq, Repr

inductive Token where
  | streamEnd
  | versionDirective (major : Nat)
  | tagDirective (handle uri : List Char)
  | otherDirective
  | documentStart
  | documentEnd
  | blockSequenceStart
  | blockMappingStart
  | blockEnd
  | flowSequenceStart
  | flowSequenceEnd
  | flowMappingStart
  | flowMappingEnd
  | key
  | value
  | blockEntry
  | flowEntry
  | alias (name : List Char)
  | anchor (name : List Char)
  | tag (name : TagName)
  | scalar (text : List Char) (plain : Bool)
  deriving DecidableEq, Repr

end ContextConfig.Yaml
