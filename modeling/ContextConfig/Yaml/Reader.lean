import ContextConfig.Encoding
import ContextConfig.Yaml.Construction
import ContextConfig.Yaml.Token.Lexer
/-!
# Reading YAML

Bytes become characters, characters tokens, tokens a graph of nodes and the nodes a document. The
encoding is UTF-8 unless a byte order mark says UTF-16. A document that is empty or null is an
empty mapping.
-/

namespace ContextConfig.Yaml

/-- The encoding that the first bytes announce. -/
def detect : List UInt8 → Encoding
  | 0xFF :: 0xFE :: _ => .utf16 .little
  | 0xFE :: 0xFF :: _ => .utf16 .big
  | _ => .utf8

/-- The characters of a text, all of which have to be allowed. -/
def decodeBytes (bytes : List UInt8) : Except Stop (List Char) :=
  match (detect bytes).read .strict 0 bytes with
  | .error _ => .error .malformed
  | .ok text => if text.all isAllowed then .ok text else .error .malformed

/-- How far down the mappings of a configuration document go. -/
def documentDepth : Nat := 5

/-- The document that a row of tokens describes. -/
def readTokens (room : Nat) (tokens : List Token) (ending : Option Stop) : Except Stop Document := do
  let graph ← Graph.ofTokens room tokens ending
  match graph.root with
  | none => return .mapping []
  | some root =>
    let nodes ← Graph.visited room graph.nodes root
    match Graph.document nodes documentDepth root with
    | .null => return .mapping []
    | document => return document

/-- The document of a text, with room for so many calls inside one another. -/
def readWithin (room : Nat) (text : List Char) : Except Stop Document :=
  let (tokens, ending) := Token.ofText text
  readTokens room tokens ending

/-- The document of a text. -/
def readText (text : List Char) : Except Stop Document := readWithin maxCalls text

/-- The document of a file. -/
def ofBytes (bytes : List UInt8) : Except Stop Document := decodeBytes bytes >>= readText

end ContextConfig.Yaml
