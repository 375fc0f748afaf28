import ContextConfig.Yaml.Stop
import ContextConfig.Yaml.Tag
import ContextConfig.Yaml.Token
/-!
# From tokens to nodes

The nodes of a document form a graph: an alias is another way to a node that was anchored before,
and a collection may contain itself. Nodes are numbered in the order in which they start, and a
collection holds the numbers of its parts.

The readers below follow the grammar of tokens. A missing key, value or item is an empty scalar.
Where the tokens run out reading stops for the reason that there are no more. It also stops where
collections lie in one another deeper than the stack goes.
-/

namespace ContextConfig.Yaml

abbrev NodeId := Nat

inductive Node where
  | scalar (tag : Tag) (text : List Char)
  | sequence (tag : Tag) (items : List NodeId)
  | mapping (tag : Tag) (entries : List (NodeId × NodeId))
  deriving DecidableEq, Repr

/-- The nodes of a document and its root; a text without a document has none. -/
structure Graph where
  nodes : Array Node
  root : Option NodeId
  deriving Repr

/-- What is known while nodes are read. -/
structure Builder where
  /-- The calls that can still be made inside those in progress. -/
  room : Nat
  /-- The tokens that are left. -/
  tokens : List Token
  /-- Why there are no more tokens. -/
  ending : Stop := .malformed
  nodes : Array Node := #[]
  /-- The nodes that have a name. -/
  anchors : List (List Char × NodeId) := []
  /-- What the tag handles stand for. -/
  handles : List (List Char × List Char) := []

abbrev Build := StateT Builder (Except Stop)

namespace Build

def malformed {α : Type} : Build α := throw .malformed

/-- The next token, which stays. -/
def peek : Build Token := do
  let b ← get
  match b.tokens with
  | t :: _ => return t
  | [] => throw b.ending

/-- Pass over the next token. -/
def skip : Build Unit := modify fun b => { b with tokens := b.tokens.drop 1 }

def add (node : Node) : Build NodeId := do
  let b ← get
  set { b with nodes := b.nodes.push node }
  return b.nodes.size

def assign (id : NodeId) (node : Node) : Build Unit :=
  modify fun b => { b with nodes := b.nodes.setIfInBounds id node }

/-- An empty scalar. -/
def empty : Build NodeId := add (.scalar (implicitTag textualRules []) [])

/-- The anchor and the tag in front of a node, in either order. -/
def properties : Build (Option (List Char) × Option TagName) := do
  match ← peek with
  | .anchor name =>
    skip
    match ← peek with
    | .tag tag => skip; return (some name, some tag)
    | _ => return (some name, none)
  | .tag tag =>
    skip
    match ← peek with
    | .anchor name => skip; return (some name, some tag)
    | _ => return (none, some tag)
  | _ => return (none, none)

/-- A tag with its handle replaced by what it stands for. The tag `!` leaves the kind of value
open, as no tag does. -/
def completeTag : Option TagName → Build (Option (List Char))
  | none => return none
  | some ⟨none, suffix⟩ => return some suffix
  | some ⟨some handle, suffix⟩ => do
    match (← get).handles.find? (·.1 = handle) with
    | some (_, start) => return some (start ++ suffix)
    | none => malformed

def isOpen (tag : Option (List Char)) : Bool := tag = none || tag = some ['!']

/-- The tag of a collection. -/
def collectionTag (standard : Tag) (tag : Option (List Char)) : Tag :=
  if isOpen tag then standard else .ofUri (tag.getD [])

/-- The tag of a scalar. Only what is written plain, or under the tag `!`, is judged by its text. -/
def scalarTag (text : List Char) (plain : Bool) (tag : Option (List Char)) : Tag :=
  if tag = some ['!'] || tag = none && plain then implicitTag textualRules text
  else if tag = none then .str
  else .ofUri (tag.getD [])

/-- Give a node a name. A name can be given once. -/
def name (anchor : Option (List Char)) (id : NodeId) : Build Unit := do
  match anchor with
  | none => return ()
  | some name =>
    let b ← get
    if b.anchors.any (·.1 = name) then malformed
    else set { b with anchors := (name, id) :: b.anchors }

def aliased (name : List Char) : Build NodeId := do
  match (← get).anchors.find? (·.1 = name) with
  | some (_, id) => return id
  | none => malformed

/-- Where a block collection has no node: before the next key, value or end. -/
def endsBlockPart : Token → Bool
  | .key | .value | .blockEnd => true
  | _ => false

/-- The calls that a collection adds to those in progress: one for the node, one for its parts. -/
def callsPerLevel : Nat := 2

/-- Go into a collection. -/
def enter : Build Unit := do
  let b ← get
  if b.room < callsPerLevel then throw (.fault .tooNested)
  else set { b with room := b.room - callsPerLevel }

/-- Leave a collection. -/
def leave : Build Unit := modify fun b => { b with room := b.room + callsPerLevel }

/-- Read a collection: its number is known before its parts are. -/
def collection (anchor : Option (List Char)) (start : Node) (parts : Build Node) : Build NodeId := do
  enter
  let id ← add start
  name anchor id
  assign id (← parts)
  leave
  return id

mutual

/-- A node. Block collections are read where `block` allows them, and a sequence that is not
indented where `indentless` does. -/
def node : Nat → Bool → Bool → Build NodeId
  | 0, _, _ => malformed
  | fuel + 1, block, indentless => do
    match ← peek with
    | .alias name => skip; aliased name
    | _ =>
      let (anchor, tagName) ← properties
      let tag ← completeTag tagName
      let t ← peek
      match t, indentless, block with
      | .blockEntry, true, _ =>
        let tag := collectionTag .seq tag
        collection anchor (.sequence tag []) (.sequence tag <$> indentlessItems fuel)
      | .scalar text plain, _, _ =>
        skip
        let id ← add (.scalar (scalarTag text plain tag) text)
        name anchor id
        return id
      | .flowSequenceStart, _, _ =>
        skip
        let tag := collectionTag .seq tag
        collection anchor (.sequence tag []) (.sequence tag <$> flowItems fuel true)
      | .flowMappingStart, _, _ =>
        skip
        let tag := collectionTag .map tag
        collection anchor (.mapping tag []) (.mapping tag <$> flowEntries fuel true)
      | .blockSequenceStart, _, true =>
        skip
        let tag := collectionTag .seq tag
        collection anchor (.sequence tag []) (.sequence tag <$> blockItems fuel)
      | .blockMappingStart, _, true =>
        skip
        let tag := collectionTag .map tag
        collection anchor (.mapping tag []) (.mapping tag <$> blockEntries fuel)
      | _, _, _ =>
        if anchor = none && tag = none then malformed
        else
          let id ← add (.scalar (scalarTag [] true tag) [])
          name anchor id
          return id

/-- The items of an indented block sequence. -/
def blockItems : Nat → Build (List NodeId)
  | 0 => malformed
  | fuel + 1 => do
    match ← peek with
    | .blockEntry =>
      skip
      let item ← match ← peek with
        | .blockEntry | .blockEnd => empty
        | _ => node fuel true false
      return item :: (← blockItems fuel)
    | .blockEnd => skip; return []
    | _ => malformed

/-- The items of a block sequence that is indented like the mapping it is in. -/
def indentlessItems : Nat → Build (List NodeId)
  | 0 => malformed
  | fuel + 1 => do
    match ← peek with
    | .blockEntry =>
      skip
      let item ← match ← peek with
        | .blockEntry | .key | .value | .blockEnd => empty
        | _ => node fuel true false
      return item :: (← indentlessItems fuel)
    | _ => return []

/-- The entries of a block mapping. -/
def blockEntries : Nat → Build (List (NodeId × NodeId))
  | 0 => malformed
  | fuel + 1 => do
    match ← peek with
    | .key =>
      skip
      let key ← if endsBlockPart (← peek) then empty else node fuel true true
      let value ← match ← peek with
        | .value => do
          skip
          if endsBlockPart (← peek) then empty else node fuel true true
        | _ => empty
      return (key, value) :: (← blockEntries fuel)
    | .blockEnd => skip; return []
    | _ => malformed

/-- The comma in front of every part of a flow collection but the first. -/
def comma (first : Bool) : Build Unit := do
  if first then return ()
  else match ← peek with
    | .flowEntry => skip
    | _ => malformed

/-- The items of a flow sequence. A single pair among them is a mapping. -/
def flowItems : Nat → Bool → Build (List NodeId)
  | 0, _ => malformed
  | fuel + 1, first => do
    match ← peek with
    | .flowSequenceEnd => skip; return []
    | _ =>
      comma first
      match ← peek with
      | .flowSequenceEnd => skip; return []
      | .key =>
        let item ← collection none (.mapping .map []) (do
          skip
          let key ← match ← peek with
            | .value | .flowEntry | .flowSequenceEnd => empty
            | _ => node fuel false false
          let value ← match ← peek with
            | .value => do
              skip
              match ← peek with
              | .flowEntry | .flowSequenceEnd => empty
              | _ => node fuel false false
            | _ => empty
          return .mapping .map [(key, value)])
        return item :: (← flowItems fuel false)
      | _ =>
        let item ← node fuel false false
        return item :: (← flowItems fuel false)

/-- The entries of a flow mapping. -/
def flowEntries : Nat → Bool → Build (List (NodeId × NodeId))
  | 0, _ => malformed
  | fuel + 1, first => do
    match ← peek with
    | .flowMappingEnd => skip; return []
    | _ =>
      comma first
      match ← peek with
      | .flowMappingEnd => skip; return []
      | .key =>
        skip
        let key ← match ← peek with
          | .value | .flowEntry | .flowMappingEnd => empty
          | _ => node fuel false false
        let value ← match ← peek with
          | .value => do
            skip
            match ← peek with
            | .flowEntry | .flowMappingEnd => empty
            | _ => node fuel false false
          | _ => empty
        return (key, value) :: (← flowEntries fuel false)
      | _ =>
        let key ← node fuel false false
        let value ← empty
        return (key, value) :: (← flowEntries fuel false)

end

/-- The handles that need no directive. -/
def standardHandles : List (List Char × List Char) :=
  [(['!'], ['!']), (['!', '!'], Tag.standardUri)]

/-- The directives in front of a document. There is one version at most, and it is 1; a handle is
declared once. -/
def directives : Nat → Bool → List (List Char × List Char) → Build Unit
  | 0, _, _ => malformed
  | fuel + 1, versioned, handles => do
    match ← peek with
    | .versionDirective major =>
      skip
      if versioned || major ≠ 1 then malformed else directives fuel true handles
    | .tagDirective handle uri =>
      skip
      if handles.any (·.1 = handle) then malformed
      else directives fuel versioned ((handle, uri) :: handles)
    | .otherDirective => skip; directives fuel versioned handles
    | _ => modify fun b => { b with handles := handles ++ standardHandles }

def isDirective : Token → Bool
  | .versionDirective _ | .tagDirective _ _ | .otherDirective => true
  | _ => false

/-- Pass over the markers that end a document. -/
def documentEnds : Nat → Build Unit
  | 0 => return ()
  | fuel + 1 => do
    match ← peek with
    | .documentEnd => skip; documentEnds fuel
    | _ => return ()

/-- The root of the only document; none if the text holds no document. -/
def document (fuel : Nat) : Build (Option NodeId) := do
  let t ← peek
  let root ←
    if t = .streamEnd then return none
    else if isDirective t || t = .documentStart then
      directives fuel false []
      if (← peek) ≠ .documentStart then malformed
      else
        skip
        let t ← peek
        if isDirective t || t = .documentStart || t = .documentEnd || t = .streamEnd then empty
        else node fuel true false
    else
      directives fuel false []
      node fuel true false
  documentEnds fuel
  if (← peek) = .streamEnd then return some root
  else
    directives fuel false []
    malformed

end Build

/-- The nodes that a row of tokens describes, with room for so many calls inside one another. If the
row does not reach the end of its text, `ending` says why. -/
def Graph.ofTokens (room : Nat) (tokens : List Token) (ending : Option Stop) : Except Stop Graph := do
  let ending := ending.getD .malformed
  let (root, b) ← (Build.document (2 * tokens.length + 4)).run { room, tokens, ending }
  return { nodes := b.nodes, root }

end ContextConfig.Yaml
