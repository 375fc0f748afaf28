import ContextConfig.Yaml.Graph
import ContextConfig.Yaml.Value
/-!
# Values of a graph of nodes

Every node of a document has to stand for a value, also where no configuration looks at it. The
nodes are visited breadth first from the root; a collection is complete once it is reached, and its
parts follow later, so that a collection may contain itself. The first node without a value decides
what is wrong with the document.

Before the entries of a mapping are visited, its merge keys are replaced by the entries of the
mappings they refer to. These come first, so that the mapping's own entries prevail.

The parts of a collection are not visited while it is. Only merge keys and value keys lead from one
node into another, and `room` is for the calls that this takes: a row of such keys that is longer, or
that comes back to where it started, is too deep.
-/

namespace ContextConfig.Yaml

/-- The state of a visit: the nodes with merged entries, the nodes that have been reached, and the
collections whose parts are still to be visited. -/
structure Visit where
  nodes : Array Node
  reached : List NodeId := []
  pending : List NodeId := []

abbrev Visiting := StateT Visit (Except Stop)

def Node.tag : Node → Tag
  | scalar tag _ | sequence tag _ | mapping tag _ => tag

/-- Whether a tag stands for a collection. A collection cannot be the name of a field. -/
def Tag.isCollection : Tag → Bool
  | seq | map | set | omap | pairs => true
  | _ => false

def missing : Node := .scalar .unknown []

/-- The text of a node that is to stand for a scalar. A mapping stands for the value under its
first value key. -/
def scalarText (nodes : Array Node) : Nat → NodeId → Except Stop (List Char)
  | 0, _ => .error (.fault .tooNested)
  | room + 1, id =>
    match nodes.getD id missing with
    | .scalar _ text => .ok text
    | .sequence .. => .error .malformed
    | .mapping _ entries =>
      match entries.find? fun entry => (nodes.getD entry.1 missing).tag = .value with
      | some (_, value) => scalarText nodes room value
      | none => .error .malformed

/-- The value of a node that stands for a scalar. -/
def scalarValue (room : Nat) (nodes : Array Node) (id : NodeId) : Except Stop Value := do
  let node := nodes.getD id missing
  let text ← scalarText nodes room id
  match node, node.tag with
  | .mapping .., .timestamp => .error (.fault .notAText)
  | _, tag => Value.ofText tag text

namespace Visiting

def malformed {α : Type} : Visiting α := throw .malformed

def node (id : NodeId) : Visiting Node := do return (← get).nodes.getD id missing

def assign (id : NodeId) (node : Node) : Visiting Unit :=
  modify fun v => { v with nodes := v.nodes.setIfInBounds id node }

/-- Reach a node: a collection has its parts visited later, anything else is made at once. -/
def reach (room : Nat) (id : NodeId) : Visiting Unit := do
  let v ← get
  if v.reached.contains id then return ()
  else
    let tag := (v.nodes.getD id missing).tag
    if tag.isCollection then
      set { v with reached := id :: v.reached, pending := v.pending ++ [id] }
    else
      match tag with
      | .merge | .value | .unknown => malformed
      | _ =>
        let _ ← (scalarValue room v.nodes id : Except Stop Value)
        set { v with reached := id :: v.reached }

/-- The entries of a mapping node. -/
def entriesOf (id : NodeId) : Visiting (List (NodeId × NodeId)) := do
  match ← node id with
  | .mapping _ entries => return entries
  | _ => malformed

def assignEntries (id : NodeId) (entries : List (NodeId × NodeId)) : Visiting Unit := do
  assign id (.mapping (← node id).tag entries)

/-- The entries of a mapping after its own merge keys are replaced by `flatten`. -/
def mergedEntries (flatten : NodeId → Visiting Unit) (id : NodeId) :
    Visiting (List (NodeId × NodeId)) := do
  let _ ← entriesOf id
  flatten id
  entriesOf id

/-- The entries that the value of a merge key stands for: those of one mapping, or those of several
with the first one prevailing. -/
def mergeSource (flatten : NodeId → Visiting Unit) (id : NodeId) :
    Visiting (List (NodeId × NodeId)) := do
  match ← node id with
  | .mapping .. => mergedEntries flatten id
  | .sequence _ items => return (← items.mapM (mergedEntries flatten)).reverse.flatten
  | .scalar .. => malformed

/-- Split entries into those that merge keys stand for and the others. A value key becomes a
textual one. The mapping loses a merge key before what it refers to is looked at. -/
def splitMerged (flatten : NodeId → Visiting Unit) (id : NodeId) :
    List (NodeId × NodeId) → List (NodeId × NodeId) → List (NodeId × NodeId) →
    Visiting (List (NodeId × NodeId) × List (NodeId × NodeId))
  | merged, kept, [] => return (merged, kept)
  | merged, kept, (key, value) :: rest => do
    let keyNode ← node key
    match keyNode.tag with
    | .merge =>
      assignEntries id (kept ++ rest)
      let source ← mergeSource flatten value
      splitMerged flatten id (merged ++ source) kept rest
    | .value =>
      match keyNode with
      | .scalar _ text => assign key (.scalar .str text)
      | .sequence _ items => assign key (.sequence .str items)
      | .mapping _ entries => assign key (.mapping .str entries)
      splitMerged flatten id merged (kept ++ [(key, value)]) rest
    | _ => splitMerged flatten id merged (kept ++ [(key, value)]) rest

/-- Replace the merge keys of a mapping by the entries they stand for. -/
def flatten : Nat → NodeId → Visiting Unit
  | 0, _ => throw (.fault .tooNested)
  | room + 1, id => do
    let (merged, kept) ← splitMerged (flatten room) id [] [] (← entriesOf id)
    if merged = [] then return () else assignEntries id (merged ++ kept)

/-- Visit the entries of a mapping. A name has to be a value that is no collection. -/
def visitEntries (room : Nat) (named : Bool) : List (NodeId × NodeId) → Visiting Unit
  | [] => return ()
  | (key, value) :: rest => do
    reach room key
    if named && (← node key).tag.isCollection then malformed
    else
      reach room value
      visitEntries room named rest

/-- Visit the parts of an ordered mapping, a sequence of mappings with one entry each. -/
def visitPairs (room : Nat) : List NodeId → Visiting Unit
  | [] => return ()
  | id :: rest => do
    match ← entriesOf id with
    | [entry] =>
      visitEntries room false [entry]
      visitPairs room rest
    | _ => malformed

/-- Visit the parts of a collection. -/
def visitParts (room : Nat) (id : NodeId) : Visiting Unit := do
  match (← node id).tag, ← node id with
  | .seq, .sequence _ items => items.forM (reach room)
  | .map, .mapping .. | .set, .mapping .. =>
    flatten room id
    visitEntries room true (← entriesOf id)
  | .omap, .sequence _ items | .pairs, .sequence _ items => visitPairs room items
  | _, _ => malformed

/-- Visit what is pending until nothing is left. -/
def visitPending (room : Nat) : Nat → Visiting Unit
  | 0 => return ()
  | fuel + 1 => do
    let v ← get
    match v.pending with
    | [] => return ()
    | id :: rest =>
      set { v with pending := rest }
      visitParts room id
      visitPending room fuel

end Visiting

namespace Graph

/-- The nodes with all merge keys replaced, if every node stands for a value. -/
def visited (room : Nat) (nodes : Array Node) (root : NodeId) : Except Stop (Array Node) := do
  let visit : Visiting Unit := do
    Visiting.reach room root
    Visiting.visitPending room (nodes.size + 1)
  let (_, v) ← visit.run { nodes }
  return v.nodes

/-- The value of a node that was visited. No row of value keys is longer than there are nodes. -/
def value (nodes : Array Node) (id : NodeId) : Except Stop Value := scalarValue (nodes.size + 1) nodes id

/-- Assign a value to a name: in place where an equal name is present, or at the end. -/
def assign {α : Type} (identity : Value.Identity) (key : Key) (value : α) :
    List (Value.Identity × Key × α) → List (Value.Identity × Key × α)
  | [] => [(identity, key, value)]
  | (present, name, old) :: rest =>
    if present = identity then (present, name, value) :: rest
    else (present, name, old) :: assign identity key value rest

/-- Add an entry of a mapping to those by name. -/
def addEntry (nodes : Array Node) (named : List (Value.Identity × Key × NodeId))
    (entry : NodeId × NodeId) : List (Value.Identity × Key × NodeId) :=
  match value nodes entry.1 with
  | .ok name => assign name.identity name.key entry.2 named
  | .error _ => named

/-- The entries of a mapping by name. A name that occurs again replaces the value. -/
def namedEntries (nodes : Array Node) (entries : List (NodeId × NodeId)) :
    List (Key × NodeId) :=
  (entries.foldl (addEntry nodes) []).map Prod.snd

/-- The document of a node as far as it goes down to a depth; deeper mappings are left empty. -/
def document (nodes : Array Node) : Nat → NodeId → Document
  | depth, id =>
    match nodes.getD id missing with
    | .sequence .seq _ | .sequence .omap _ | .sequence .pairs _ => .other .list
    | .mapping .set _ => .other .set
    | .mapping .map entries =>
      match depth with
      | 0 => .mapping []
      | depth + 1 =>
        .mapping ((namedEntries nodes entries).map fun (key, value) =>
          (key, document nodes depth value))
    | _ =>
      match value nodes id with
      | .ok value => value.document
      | .error _ => .null

end Graph
end ContextConfig.Yaml
