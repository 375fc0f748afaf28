import ContextConfig.Proofs.Yaml.Graph
/-!
# The document of its nodes

The nodes of a written document all stand for values, and none of its names is a merge key. So the
visit changes none of them, and the document is found again at its root.
-/

namespace ContextConfig.Yaml

open Document (Composed Writable textual record record_eq)
open Writer

variable {nodes : Array Node} {start id room : Nat}

section Rows

/-- Whether nodes stand in a row from a number on. -/
def Holds (nodes : Array Node) : Nat → List Node → Prop
  | _, [] => True
  | start, node :: rest => nodes[start]? = some node ∧ Holds nodes (start + 1) rest

theorem holds_append {row more : List Node} : Holds nodes start (row ++ more)
    ↔ Holds nodes start row ∧ Holds nodes (start + row.length) more := by
  induction row generalizing start with
  | nil => simp [Holds]
  | cons node row ih =>
    rw [List.cons_append, Holds, Holds, ih, List.length_cons, and_assoc,
      show start + 1 + row.length = start + (row.length + 1) by omega]

theorem holds_toArray (before row : List Node) :
    Holds (before ++ row).toArray before.length row := by
  induction row generalizing before with
  | nil => trivial
  | cons node row ih =>
    refine ⟨by simp, ?_⟩
    simpa using ih (before ++ [node])

theorem lt_size_of_holds {document : Document} (h : Holds nodes start (nodesOf start document)) :
    start < nodes.size := by
  have hfirst : ∃ node, nodes[start]? = some node := by
    cases document with
    | null => exact ⟨_, h.1⟩
    | other kind => exact ⟨_, h.1⟩
    | bool flag => cases flag <;> exact ⟨_, h.1⟩
    | text content => exact ⟨_, h.1⟩
    | mapping entries => exact ⟨_, h.1⟩
  obtain ⟨node, hnode⟩ := hfirst
  exact (Array.getElem?_eq_some_iff.mp hnode).1

end Rows

section Plain

/-- Whether a node stands for a text, a switch, or a mapping under textual names. -/
inductive Node.IsPlain (nodes : Array Node) : Node → Prop where
  | text (content : List Char) : IsPlain nodes (.scalar .str content)
  | bool {word : List Char} (h : word = "true".toList ∨ word = "false".toList) :
      IsPlain nodes (.scalar .bool word)
  | mapping {entries : List (NodeId × NodeId)}
      (h : ∀ e ∈ entries, (∃ text, nodes[e.1]? = some (.scalar .str text)) ∧ e.2 < nodes.size) :
      IsPlain nodes (.mapping .map entries)

theorem isPlain_entryNodes {entries : List (Key × Document)}
    (heach : ∀ e ∈ entries, ∀ start, Holds nodes start (nodesOf start e.2) →
      ∀ node ∈ nodesOf start e.2, node.IsPlain nodes)
    (hnodes : Holds nodes start (entryNodes start entries)) :
    (∀ node ∈ entryNodes start entries, node.IsPlain nodes) ∧ ∀ e ∈ partsOf start entries,
      (∃ text, nodes[e.1]? = some (.scalar .str text)) ∧ e.2 < nodes.size := by
  induction entries generalizing start with
  | nil => simp [entryNodes, partsOf]
  | cons entry entries ih =>
    obtain ⟨key, document⟩ := entry
    rw [List.forall_mem_cons] at heach
    rw [entryNodes, List.cons_append, Holds, holds_append] at hnodes
    obtain ⟨hkey, hvalue, hrest⟩ := hnodes
    obtain ⟨hentries, hparts⟩ := ih heach.2 hrest
    rw [entryNodes, partsOf, List.cons_append, List.forall_mem_cons, List.forall_mem_append,
      List.forall_mem_cons]
    exact ⟨⟨.text _, heach.1 _ hvalue, hentries⟩, ⟨⟨_, hkey⟩, lt_size_of_holds hvalue⟩, hparts⟩

theorem isPlain_of_composed {document : Document} (h : Composed document)
    (hnodes : Holds nodes start (nodesOf start document)) :
    ∀ node ∈ nodesOf start document, node.IsPlain nodes := by
  induction h generalizing start with
  | bool flag => cases flag <;> simp [nodesOf, Node.IsPlain.bool]
  | text content => simp [nodesOf, Node.IsPlain.text]
  | @record fields _ ih =>
    rw [record_eq, nodesOf, Holds] at hnodes
    have heach : ∀ e ∈ textual fields, ∀ start, Holds nodes start (nodesOf start e.2) →
        ∀ node ∈ nodesOf start e.2, node.IsPlain nodes :=
      List.forall_mem_map.mpr fun field hfield start hnodes => ih field hfield hnodes
    obtain ⟨hentries, hparts⟩ := isPlain_entryNodes heach hnodes.2
    rw [record_eq, nodesOf, List.forall_mem_cons]
    exact ⟨.mapping hparts, hentries⟩

end Plain

section Values

theorem getD_eq {node : Node} (h : nodes[id]? = some node) : nodes.getD id missing = node := by
  rw [Array.getD_eq_getD_getElem?, h, Option.getD_some]

theorem scalarValue_scalar {tag : Tag} {text : List Char}
    (h : nodes[id]? = some (.scalar tag text)) :
    scalarValue (room + 1) nodes id = Value.ofText tag text := by
  have htext : scalarText nodes (room + 1) id = .ok text := by rw [scalarText, getD_eq h]
  simp only [scalarValue, getD_eq h, htext, bind, Except.bind, Node.tag]

end Values

namespace Visiting

variable {α β : Type} {v v' : Visit} {fuel : Nat}

theorem bind_eq {x : Visiting α} {f : α → Visiting β} {a : α} (h : x v = .ok (a, v')) :
    (x >>= f) v = f a v' := by
  simp only [bind, StateT.bind, h, Except.bind]

/-- Whether all nodes are as they were, and what is pending are mappings. -/
structure Steady (nodes : Array Node) (v : Visit) : Prop where
  nodes_eq : v.nodes = nodes
  pending : ∀ id ∈ v.pending, ∃ entries, nodes[id]? = some (.mapping .map entries)

/-- Whether a part of the visit finds no flaw and changes no node. -/
def Keeps (nodes : Array Node) (x : Visiting Unit) : Prop :=
  ∀ v, Steady nodes v → ∃ v', x v = .ok ((), v') ∧ Steady nodes v'

theorem Keeps.pure : Keeps nodes (pure ()) := fun v hv => ⟨v, rfl, hv⟩

theorem Keeps.seq {x y : Visiting Unit} (hx : Keeps nodes x) (hy : Keeps nodes y) :
    Keeps nodes (x >>= fun _ => y) := by
  intro v hv
  obtain ⟨v', hx, hv'⟩ := hx v hv
  rw [bind_eq hx]
  exact hy v' hv'

theorem node_eq {node : Node} (hv : Steady nodes v) (h : nodes[id]? = some node) :
    Visiting.node id v = .ok (node, v) := by
  have hnode : Visiting.node id v = .ok (v.nodes.getD id missing, v) := rfl
  rw [hnode, hv.nodes_eq, getD_eq h]

theorem entriesOf_eq {tag : Tag} {entries : List (NodeId × NodeId)} (hv : Steady nodes v)
    (h : nodes[id]? = some (.mapping tag entries)) : entriesOf id v = .ok (entries, v) := by
  rw [entriesOf, bind_eq (node_eq hv h)]
  rfl

theorem lift_eq {x : Except Stop α} {a : α} (h : x = .ok a) : (liftM x : Visiting α) v = .ok (a, v) := by
  rw [h]
  rfl

theorem keeps_reach {node : Node} (h : nodes[id]? = some node) (hplain : node.IsPlain nodes) :
    Keeps nodes (reach (room + 1) id) := by
  intro v hv
  obtain rfl := hv.nodes_eq
  have hget : (get : Visiting Visit) v = .ok (v, v) := rfl
  have hreached : Steady v.nodes { v with reached := id :: v.reached } := ⟨rfl, hv.pending⟩
  rw [reach, bind_eq hget]
  split
  case isTrue => exact ⟨v, rfl, hv⟩
  case isFalse =>
    rw [getD_eq h]
    cases hplain with
    | text content =>
      exact ⟨_, bind_eq (lift_eq (scalarValue_scalar h)), hreached⟩
    | @bool word hword =>
      have hvalue : ∃ value, Value.ofText .bool word = .ok value := by
        obtain rfl | rfl := hword
        · exact ⟨.bool true, rfl⟩
        · exact ⟨.bool false, rfl⟩
      obtain ⟨value, hvalue⟩ := hvalue
      exact ⟨_, bind_eq (lift_eq ((scalarValue_scalar h).trans hvalue)), hreached⟩
    | mapping hparts =>
      refine ⟨_, rfl, rfl, ?_⟩
      intro other hother
      obtain hother | hother := List.mem_append.mp hother
      · exact hv.pending other hother
      · obtain rfl := List.mem_singleton.mp hother
        exact ⟨_, h⟩

/-- No key among texts is a merge key. -/
theorem splitMerged_eq {flatten : NodeId → Visiting Unit} {merged kept entries : List (NodeId × NodeId)}
    (hv : Steady nodes v) (h : ∀ e ∈ entries, ∃ text, nodes[e.1]? = some (.scalar .str text)) :
    splitMerged flatten id merged kept entries v = .ok ((merged, kept ++ entries), v) := by
  induction entries generalizing kept with
  | nil =>
    rw [splitMerged, List.append_nil]
    rfl
  | cons entry entries ih =>
    obtain ⟨key, value⟩ := entry
    rw [List.forall_mem_cons] at h
    obtain ⟨text, hkey⟩ := h.1
    rw [splitMerged, bind_eq (node_eq hv hkey)]
    refine (ih h.2).trans ?_
    rw [List.append_assoc]
    rfl

theorem flatten_eq {entries : List (NodeId × NodeId)} (hv : Steady nodes v)
    (hid : nodes[id]? = some (.mapping .map entries))
    (h : ∀ e ∈ entries, ∃ text, nodes[e.1]? = some (.scalar .str text)) :
    flatten (room + 1) id v = .ok ((), v) := by
  rw [flatten, bind_eq (entriesOf_eq hv hid), bind_eq (splitMerged_eq hv h)]
  rfl

variable (hplain : ∀ (id : NodeId) (node : Node), nodes[id]? = some node → node.IsPlain nodes)
include hplain

theorem keeps_visitEntries {entries : List (NodeId × NodeId)} (h : ∀ e ∈ entries,
      (∃ text, nodes[e.1]? = some (.scalar .str text)) ∧ e.2 < nodes.size) :
    Keeps nodes (visitEntries (room + 1) true entries) := by
  induction entries with
  | nil => exact .pure
  | cons entry entries ih =>
    obtain ⟨key, value⟩ := entry
    rw [List.forall_mem_cons] at h
    obtain ⟨⟨⟨text, hkey⟩, hvalue⟩, hrest⟩ := h
    have hfound : nodes[value]? = some nodes[value] := Array.getElem?_eq_getElem hvalue
    intro v hv
    obtain ⟨v₁, hreach, hv₁⟩ := keeps_reach hkey (.text text) v hv
    obtain ⟨v₂, hnext, hv₂⟩ := (keeps_reach hfound (hplain _ _ hfound)).seq (ih hrest) v₁ hv₁
    refine ⟨v₂, ?_, hv₂⟩
    rw [visitEntries, bind_eq hreach]
    exact (bind_eq (node_eq hv₁ hkey)).trans hnext

/-- The parts of a mapping are visited without a flaw. -/
theorem keeps_visitParts {entries : List (NodeId × NodeId)}
    (hid : nodes[id]? = some (.mapping .map entries)) : Keeps nodes (visitParts (room + 1) id) := by
  have hparts : ∀ e ∈ entries, (∃ text, nodes[e.1]? = some (.scalar .str text)) ∧ e.2 < nodes.size := by
    cases hplain id _ hid with
    | mapping h => exact h
  intro v hv
  obtain ⟨v', hvisit, hv'⟩ := keeps_visitEntries hplain hparts v hv
  refine ⟨v', ?_, hv'⟩
  rw [visitParts, bind_eq (node_eq hv hid), bind_eq (node_eq hv hid)]
  refine (bind_eq (flatten_eq hv hid fun e he => (hparts e he).1)).trans ?_
  rw [bind_eq (entriesOf_eq hv hid), hvisit]

theorem keeps_visitPending (fuel : Nat) : Keeps nodes (visitPending (room + 1) fuel) := by
  induction fuel with
  | zero => exact .pure
  | succ fuel ih =>
    intro v hv
    have hget : (get : Visiting Visit) v = .ok (v, v) := rfl
    rw [visitPending, bind_eq hget]
    cases hpending : v.pending with
    | nil => exact ⟨v, rfl, hv⟩
    | cons id rest =>
      obtain ⟨entries, hid⟩ := hv.pending id (by simp [hpending])
      have hrest : Steady nodes { v with pending := rest } :=
        ⟨hv.nodes_eq, fun id hid => hv.pending id (by simp [hpending, hid])⟩
      exact (keeps_visitParts hplain hid).seq ih _ hrest

end Visiting

/-- Nodes without a flaw stay as they are. -/
theorem visited_eq (hplain : ∀ (id : NodeId) (node : Node), nodes[id]? = some node → node.IsPlain nodes)
    (hroom : 0 < room) (hid : id < nodes.size) : Graph.visited room nodes id = .ok nodes := by
  have hfound : nodes[id]? = some nodes[id] := Array.getElem?_eq_getElem hid
  obtain ⟨room, rfl⟩ := Nat.exists_eq_add_one.mpr hroom
  have hpending : Visiting.Keeps nodes (Visiting.visitPending (room + 1) (nodes.size + 1)) :=
    Visiting.keeps_visitPending hplain _
  obtain ⟨v, hvisit, hv⟩ :=
    (Visiting.keeps_reach hfound (hplain id _ hfound)).seq hpending { nodes } ⟨rfl, by simp⟩
  have hrun : (do
      Visiting.reach (room + 1) id
      Visiting.visitPending (room + 1) (nodes.size + 1)).run { nodes } = .ok ((), v) := hvisit
  rw [Graph.visited]
  dsimp only
  rw [hrun]
  exact congrArg Except.ok hv.nodes_eq

section Documents

variable {depth : Nat} {fields : List (String × Document)}

theorem assign_eq_append {α : Type} {identity : Value.Identity} {key : Key} {value : α}
    {named : List (Value.Identity × Key × α)} (h : identity ∉ named.map Prod.fst) :
    Graph.assign identity key value named = named ++ [(identity, key, value)] := by
  induction named with
  | nil => rfl
  | cons entry named ih =>
    obtain ⟨present, name, old⟩ := entry
    rw [List.map_cons, List.mem_cons, not_or] at h
    rw [Graph.assign, if_neg (Ne.symm h.1), ih h.2, List.cons_append]

/-- The values of a mapping by name. -/
def namesOf (start : Nat) : List (String × Document) → List (Value.Identity × Key × NodeId)
  | [] => []
  | (name, document) :: fields =>
    (.text name.toList, .text name, start + 1)
      :: namesOf (start + 1 + (nodesOf (start + 1) document).length) fields

/-- Distinct names are found in their order. -/
theorem foldl_addEntry {named : List (Value.Identity × Key × NodeId)}
    (hdistinct : (fields.map Prod.fst).Nodup)
    (hnew : ∀ field ∈ fields, Value.Identity.text field.1.toList ∉ named.map Prod.fst)
    (hnodes : Holds nodes start (entryNodes start (textual fields))) :
    (partsOf start (textual fields)).foldl (Graph.addEntry nodes) named
      = named ++ namesOf start fields := by
  induction fields generalizing start named with
  | nil => simp [textual, partsOf, namesOf]
  | cons field fields ih =>
    obtain ⟨name, document⟩ := field
    rw [List.forall_mem_cons] at hnew
    rw [List.map_cons, List.nodup_cons] at hdistinct
    rw [textual, List.map_cons, entryNodes, List.cons_append, Holds, holds_append] at hnodes
    obtain ⟨hkey, -, hrest⟩ := hnodes
    have hname : Graph.value nodes start = .ok (.text name.toList) := scalarValue_scalar hkey
    have hadd : Graph.addEntry nodes named (start, start + 1)
        = named ++ [(.text name.toList, .text name, start + 1)] := by
      rw [Graph.addEntry, hname]
      dsimp only
      rw [Value.identity, Value.key, String.ofList_toList, assign_eq_append hnew.1]
    rw [textual, List.map_cons, partsOf, List.foldl_cons, hadd, namesOf]
    refine (ih hdistinct.2 (fun field hfield hmem => ?_) hrest).trans (by simp)
    rw [List.map_append, List.mem_append] at hmem
    obtain hmem | hmem := hmem
    · exact hnew.2 field hfield hmem
    · obtain hsame := List.mem_singleton.mp hmem
      rw [Value.Identity.text.injEq, String.toList_inj] at hsame
      exact hdistinct.1 (List.mem_map.mpr ⟨field, hfield, hsame⟩)

/-- The values under the names are those of the fields. -/
theorem map_namesOf (heach : ∀ field ∈ fields, ∀ start, Holds nodes start (nodesOf start field.2) →
      Graph.document nodes depth start = field.2)
    (hnodes : Holds nodes start (entryNodes start (textual fields))) :
    ((namesOf start fields).map Prod.snd).map
      (fun (key, value) => (key, Graph.document nodes depth value)) = textual fields := by
  induction fields generalizing start with
  | nil => rfl
  | cons field fields ih =>
    obtain ⟨name, document⟩ := field
    rw [List.forall_mem_cons] at heach
    rw [textual, List.map_cons, entryNodes, List.cons_append, Holds, holds_append] at hnodes
    obtain ⟨-, hvalue, hrest⟩ := hnodes
    rw [namesOf, List.map_cons, List.map_cons, ih heach.2 hrest]
    dsimp only
    rw [heach.1 _ hvalue]
    rfl

/-- A written document is found again at its first node. -/
theorem document_of_holds {document : Document} (h : Writable depth document)
    (hnodes : Holds nodes start (nodesOf start document)) :
    Graph.document nodes depth start = document := by
  induction h generalizing start with
  | bool flag =>
    cases flag with
    | true =>
      rw [Graph.document, getD_eq hnodes.1]
      dsimp only
      rw [Graph.value, scalarValue_scalar hnodes.1]
      rfl
    | false =>
      rw [Graph.document, getD_eq hnodes.1]
      dsimp only
      rw [Graph.value, scalarValue_scalar hnodes.1]
      rfl
  | text content =>
    rw [Graph.document, getD_eq hnodes.1]
    dsimp only
    rw [Graph.value, scalarValue_scalar hnodes.1]
    exact congrArg Document.text String.ofList_toList
  | @record depth fields hdistinct _ ih =>
    rw [record_eq, nodesOf, Holds] at hnodes
    rw [Graph.document, getD_eq hnodes.1]
    dsimp only
    rw [Graph.namedEntries, foldl_addEntry hdistinct (by simp) hnodes.2, List.nil_append,
      map_namesOf (fun field hfield start hnodes => ih field hfield hnodes) hnodes.2, record_eq]

/-- The nodes of a document alone are visited without a flaw, and stay as they are. -/
theorem visited_nodesOf {document : Document} (h : Composed document) (hroom : 0 < room) :
    Graph.visited room (nodesOf 0 document).toArray 0 = .ok (nodesOf 0 document).toArray := by
  have hnodes := holds_toArray [] (nodesOf 0 document)
  refine visited_eq (fun id node hid => ?_) hroom (lt_size_of_holds hnodes)
  rw [List.getElem?_toArray] at hid
  exact isPlain_of_composed h hnodes node (List.mem_of_getElem? hid)

end Documents

end ContextConfig.Yaml
