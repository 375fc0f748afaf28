import ContextConfig.Proofs.Room
import ContextConfig.Proofs.Yaml.Graph
import ContextConfig.Proofs.Yaml.Quoting
/-!
# Collections inside one another

With more room a text is read as with less, unless it was nested too deeply for that. The readers of
nodes are covered by their steps; here the visits of nodes are, part by part. Sequences that are opened
inside one another are nested too deeply once there is no room for one of them.
-/

namespace ContextConfig.Yaml

variable {α β : Type}

/-- The text of a scalar is found with more room than it takes. -/
theorem extends_scalarText (nodes : Array Node) (room more : Nat) (id : NodeId) :
    Extends (.fault .tooNested) (scalarText nodes room id) (scalarText nodes (room + more) id) := by
  induction room generalizing id with
  | zero => exact extends_full
  | succ room ih =>
    rw [Nat.succ_add, scalarText, scalarText]
    split
    · exact extends_refl _
    · exact extends_refl _
    · split
      · exact ih _
      · exact extends_refl _

theorem extends_scalarValue (nodes : Array Node) (room more : Nat) (id : NodeId) :
    Extends (.fault .tooNested) (scalarValue room nodes id) (scalarValue (room + more) nodes id) :=
  (extends_scalarText nodes room more id).bind fun _ => extends_refl _

namespace Visiting

/-- A part of a visit that does what another one does, unless there is too little room for that. -/
def Roomier (x y : Visiting α) : Prop := ∀ v, Extends (.fault .tooNested) (x v) (y v)

theorem roomier_refl (x : Visiting α) : Roomier x x := fun _ => extends_refl _

theorem Roomier.bind {x y : Visiting α} {f g : α → Visiting β} (hx : Roomier x y)
    (hf : ∀ a, Roomier (f a) (g a)) : Roomier (x >>= f) (y >>= g) :=
  fun v => (hx v).bind fun r => hf r.1 r.2

/-- What follows a part of a visit that takes no room. -/
theorem roomier_bind (x : Visiting α) {f g : α → Visiting β} (hf : ∀ a, Roomier (f a) (g a)) :
    Roomier (x >>= f) (x >>= g) := (roomier_refl x).bind hf

theorem roomier_ite {c : Prop} [Decidable c] {x y x' y' : Visiting α} (hx : Roomier x y)
    (hx' : Roomier x' y') : Roomier (if c then x else x') (if c then y else y') := by
  split
  · exact hx
  · exact hx'

theorem roomier_lift {x y : Except Stop α} (h : Extends (.fault .tooNested) x y) :
    Roomier (liftM x : Visiting α) (liftM y) := fun _ => h.bind fun _ => extends_refl _

theorem roomier_mapM {f g : α → Visiting β} (h : ∀ a, Roomier (f a) (g a)) (items : List α) :
    Roomier (items.mapM f) (items.mapM g) := by
  induction items with
  | nil => exact roomier_refl _
  | cons a items ih =>
    rw [List.mapM_cons, List.mapM_cons]
    exact (h a).bind fun _ => ih.bind fun _ => roomier_refl _

theorem roomier_forM {f g : α → Visiting PUnit} (h : ∀ a, Roomier (f a) (g a)) (items : List α) :
    Roomier (items.forM f) (items.forM g) := by
  induction items with
  | nil => exact roomier_refl _
  | cons a items ih => exact (h a).bind fun _ => ih

section Merging

variable {flatten flatten' : NodeId → Visiting Unit} (h : ∀ id, Roomier (flatten id) (flatten' id))
include h

theorem roomier_mergedEntries (id : NodeId) :
    Roomier (mergedEntries flatten id) (mergedEntries flatten' id) :=
  roomier_bind _ fun _ => (h id).bind fun _ => roomier_refl _

theorem roomier_mergeSource (id : NodeId) :
    Roomier (mergeSource flatten id) (mergeSource flatten' id) := by
  refine roomier_bind _ fun found => ?_
  cases found with
  | mapping => exact roomier_mergedEntries h id
  | sequence _ items =>
    exact (roomier_mapM (roomier_mergedEntries h) items).bind fun _ => roomier_refl _
  | scalar => exact roomier_refl _

theorem roomier_splitMerged (id : NodeId) (merged kept entries : List (NodeId × NodeId)) :
    Roomier (splitMerged flatten id merged kept entries)
      (splitMerged flatten' id merged kept entries) := by
  induction entries generalizing merged kept with
  | nil => exact roomier_refl _
  | cons entry rest ih =>
    obtain ⟨key, value⟩ := entry
    refine roomier_bind _ fun keyNode => ?_
    split
    · exact roomier_bind _ fun _ => (roomier_mergeSource h value).bind fun _ => ih _ _
    · cases keyNode with
      | scalar => exact roomier_bind _ fun _ => ih _ _
      | sequence => exact roomier_bind _ fun _ => ih _ _
      | mapping => exact roomier_bind _ fun _ => ih _ _
    · exact ih _ _

end Merging

section Parts

variable (room more : Nat)

theorem roomier_flatten (id : NodeId) : Roomier (flatten room id) (flatten (room + more) id) := by
  induction room generalizing id with
  | zero => exact fun _ => extends_full
  | succ room ih =>
    rw [Nat.succ_add, flatten, flatten]
    exact roomier_bind _ fun entries => (roomier_splitMerged ih _ _ _ _).bind fun _ => roomier_refl _

theorem roomier_reach (id : NodeId) : Roomier (reach room id) (reach (room + more) id) := by
  refine roomier_bind _ fun v => roomier_ite (roomier_refl _) (roomier_ite (roomier_refl _) ?_)
  split
  · exact roomier_refl _
  · exact roomier_refl _
  · exact roomier_refl _
  · exact (roomier_lift (extends_scalarValue _ room more id)).bind fun _ => roomier_refl _

theorem roomier_visitEntries (named : Bool) (entries : List (NodeId × NodeId)) :
    Roomier (visitEntries room named entries) (visitEntries (room + more) named entries) := by
  induction entries with
  | nil => exact roomier_refl _
  | cons entry rest ih =>
    obtain ⟨key, value⟩ := entry
    rw [visitEntries, visitEntries]
    refine (roomier_reach room more key).bind fun _ => roomier_bind _ fun _ => ?_
    exact roomier_ite (roomier_refl _) ((roomier_reach room more value).bind fun _ => ih)

theorem roomier_visitPairs (items : List NodeId) :
    Roomier (visitPairs room items) (visitPairs (room + more) items) := by
  induction items with
  | nil => exact roomier_refl _
  | cons id rest ih =>
    refine roomier_bind _ fun entries => ?_
    split
    · exact (roomier_visitEntries room more _ _).bind fun _ => ih
    · exact roomier_refl _

theorem roomier_visitParts (id : NodeId) :
    Roomier (visitParts room id) (visitParts (room + more) id) := by
  have hmapping : Roomier
      (flatten room id >>= fun _ => entriesOf id >>= visitEntries room true)
      (flatten (room + more) id >>= fun _ => entriesOf id >>= visitEntries (room + more) true) :=
    (roomier_flatten room more id).bind fun _ => roomier_bind _ fun _ => roomier_visitEntries room more _ _
  refine roomier_bind _ fun _ => roomier_bind _ fun _ => ?_
  split
  · exact roomier_forM (roomier_reach room more) _
  · exact hmapping
  · exact hmapping
  · exact roomier_visitPairs room more _
  · exact roomier_visitPairs room more _
  · exact roomier_refl _

theorem roomier_visitPending (fuel : Nat) :
    Roomier (visitPending room fuel) (visitPending (room + more) fuel) := by
  induction fuel with
  | zero => exact roomier_refl _
  | succ fuel ih =>
    refine roomier_bind _ fun v => ?_
    split
    · exact roomier_refl _
    · exact roomier_bind _ fun _ => (roomier_visitParts room more _).bind fun _ => ih

end Parts

end Visiting

/-- With more room the same nodes are visited. -/
theorem Graph.extends_visited (room more : Nat) (nodes : Array Node) (root : NodeId) :
    Extends (.fault .tooNested) (Graph.visited room nodes root)
      (Graph.visited (room + more) nodes root) := by
  have hvisit := (Visiting.roomier_reach room more root).bind fun _ =>
    Visiting.roomier_visitPending room more (nodes.size + 1)
  exact (hvisit { nodes }).bind fun _ => extends_refl _

theorem extends_readTokens (room more : Nat) (tokens : List Token) (ending : Option Stop) :
    Extends (.fault .tooNested) (readTokens room tokens ending)
      (readTokens (room + more) tokens ending) := by
  have hgraph : Extends (.fault .tooNested) (Graph.ofTokens room tokens ending)
      (Graph.ofTokens (room + more) tokens ending) := fun h => Graph.ofTokens_more h more
  refine hgraph.bind fun graph => ?_
  split
  · exact extends_refl _
  · exact (Graph.extends_visited room more _ _).bind fun _ => extends_refl _

/-- A text that is not nested too deeply is read the same with more room. -/
theorem readWithin_more {room : Nat} {text : List Char}
    (h : readWithin room text ≠ .error (.fault .tooNested)) (more : Nat) :
    readWithin (room + more) text = readWithin room text := extends_readTokens room more _ _ h

namespace Build

variable {b : Builder} {rest : List Token} {fuel : Nat} {block indentless : Bool}

theorem flowItems_error (h : b.tokens = .flowSequenceStart :: rest) {stop : Stop}
    (hitem : node fuel false false b = .error stop) : flowItems (fuel + 1) true b = .error stop := by
  have hcomma : comma true b = .ok ((), b) := rfl
  rw [flowItems, bind_eq (peek_eq h)]
  dsimp only
  rw [bind_eq hcomma, bind_eq (peek_eq h)]
  exact bind_error hitem

theorem collection_full {start : Node} {parts : Build Node} (h : b.room < callsPerLevel) :
    collection none start parts b = .error (.fault .tooNested) := by
  rw [collection]
  exact bind_error (enter_error h)

theorem node_nested {levels : Nat}
    (htokens : b.tokens = List.replicate levels .flowSequenceStart ++ rest)
    (hroom : b.room < callsPerLevel * levels) (hfuel : 2 * levels ≤ fuel) :
    node fuel block indentless b = .error (.fault .tooNested) := by
  induction levels generalizing b fuel block indentless with
  | zero => exact absurd hroom (Nat.not_lt_zero _)
  | succ levels ih =>
    obtain ⟨fuel, rfl⟩ := Nat.exists_eq_add_one.mpr (show 0 < fuel by omega)
    rw [node_flowSequence htokens]
    by_cases hlevel : callsPerLevel ≤ b.room
    · have hinside : b.room - callsPerLevel < callsPerLevel * levels := by
        rw [Nat.mul_succ] at hroom
        omega
      have hlevels : 0 < levels := Nat.pos_of_mul_pos_left (Nat.zero_lt_of_lt hinside)
      obtain ⟨levels, rfl⟩ := Nat.exists_eq_add_one.mpr hlevels
      obtain ⟨fuel, rfl⟩ := Nat.exists_eq_add_one.mpr (show 0 < fuel by omega)
      exact collection_error hlevel (map_error (flowItems_error rfl (ih rfl hinside (by omega))))
    · exact collection_full (Nat.lt_of_not_le hlevel)

end Build

/-- Tokens that start more sequences inside one another than there is room for are nested too deeply. -/
theorem Graph.ofTokens_nested {room levels : Nat} (h : room < Build.callsPerLevel * levels)
    (rest : List Token) (ending : Option Stop) :
    Graph.ofTokens room (List.replicate levels .flowSequenceStart ++ rest) ending
      = .error (.fault .tooNested) := by
  have hlevels : 0 < levels := Nat.pos_of_mul_pos_left (Nat.zero_lt_of_lt h)
  obtain ⟨levels, rfl⟩ := Nat.exists_eq_add_one.mpr hlevels
  have hfuel : 2 * (levels + 1)
      ≤ 2 * (List.replicate (levels + 1) Token.flowSequenceStart ++ rest).length + 3 + 1 := by
    rw [List.length_append, List.length_replicate]
    omega
  rw [Graph.ofTokens, StateT.run, Build.document_eq_node rfl rfl,
    Build.bind_error (Build.node_nested rfl h hfuel)]
  rfl

end ContextConfig.Yaml
