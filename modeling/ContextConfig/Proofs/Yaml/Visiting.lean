import ContextConfig.Proofs.Names
import ContextConfig.Proofs.Yaml.Building
import ContextConfig.Proofs.Yaml.Construction
/-!
# Visits of safe nodes

A visit of safe nodes finds a value for every node or a flaw of the document, unless there is too
little room, and leaves safe nodes with nothing but other entries in mappings and texts in place of
value keys. What was a mapping stays one throughout, which is why a mapping can take over the entries
that its merge keys stand for without changing its tag.
-/

namespace ContextConfig.Yaml

def IsMapping (nodes : Array Node) (id : NodeId) : Prop :=
  ∃ tag entries, nodes.getD id missing = .mapping tag entries

section Values

variable {nodes : Array Node}

theorem isSafe_getD (h : ∀ node ∈ nodes, node.IsSafe) (id : NodeId) : (nodes.getD id missing).IsSafe := by
  rw [Array.getD_eq_getD_getElem?]
  cases hid : nodes[id]? with
  | none => exact .malformed
  | some node => exact h node (Array.mem_of_getElem? hid)

theorem regular_scalarText (room : Nat) (id : NodeId) :
    Regular (fun _ => True) (scalarText nodes room id) := by
  induction room generalizing id with
  | zero => exact .tooNested
  | succ room ih =>
    rw [scalarText]
    split
    · exact .ok trivial
    · exact .malformed
    · split
      · exact ih _
      · exact .malformed

/-- The value of a safe node can be shown, if there is one. -/
theorem regular_scalarValue (h : ∀ node ∈ nodes, node.IsSafe) (room : Nat) (id : NodeId) :
    Regular (fun value => value.key ≠ .unshowable) (scalarValue room nodes id) := by
  have hsafe := isSafe_getD h id
  unfold scalarValue
  cases room with
  | zero => exact .tooNested
  | succ room =>
    cases hnode : nodes.getD id missing with
    | scalar tag text =>
      have htext : scalarText nodes (room + 1) id = .ok text := by rw [scalarText, hnode]
      rw [hnode] at hsafe
      dsimp only
      rw [htext]
      exact hsafe
    | sequence tag items =>
      have htext : scalarText nodes (room + 1) id = .error .malformed := by rw [scalarText, hnode]
      dsimp only
      rw [htext]
      exact .malformed
    | mapping tag entries =>
      rw [hnode] at hsafe
      refine (regular_scalarText (room + 1) id).bind fun text _ => ?_
      have htext := Tag.regular_ofText hsafe text
      cases tag with
      | timestamp => cases hsafe
      | _ => exact htext

end Values

namespace Visiting

/-- The nodes are safe, and those in `ids` are mappings. -/
structure Good (ids : NodeId → Prop) (v : Visit) : Prop where
  nodes : ∀ node ∈ v.nodes, node.IsSafe
  mappings : ∀ id, ids id → IsMapping v.nodes id

/-- A part of a visit that does not fault on safe nodes, and what it leads to. -/
def Sound {α : Type} (ids ids' : NodeId → Prop) (p : α → Prop) (x : Visiting α) : Prop :=
  ∀ v, Good ids v → Regular (fun r => p r.1 ∧ Good ids' r.2) (x v)

abbrev Any {α : Type} : α → Prop := fun _ => True

/-- One more identifier. -/
def withId (ids : NodeId → Prop) (id : NodeId) : NodeId → Prop := fun other => ids other ∨ other = id

variable {α β : Type} {ids ids' ids'' : NodeId → Prop} {p : α → Prop} {q : β → Prop}

theorem sound_pure {a : α} (h : p a) : Sound ids ids p (pure a) := fun _ hv => .ok ⟨h, hv⟩

theorem sound_malformed : Sound ids ids' p malformed := fun _ _ => .malformed

theorem sound_tooNested : Sound ids ids' p (throw (.fault .tooNested)) := fun _ _ => .tooNested

theorem Sound.bind {x : Visiting α} {f : α → Visiting β} (hx : Sound ids ids' p x)
    (hf : ∀ a, p a → Sound ids' ids'' q (f a)) : Sound ids ids'' q (x >>= f) :=
  fun v hv => (hx v hv).bind fun r hr => hf r.1 hr.1 r.2 hr.2

theorem sound_ite {c : Prop} [Decidable c] {x y : Visiting α} (hx : c → Sound ids ids' p x)
    (hy : ¬ c → Sound ids ids' p y) : Sound ids ids' p (if c then x else y) := by
  split
  · exact hx ‹_›
  · exact hy ‹_›

/-- Fewer mappings are known. -/
theorem Sound.forget {x : Visiting α} (hx : Sound ids ids' p x) (h : ∀ id, ids'' id → ids' id) :
    Sound ids ids'' p x := fun v hv =>
  (hx v hv).mono fun _ hr => ⟨hr.1, hr.2.nodes, fun id hid => hr.2.mappings id (h id hid)⟩

theorem sound_get : Sound ids ids (Good ids) get := fun _ hv => .ok ⟨hv, hv⟩

theorem sound_set {v : Visit} (h : Good ids v) : Sound ids ids Any (set v) := fun _ _ => .ok ⟨trivial, h⟩

theorem sound_lift {x : Except Stop α} (h : Regular p x) : Sound ids ids p (liftM x) := by
  intro v hv
  cases h with
  | ok h => exact .ok ⟨h, hv⟩
  | malformed => exact .malformed
  | tooNested => exact .tooNested

theorem sound_node (id : NodeId) :
    Sound ids ids (fun node => node.IsSafe ∧ (ids id → ∃ tag entries, node = .mapping tag entries))
      (node id) :=
  fun _ hv => .ok ⟨⟨isSafe_getD hv.nodes id, hv.mappings id⟩, hv⟩

theorem sound_assign {id : NodeId} {node : Node} (hsafe : node.IsSafe)
    (hmapping : ids id → ∃ tag entries, node = .mapping tag entries) :
    Sound ids ids Any (assign id node) := by
  intro v hv
  refine .ok ⟨trivial, fun other hother => ?_, fun other hother => ?_⟩
  · obtain hother | rfl := Array.mem_or_eq_of_mem_setIfInBounds hother
    · exact hv.nodes other hother
    · exact hsafe
  · have hold := hv.mappings other hother
    change ∃ tag entries, (v.nodes.setIfInBounds id node).getD other missing = _
    rw [IsMapping, Array.getD_eq_getD_getElem?] at hold
    rw [Array.getD_eq_getD_getElem?, Array.getElem?_setIfInBounds]
    split
    · rename_i heq
      subst heq
      split
      · exact hmapping hother
      · rename_i hbound
        rw [Array.getElem?_eq_none (by omega)] at hold
        exact hold
    · exact hold

theorem sound_reach (room : Nat) (id : NodeId) : Sound ids ids Any (reach room id) := by
  refine sound_get.bind fun v hv => sound_ite (fun _ => sound_pure trivial) fun _ => ?_
  refine sound_ite (fun _ => sound_set ?_) fun _ => ?_
  · exact ⟨hv.nodes, hv.mappings⟩
  · split
    · exact sound_malformed
    · exact sound_malformed
    · exact sound_malformed
    · refine (sound_lift (regular_scalarValue hv.nodes room id)).bind fun _ _ => sound_set ?_
      exact ⟨hv.nodes, hv.mappings⟩

/-- What has entries is a mapping. -/
theorem sound_entriesOf (id : NodeId) : Sound ids (withId ids id) Any (entriesOf id) := by
  intro v hv
  have hnode : node id v = .ok (v.nodes.getD id missing, v) := rfl
  rw [entriesOf, bind_eq hnode]
  cases hfound : v.nodes.getD id missing with
  | scalar tag text => exact .malformed
  | sequence tag items => exact .malformed
  | mapping tag entries =>
    refine .ok ⟨trivial, hv.nodes, fun other hother => ?_⟩
    obtain hother | rfl := hother
    · exact hv.mappings other hother
    · exact ⟨tag, entries, hfound⟩

theorem sound_entriesOf' (id : NodeId) : Sound ids ids Any (entriesOf id) :=
  (sound_entriesOf id).forget fun _ => .inl

theorem sound_assignEntries {id : NodeId} (hid : ids id) (entries : List (NodeId × NodeId)) :
    Sound ids ids Any (assignEntries id entries) := by
  refine (sound_node id).bind fun found ⟨hsafe, hmapping⟩ => ?_
  obtain ⟨tag, old, rfl⟩ := hmapping hid
  exact sound_assign hsafe fun _ => ⟨_, _, rfl⟩

/-- A part of a visit that does not fault whatever is known of the nodes. -/
def Calm {α : Type} (x : Visiting α) : Prop := ∀ ids, Sound ids ids Any x

theorem Calm.mapM {f : α → Visiting β} (hf : ∀ a, Calm (f a)) (items : List α) : Calm (items.mapM f) := by
  intro ids
  induction items with
  | nil => exact sound_pure trivial
  | cons a items ih =>
    rw [List.mapM_cons]
    exact (hf a ids).bind fun _ _ => ih.bind fun _ _ => sound_pure trivial

theorem Calm.forM {f : α → Visiting PUnit} (hf : ∀ a, Calm (f a)) (items : List α) :
    Calm (items.forM f) := by
  intro ids
  induction items with
  | nil => exact sound_pure trivial
  | cons a items ih => exact (hf a ids).bind fun _ _ => ih

section Merging

variable {flatten : NodeId → Visiting Unit} (hflatten : ∀ id, Calm (flatten id))
include hflatten

theorem calm_mergedEntries (id : NodeId) : Calm (mergedEntries flatten id) := fun ids =>
  (sound_entriesOf' id).bind fun _ _ => (hflatten id ids).bind fun _ _ => sound_entriesOf' id

theorem calm_mergeSource (id : NodeId) : Calm (mergeSource flatten id) := by
  intro ids
  refine (sound_node id).bind fun found _ => ?_
  split
  · exact calm_mergedEntries hflatten id ids
  · exact ((Calm.mapM (calm_mergedEntries hflatten) _) ids).bind fun _ _ => sound_pure trivial
  · exact sound_malformed

theorem sound_splitMerged {id : NodeId} (hid : ids id) (merged kept entries : List (NodeId × NodeId)) :
    Sound ids ids Any (splitMerged flatten id merged kept entries) := by
  induction entries generalizing merged kept with
  | nil => exact sound_pure trivial
  | cons entry rest ih =>
    obtain ⟨key, value⟩ := entry
    refine (sound_node key).bind fun keyNode ⟨hsafe, hmapping⟩ => ?_
    split
    · exact (sound_assignEntries hid _).bind fun _ _ =>
        (calm_mergeSource hflatten value ids).bind fun _ _ => ih _ _
    · have hkept := ih merged (kept ++ [(key, value)])
      cases keyNode with
      | scalar tag text =>
        refine Sound.bind (sound_assign (.ok nofun) fun hkey => ?_) fun _ _ => hkept
        obtain ⟨_, _, hnode⟩ := hmapping hkey
        cases hnode
      | sequence tag items =>
        refine Sound.bind (sound_assign trivial fun hkey => ?_) fun _ _ => hkept
        obtain ⟨_, _, hnode⟩ := hmapping hkey
        cases hnode
      | mapping tag entries =>
        exact Sound.bind (sound_assign rfl fun _ => ⟨_, _, rfl⟩) fun _ _ => hkept
    · exact ih _ _

end Merging

theorem calm_flatten (room : Nat) (id : NodeId) : Calm (flatten room id) := by
  induction room generalizing id with
  | zero => exact fun _ => sound_tooNested
  | succ room ih =>
    intro ids
    have hid : withId ids id id := .inr rfl
    refine (sound_entriesOf id).bind fun entries _ => ?_
    refine (sound_splitMerged ih hid _ _ _).bind fun ⟨merged, kept⟩ _ => ?_
    have hfinish : Sound (withId ids id) (withId ids id) Any
        (if merged = [] then pure () else assignEntries id (merged ++ kept)) :=
      sound_ite (fun _ => sound_pure trivial) fun _ => sound_assignEntries hid _
    exact hfinish.forget fun _ => .inl

variable (room : Nat)

theorem calm_visitEntries (named : Bool) (entries : List (NodeId × NodeId)) :
    Calm (visitEntries room named entries) := by
  intro ids
  induction entries with
  | nil => exact sound_pure trivial
  | cons entry rest ih =>
    obtain ⟨key, value⟩ := entry
    rw [visitEntries]
    refine (sound_reach room key).bind fun _ _ => (sound_node key).bind fun _ _ => ?_
    exact sound_ite (fun _ => sound_malformed) fun _ => (sound_reach room value).bind fun _ _ => ih

theorem calm_visitPairs (items : List NodeId) : Calm (visitPairs room items) := by
  intro ids
  induction items with
  | nil => exact sound_pure trivial
  | cons id rest ih =>
    refine (sound_entriesOf' id).bind fun entries _ => ?_
    split
    · exact (calm_visitEntries _ _ _ ids).bind fun _ _ => ih
    · exact sound_malformed

theorem calm_visitParts (id : NodeId) : Calm (visitParts room id) := by
  intro ids
  refine (sound_node id).bind fun _ _ => (sound_node id).bind fun _ _ => ?_
  split
  · exact Calm.forM (fun _ _ => sound_reach room _) _ ids
  · exact (calm_flatten _ _ ids).bind fun _ _ => (sound_entriesOf' id).bind fun _ _ =>
      calm_visitEntries _ _ _ ids
  · exact (calm_flatten _ _ ids).bind fun _ _ => (sound_entriesOf' id).bind fun _ _ =>
      calm_visitEntries _ _ _ ids
  · exact calm_visitPairs _ _ ids
  · exact calm_visitPairs _ _ ids
  · exact sound_malformed

theorem calm_visitPending (fuel : Nat) : Calm (visitPending room fuel) := by
  intro ids
  induction fuel with
  | zero => exact sound_pure trivial
  | succ fuel ih =>
    refine sound_get.bind fun v hv => ?_
    split
    · exact sound_pure trivial
    · refine (sound_set ?_).bind fun _ _ => (calm_visitParts room _ ids).bind fun _ _ => ih
      exact ⟨hv.nodes, hv.mappings⟩

end Visiting

namespace Graph

variable {nodes : Array Node}

theorem regular_visited (h : ∀ node ∈ nodes, node.IsSafe) (room : Nat) (root : NodeId) :
    Regular (fun nodes => ∀ node ∈ nodes, node.IsSafe) (Graph.visited room nodes root) := by
  have hvisit : Visiting.Sound (fun _ => False) (fun _ => False) Visiting.Any (do
      Visiting.reach room root
      Visiting.visitPending room (nodes.size + 1)) :=
    (Visiting.sound_reach room root).bind fun _ _ => Visiting.calm_visitPending _ _ _
  exact (hvisit { nodes } ⟨h, nofun⟩).bind fun r hr => .ok hr.2.nodes

theorem showable_assign {α : Type} {identity : Value.Identity} {key : Key} {value : α}
    {named : List (Value.Identity × Key × α)} (hkey : key ≠ .unshowable)
    (hnamed : ∀ entry ∈ named, entry.2.1 ≠ .unshowable) :
    ∀ entry ∈ assign identity key value named, entry.2.1 ≠ .unshowable := by
  induction named with
  | nil => exact List.forall_mem_singleton.mpr hkey
  | cons entry named ih =>
    obtain ⟨present, name, old⟩ := entry
    rw [List.forall_mem_cons] at hnamed
    rw [assign]
    split
    · exact List.forall_mem_cons.mpr hnamed
    · exact List.forall_mem_cons.mpr ⟨hnamed.1, ih hnamed.2⟩

theorem showable_namedEntries (h : ∀ node ∈ nodes, node.IsSafe) (entries : List (NodeId × NodeId)) :
    ∀ entry ∈ namedEntries nodes entries, entry.1 ≠ .unshowable := by
  have hfold : ∀ (entries : List (NodeId × NodeId)) (named : List (Value.Identity × Key × NodeId)),
      (∀ entry ∈ named, entry.2.1 ≠ .unshowable) →
      ∀ entry ∈ entries.foldl (addEntry nodes) named, entry.2.1 ≠ .unshowable := by
    intro entries
    induction entries with
    | nil => exact fun _ hnamed => hnamed
    | cons entry entries ih =>
      intro named hnamed
      refine ih _ ?_
      have hvalue : Regular _ (value nodes entry.1) := regular_scalarValue h _ entry.1
      unfold addEntry
      split
      · rename_i name hname
        rw [hname] at hvalue
        exact showable_assign hvalue.of_ok hnamed
      · exact hnamed
  intro entry hentry
  obtain ⟨found, hfound, rfl⟩ := List.mem_map.mp hentry
  exact hfold entries [] nofun found hfound

theorem shows_value (value : Value) : value.document.Shows := by
  refine .leaf ?_
  cases value <;> nofun

/-- The names of a document of safe nodes can be shown. -/
theorem shows_document (h : ∀ node ∈ nodes, node.IsSafe) (depth : Nat) (id : NodeId) :
    (Graph.document nodes depth id).Shows := by
  induction depth generalizing id with
  | zero =>
    unfold Graph.document
    split
    · exact .leaf (by simp)
    · exact .leaf (by simp)
    · exact .leaf (by simp)
    · exact .leaf (by simp)
    · exact .mapping (by simp) (by simp)
    · split
      · exact shows_value _
      · exact .leaf (by simp)
  | succ depth ih =>
    unfold Graph.document
    split
    · exact .leaf (by simp)
    · exact .leaf (by simp)
    · exact .leaf (by simp)
    · exact .leaf (by simp)
    · refine .mapping ?_ ?_
      · exact List.forall_mem_map.mpr (showable_namedEntries h _)
      · exact List.forall_mem_map.mpr fun entry _ => ih entry.2
    · split
      · exact shows_value _
      · exact .leaf (by simp)

end Graph

end ContextConfig.Yaml
