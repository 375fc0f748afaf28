import ContextConfig.Proofs.Yaml.Numbers
import ContextConfig.Yaml.Graph
/-!
# Steps of the readers of nodes

All readers of nodes are put together from a few steps. How a scalar is written matters to none of
them but for its tag. What holds of the steps therefore holds of every reader, and it is shown here,
by the recursion of the readers, that there are no other steps.
-/

namespace ContextConfig.Yaml

/-- A scalar token that counts as plain only if its text is not just a text. -/
def Token.judged : Token → Token
  | scalar text plain => scalar text (plain && implicitTag textualRules text ≠ .str)
  | t => t

/-- What a tag stands for: its suffix, behind what its handle stands for if it has one. -/
inductive TagName.StandsFor (declared : List Char → List Char → Prop) : TagName → List Char → Prop where
  | complete {suffix : List Char} : StandsFor declared ⟨none, suffix⟩ suffix
  | short {handle start suffix : List Char} (h : declared handle start) :
    StandsFor declared ⟨some handle, suffix⟩ (start ++ suffix)

namespace Build

/-- Nothing is known of what is read. -/
abbrev Any {α : Type} : α → Prop := fun _ => True

/-- What a handle can stand for among safe tokens. -/
def Declared (safe : Token → Prop) (handle start : List Char) : Prop :=
  (handle, start) ∈ standardHandles ∨ safe (.tagDirective handle start)

/-- The complete tags among safe tokens. -/
def Tagged (safe : Token → Prop) (uri : List Char) : Prop :=
  ∃ name, safe (.tag name) ∧ name.StandsFor (Declared safe) uri

/-- The readers that are put together from steps, with what is known of what they read where the
tokens that they pass over are safe. The nodes that they make are good, and what follows a look at a
scalar token is the same if the token is judged first. -/
inductive Steps (safe : Token → Prop) (good : Node → Prop) : {α : Type} → (α → Prop) → Build α → Prop
  | pure {α : Type} {p : α → Prop} {a : α} (h : p a) : Steps safe good p (pure a)
  | malformed {α : Type} {p : α → Prop} : Steps safe good p malformed
  | bind {α β : Type} {p : α → Prop} {q : β → Prop} {x : Build α} {f : α → Build β}
      (hx : Steps safe good p x) (hf : ∀ a, p a → Steps safe good q (f a)) :
      Steps safe good q (x >>= f)
  | peek {α : Type} {p : α → Prop} {f : Token → Build α}
      (hjudged : ∀ text plain, f (Token.scalar text plain).judged = f (.scalar text plain))
      (hf : ∀ t, safe t → Steps safe good p (f t)) : Steps safe good p (peek >>= f)
  | skip : Steps safe good Any skip
  | add {node : Node} (h : good node) : Steps safe good Any (add node)
  | assign (id : NodeId) {node : Node} (h : good node) : Steps safe good Any (assign id node)
  | name (anchor : Option (List Char)) (id : NodeId) : Steps safe good Any (name anchor id)
  | aliased (name : List Char) : Steps safe good Any (aliased name)
  | completeTag {tagName : Option TagName} (h : ∀ name ∈ tagName, safe (.tag name)) :
      Steps safe good (fun tag => ∀ uri ∈ tag, Tagged safe uri) (completeTag tagName)
  | declare {handles : List (List Char × List Char)}
      (h : ∀ entry ∈ handles, Declared safe entry.1 entry.2) :
      Steps safe good Any (modify fun b => { b with handles := handles })
  | enter : Steps safe good Any enter
  | leave : Steps safe good Any leave

theorem scalarTag_judged (text : List Char) (plain : Bool) (tag : Option (List Char)) :
    scalarTag text (plain && implicitTag textualRules text ≠ .str) tag = scalarTag text plain tag := by
  by_cases htag : implicitTag textualRules text = .str
  · cases tag <;> cases plain <;> simp [scalarTag, htag]
  · simp [htag]

/-- Tokens that are safe make good nodes. -/
structure Makes (safe : Token → Prop) (good : Node → Prop) : Prop where
  empty {tag : Option (List Char)} (htag : ∀ uri ∈ tag, Tagged safe uri) :
    good (.scalar (scalarTag [] true tag) [])
  scalar {text : List Char} {plain : Bool} {tag : Option (List Char)} (h : safe (.scalar text plain))
    (htag : ∀ uri ∈ tag, Tagged safe uri) : good (.scalar (scalarTag text plain tag) text)
  sequence {tag : Option (List Char)} (htag : ∀ uri ∈ tag, Tagged safe uri) (items : List NodeId) :
    good (.sequence (collectionTag .seq tag) items)
  mapping {tag : Option (List Char)} (htag : ∀ uri ∈ tag, Tagged safe uri)
    (entries : List (NodeId × NodeId)) : good (.mapping (collectionTag .map tag) entries)

variable {safe : Token → Prop} {good : Node → Prop} {α β : Type} {p : α → Prop} {q : β → Prop}

theorem Steps.map {x : Build α} {f : α → β} (hx : Steps safe good p x) (hf : ∀ a, p a → q (f a)) :
    Steps safe good q (f <$> x) := by
  rw [map_eq_pure_bind]
  exact hx.bind fun a ha => .pure (hf a ha)

theorem steps_ite {c : Prop} [Decidable c] {x y : Build α} (hx : Steps safe good p x)
    (hy : Steps safe good p y) : Steps safe good p (if c then x else y) := by
  split
  · exact hx
  · exact hy

/-- The tag in front of a node is that of a safe token. -/
theorem steps_properties :
    Steps safe good (fun found => ∀ name ∈ found.2, safe (.tag name)) properties := by
  have hother : ∀ anchor : Option (List Char), Steps safe good
      (fun found => ∀ name ∈ found.2, safe (.tag name)) (pure (anchor, none)) := fun _ => .pure nofun
  refine .peek (fun _ _ => rfl) fun t ht => ?_
  split
  · refine Steps.skip.bind fun _ _ => .peek (fun _ _ => rfl) fun t ht => ?_
    split
    · exact Steps.skip.bind fun _ _ => .pure (by rintro name ⟨⟩; exact ht)
    · exact hother _
  · refine Steps.skip.bind fun _ _ => .peek (fun _ _ => rfl) fun t _ => ?_
    split
    · exact Steps.skip.bind fun _ _ => .pure (by rintro name ⟨⟩; exact ht)
    · exact .pure (by rintro name ⟨⟩; exact ht)
  · exact hother _

theorem steps_collection (anchor : Option (List Char)) {start : Node} {parts : Build Node}
    (hstart : good start) (hparts : Steps safe good good parts) :
    Steps safe good Any (collection anchor start parts) :=
  Steps.enter.bind fun _ _ => (Steps.add hstart).bind fun id _ => (Steps.name anchor id).bind fun _ _ =>
    hparts.bind fun _ hnode => (Steps.assign id hnode).bind fun _ _ => Steps.leave.bind fun _ _ =>
      .pure trivial

theorem steps_comma (first : Bool) : Steps safe good Any (comma first) := by
  unfold comma
  refine steps_ite (.pure trivial) (.peek (fun _ _ => rfl) fun t _ => ?_)
  split
  · exact .skip
  · exact .malformed

section Nodes

variable (hmakes : Makes safe good)
include hmakes

theorem steps_empty : Steps safe good Any empty := by
  have hgood : good (.scalar (scalarTag [] true none) []) := hmakes.empty nofun
  exact .add hgood

/-- The readers of nodes and of their parts, with the same fuel. -/
structure NodeSteps (safe : Token → Prop) (good : Node → Prop) (fuel : Nat) : Prop where
  node : ∀ block indentless, Steps safe good Any (node fuel block indentless)
  blockItems : Steps safe good Any (blockItems fuel)
  indentlessItems : Steps safe good Any (indentlessItems fuel)
  blockEntries : Steps safe good Any (blockEntries fuel)
  flowItems : ∀ first, Steps safe good Any (flowItems fuel first)
  flowEntries : ∀ first, Steps safe good Any (flowEntries fuel first)

variable {fuel : Nat}

theorem NodeSteps.blockItems_succ (h : NodeSteps safe good fuel) :
    Steps safe good Any (Build.blockItems (fuel + 1)) := by
  have hempty := steps_empty hmakes
  have hmore : ∀ item, Steps safe good Any (do return item :: (← Build.blockItems fuel)) :=
    fun item => h.blockItems.bind fun _ _ => .pure trivial
  rw [Build.blockItems]
  refine .peek (fun _ _ => rfl) fun t _ => ?_
  split
  · refine Steps.skip.bind fun _ _ => .peek (fun _ _ => rfl) fun t _ => ?_
    split
    · exact hempty.bind fun item _ => hmore item
    · exact hempty.bind fun item _ => hmore item
    · exact (h.node _ _).bind fun item _ => hmore item
  · exact Steps.skip.bind fun _ _ => .pure trivial
  · exact .malformed

theorem NodeSteps.indentlessItems_succ (h : NodeSteps safe good fuel) :
    Steps safe good Any (Build.indentlessItems (fuel + 1)) := by
  have hempty := steps_empty hmakes
  have hmore : ∀ item, Steps safe good Any (do return item :: (← Build.indentlessItems fuel)) :=
    fun item => h.indentlessItems.bind fun _ _ => .pure trivial
  rw [Build.indentlessItems]
  refine .peek (fun _ _ => rfl) fun t _ => ?_
  split
  · refine Steps.skip.bind fun _ _ => .peek (fun _ _ => rfl) fun t _ => ?_
    split
    · exact hempty.bind fun item _ => hmore item
    · exact hempty.bind fun item _ => hmore item
    · exact hempty.bind fun item _ => hmore item
    · exact hempty.bind fun item _ => hmore item
    · exact (h.node _ _).bind fun item _ => hmore item
  · exact .pure trivial

theorem NodeSteps.blockEntries_succ (h : NodeSteps safe good fuel) :
    Steps safe good Any (Build.blockEntries (fuel + 1)) := by
  have hempty := steps_empty hmakes
  rw [Build.blockEntries]
  refine .peek (fun _ _ => rfl) fun t _ => ?_
  split
  · refine Steps.skip.bind fun _ _ => .peek (fun _ _ => rfl) fun t _ => ?_
    extract_lets entry
    have hentry : ∀ key, Steps safe good Any (entry key) := by
      refine fun key => .peek (fun _ _ => rfl) fun t _ => ?_
      extract_lets more
      have hmore : ∀ value, Steps safe good Any (more value) := fun _ =>
        h.blockEntries.bind fun _ _ => .pure trivial
      split
      · refine Steps.skip.bind fun _ _ => .peek (fun _ _ => rfl) fun t _ => ?_
        exact steps_ite (hempty.bind fun value _ => hmore value)
          ((h.node _ _).bind fun value _ => hmore value)
      · exact hempty.bind fun value _ => hmore value
    exact steps_ite (hempty.bind fun key _ => hentry key)
      ((h.node _ _).bind fun key _ => hentry key)
  · exact Steps.skip.bind fun _ _ => .pure trivial
  · exact .malformed

theorem NodeSteps.flowItems_succ (h : NodeSteps safe good fuel) (first : Bool) :
    Steps safe good Any (Build.flowItems (fuel + 1) first) := by
  have hempty := steps_empty hmakes
  have hmore : ∀ item, Steps safe good Any (do return item :: (← Build.flowItems fuel false)) :=
    fun item => (h.flowItems _).bind fun _ _ => .pure trivial
  rw [Build.flowItems]
  refine .peek (fun _ _ => rfl) fun t _ => ?_
  split
  · exact Steps.skip.bind fun _ _ => .pure trivial
  · refine (steps_comma first).bind fun _ _ => .peek (fun _ _ => rfl) fun t _ => ?_
    split
    · exact Steps.skip.bind fun _ _ => .pure trivial
    · have hmapping : ∀ entries, good (.mapping (collectionTag .map none) entries) :=
        hmakes.mapping nofun
      refine (steps_collection none (hmapping []) ?_).bind fun item _ => hmore item
      refine Steps.skip.bind fun _ _ => .peek (fun _ _ => rfl) fun t _ => ?_
      extract_lets entry
      have hentry : ∀ key, Steps safe good good (entry key) := by
        refine fun key => .peek (fun _ _ => rfl) fun t _ => ?_
        extract_lets pair
        have hpair : ∀ value, Steps safe good good (pair value) := fun _ => .pure (hmapping _)
        split
        · refine Steps.skip.bind fun _ _ => .peek (fun _ _ => rfl) fun t _ => ?_
          split
          · exact hempty.bind fun value _ => hpair value
          · exact hempty.bind fun value _ => hpair value
          · exact (h.node _ _).bind fun value _ => hpair value
        · exact hempty.bind fun value _ => hpair value
      split
      · exact hempty.bind fun key _ => hentry key
      · exact hempty.bind fun key _ => hentry key
      · exact hempty.bind fun key _ => hentry key
      · exact (h.node _ _).bind fun key _ => hentry key
    · exact (h.node _ _).bind fun item _ => hmore item

theorem NodeSteps.flowEntries_succ (h : NodeSteps safe good fuel) (first : Bool) :
    Steps safe good Any (Build.flowEntries (fuel + 1) first) := by
  have hempty := steps_empty hmakes
  have hmore : ∀ key value,
      Steps safe good Any (do return (key, value) :: (← Build.flowEntries fuel false)) :=
    fun key value => (h.flowEntries _).bind fun _ _ => .pure trivial
  rw [Build.flowEntries]
  refine .peek (fun _ _ => rfl) fun t _ => ?_
  split
  · exact Steps.skip.bind fun _ _ => .pure trivial
  · refine (steps_comma first).bind fun _ _ => .peek (fun _ _ => rfl) fun t _ => ?_
    split
    · exact Steps.skip.bind fun _ _ => .pure trivial
    · refine Steps.skip.bind fun _ _ => .peek (fun _ _ => rfl) fun t _ => ?_
      extract_lets entry
      have hentry : ∀ key, Steps safe good Any (entry key) := by
        refine fun key => .peek (fun _ _ => rfl) fun t _ => ?_
        extract_lets more
        have hvalue : ∀ value, Steps safe good Any (more value) := fun value => hmore key value
        split
        · refine Steps.skip.bind fun _ _ => .peek (fun _ _ => rfl) fun t _ => ?_
          split
          · exact hempty.bind fun value _ => hvalue value
          · exact hempty.bind fun value _ => hvalue value
          · exact (h.node _ _).bind fun value _ => hvalue value
        · exact hempty.bind fun value _ => hvalue value
      split
      · exact hempty.bind fun key _ => hentry key
      · exact hempty.bind fun key _ => hentry key
      · exact hempty.bind fun key _ => hentry key
      · exact (h.node _ _).bind fun key _ => hentry key
    · exact (h.node _ _).bind fun key _ => hempty.bind fun value _ => hmore key value

theorem NodeSteps.node_succ (h : NodeSteps safe good fuel) (block indentless : Bool) :
    Steps safe good Any (Build.node (fuel + 1) block indentless) := by
  have hscalar : ∀ (anchor : Option (List Char)) {node : Node}, good node →
      Steps safe good Any (do
        let id ← add node
        name anchor id
        return id) := fun anchor _ hnode =>
    (Steps.add hnode).bind fun id _ => (Steps.name anchor id).bind fun _ _ => .pure trivial
  rw [Build.node]
  refine .peek (fun _ _ => rfl) fun t _ => ?_
  split
  · exact Steps.skip.bind fun _ _ => .aliased _
  · refine steps_properties.bind fun ⟨anchor, tagName⟩ hname => ?_
    refine (Steps.completeTag hname).bind fun tag htag => .peek ?judged fun t ht => ?step
    case step =>
      split
      · exact steps_collection _ (hmakes.sequence htag _)
          (h.indentlessItems.map fun items _ => hmakes.sequence htag items)
      · exact Steps.skip.bind fun _ _ => hscalar anchor (hmakes.scalar ht htag)
      · exact Steps.skip.bind fun _ _ => steps_collection _ (hmakes.sequence htag _)
          ((h.flowItems _).map fun items _ => hmakes.sequence htag items)
      · exact Steps.skip.bind fun _ _ => steps_collection _ (hmakes.mapping htag _)
          ((h.flowEntries _).map fun entries _ => hmakes.mapping htag entries)
      · exact Steps.skip.bind fun _ _ => steps_collection _ (hmakes.sequence htag _)
          (h.blockItems.map fun items _ => hmakes.sequence htag items)
      · exact Steps.skip.bind fun _ _ => steps_collection _ (hmakes.mapping htag _)
          (h.blockEntries.map fun entries _ => hmakes.mapping htag entries)
      · exact steps_ite .malformed (hscalar anchor (hmakes.empty htag))
    case judged =>
      -- The only reader that looks at how a scalar is written, and only for its tag.
      intro text plain
      simp only [Token.judged, scalarTag_judged]

theorem nodeSteps (fuel : Nat) : NodeSteps safe good fuel := by
  induction fuel with
  | zero =>
    refine ⟨fun _ _ => ?_, ?_, ?_, ?_, fun _ => ?_, fun _ => ?_⟩
    all_goals exact .malformed
  | succ fuel ih =>
    exact ⟨ih.node_succ hmakes, ih.blockItems_succ hmakes, ih.indentlessItems_succ hmakes,
      ih.blockEntries_succ hmakes, ih.flowItems_succ hmakes, ih.flowEntries_succ hmakes⟩

end Nodes

theorem steps_directives {handles : List (List Char × List Char)}
    (hhandles : ∀ entry ∈ handles, safe (.tagDirective entry.1 entry.2)) (fuel : Nat) (versioned : Bool) :
    Steps safe good Any (directives fuel versioned handles) := by
  induction fuel generalizing versioned handles with
  | zero => exact .malformed
  | succ fuel ih =>
    rw [directives]
    refine .peek (fun _ _ => rfl) fun t ht => ?_
    split
    · exact Steps.skip.bind fun _ _ => steps_ite .malformed (ih hhandles _)
    · exact Steps.skip.bind fun _ _ => steps_ite .malformed
        (ih (List.forall_mem_cons.mpr ⟨ht, hhandles⟩) _)
    · exact Steps.skip.bind fun _ _ => ih hhandles _
    · refine .declare (List.forall_mem_append.mpr ⟨?_, ?_⟩)
      · exact fun entry hentry => .inr (hhandles entry hentry)
      · exact fun entry hentry => .inl hentry

theorem steps_documentEnds (fuel : Nat) : Steps safe good Any (documentEnds fuel) := by
  induction fuel with
  | zero => exact .pure trivial
  | succ fuel ih =>
    rw [documentEnds]
    refine .peek (fun _ _ => rfl) fun t _ => ?_
    split
    · exact Steps.skip.bind fun _ _ => ih
    · exact .pure trivial

/-- A document is only read to its end where the text ends. -/
theorem steps_document (hmakes : Makes safe good) (fuel : Nat) :
    Steps safe good (fun _ => safe .streamEnd) (document fuel) := by
  have hdirectives : Steps safe good Any (directives fuel false []) := steps_directives nofun _ _
  have hend : ∀ root : NodeId, Steps safe good (fun _ => safe .streamEnd) (do
      documentEnds fuel
      if (← peek) = .streamEnd then return some root
      else
        directives fuel false []
        malformed) := by
    refine fun root => (steps_documentEnds fuel).bind fun _ _ => .peek (fun _ _ => rfl) fun t ht => ?_
    split
    · rename_i heq
      exact .pure (heq ▸ ht)
    · exact hdirectives.bind fun _ _ => .malformed
  have hnode : Steps safe good Any (node fuel true false) := (nodeSteps hmakes fuel).node _ _
  unfold document
  refine .peek (fun _ _ => rfl) fun t ht => ?_
  split
  · rename_i heq
    exact .pure (heq ▸ ht)
  · refine steps_ite ?_ ?_
    · refine hdirectives.bind fun _ _ => .peek (fun _ _ => rfl) fun t _ => ?_
      refine steps_ite ?_ ?_
      · exact Steps.bind (p := Any) .malformed fun root _ => hend root
      · refine Steps.skip.bind fun _ _ => .peek (fun _ _ => rfl) fun t _ => ?_
        exact steps_ite ((steps_empty hmakes).bind fun root _ => hend root)
          (hnode.bind fun root _ => hend root)
    · exact hdirectives.bind fun _ _ => hnode.bind fun root _ => hend root

end Build
end ContextConfig.Yaml
