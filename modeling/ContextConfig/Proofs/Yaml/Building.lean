import ContextConfig.Proofs.Yaml.Lexing
import ContextConfig.Proofs.Yaml.Steps
/-!
# Nodes of safe tokens

The readers of nodes pass over safe tokens and make good nodes, and so does every step of them. From
tokens that ask for no value that does not exist they make nodes that have values, or no values at
all. Reading ends with a graph, or finds the text malformed or nested too deeply.
-/

namespace ContextConfig.Yaml

/-- A node that asks for no value that does not exist. -/
def Node.IsSafe : Node → Prop
  | scalar tag text => Regular (fun value => value.key ≠ .unshowable) (Value.ofText tag text)
  | sequence .. => True
  | mapping tag _ => tag.isUncertain = false

namespace Build

variable {safe : Token → Prop} {good : Node → Prop} {α β : Type} {p : α → Prop} {q : β → Prop}

/-- Only safe tokens are left, and the nodes so far are good. -/
structure Good (safe : Token → Prop) (good : Node → Prop) (b : Builder) : Prop where
  tokens : ∀ t ∈ b.tokens, safe t
  ending : b.ending = .malformed ∨ b.ending = .fault .tooNested
  nodes : ∀ node ∈ b.nodes, good node
  handles : ∀ entry ∈ b.handles, Declared safe entry.1 entry.2

/-- A reader that does not fault on safe tokens, and what is known of what it reads. -/
def Sound {α : Type} (safe : Token → Prop) (good : Node → Prop) (p : α → Prop) (x : Build α) : Prop :=
  ∀ b, Good safe good b → Regular (fun r => p r.1 ∧ Good safe good r.2) (x b)

theorem sound_pure {a : α} (h : p a) : Sound safe good p (pure a) := fun _ hb => .ok ⟨h, hb⟩

theorem sound_malformed : Sound safe good p malformed := fun _ _ => .malformed

theorem Sound.bind {x : Build α} {f : α → Build β} (hx : Sound safe good p x)
    (hf : ∀ a, p a → Sound safe good q (f a)) : Sound safe good q (x >>= f) :=
  fun b hb => (hx b hb).bind fun r hr => hf r.1 hr.1 r.2 hr.2

theorem sound_get : Sound safe good (Good safe good) get := fun _ hb => .ok ⟨hb, hb⟩

theorem sound_set {b : Builder} (h : Good safe good b) : Sound safe good Any (set b) :=
  fun _ _ => .ok ⟨trivial, h⟩

theorem sound_peek : Sound safe good safe peek := by
  refine sound_get.bind fun b hb => ?_
  split
  · rename_i htokens
    exact sound_pure (hb.tokens _ (by rw [htokens]; exact List.mem_cons_self))
  · intro b' _
    obtain hending | hending := hb.ending
    · rw [hending]
      exact .malformed
    · rw [hending]
      exact .tooNested

theorem sound_skip : Sound safe good Any skip := fun _ hb =>
  .ok ⟨trivial, fun t ht => hb.tokens t (List.mem_of_mem_drop ht), hb.ending, hb.nodes, hb.handles⟩

theorem sound_add {node : Node} (h : good node) : Sound safe good Any (add node) := by
  refine sound_get.bind fun b hb => (sound_set ?_).bind fun _ _ => sound_pure trivial
  refine ⟨hb.tokens, hb.ending, fun other hother => ?_, hb.handles⟩
  obtain hother | rfl := Array.mem_push.mp hother
  · exact hb.nodes other hother
  · exact h

theorem sound_assign (id : NodeId) {node : Node} (h : good node) :
    Sound safe good Any (assign id node) := by
  intro b hb
  refine .ok ⟨trivial, hb.tokens, hb.ending, fun other hother => ?_, hb.handles⟩
  obtain hother | rfl := Array.mem_or_eq_of_mem_setIfInBounds hother
  · exact hb.nodes other hother
  · exact h

theorem sound_name (anchor : Option (List Char)) (id : NodeId) :
    Sound safe good Any (name anchor id) := by
  unfold name
  split
  · exact sound_pure trivial
  · refine sound_get.bind fun b hb => ?_
    split
    · exact sound_malformed
    · exact sound_set ⟨hb.tokens, hb.ending, hb.nodes, hb.handles⟩

theorem sound_aliased (name : List Char) : Sound safe good Any (aliased name) := by
  refine sound_get.bind fun b _ => ?_
  split
  · exact sound_pure trivial
  · exact sound_malformed

theorem sound_completeTag {tagName : Option TagName} (h : ∀ name ∈ tagName, safe (.tag name)) :
    Sound safe good (fun tag => ∀ uri ∈ tag, Tagged safe uri) (completeTag tagName) := by
  unfold completeTag
  split
  · exact sound_pure nofun
  · exact sound_pure (by rintro uri ⟨⟩; exact ⟨_, h _ rfl, .complete⟩)
  · refine sound_get.bind fun b hb => ?_
    split
    · rename_i hfound
      have hdeclared := hb.handles _ (List.mem_of_find?_eq_some hfound)
      have hhandle := List.find?_some hfound
      rw [decide_eq_true_eq] at hhandle
      subst hhandle
      exact sound_pure (by rintro uri ⟨⟩; exact ⟨_, h _ rfl, .short hdeclared⟩)
    · exact sound_malformed

theorem sound_enter : Sound safe good Any enter := by
  refine sound_get.bind fun b hb => ?_
  split
  · exact fun _ _ => .tooNested
  · exact sound_set ⟨hb.tokens, hb.ending, hb.nodes, hb.handles⟩

/-- A reader does not fault if none of its steps does. -/
theorem Steps.sound {x : Build α} (h : Steps safe good p x) : Sound safe good p x := by
  induction h with
  | pure h => exact sound_pure h
  | malformed => exact sound_malformed
  | bind _ _ ihx ihf => exact ihx.bind ihf
  | peek _ _ ihf => exact sound_peek.bind ihf
  | skip => exact sound_skip
  | add h => exact sound_add h
  | assign id h => exact sound_assign id h
  | name anchor id => exact sound_name anchor id
  | aliased name => exact sound_aliased name
  | completeTag h => exact sound_completeTag h
  | declare h => exact fun _ hb => .ok ⟨trivial, hb.tokens, hb.ending, hb.nodes, h⟩
  | enter => exact sound_enter
  | leave => exact fun _ hb => .ok ⟨trivial, hb.tokens, hb.ending, hb.nodes, hb.handles⟩

end Build

open Build

/-- Tokens that ask for no value that does not exist. -/
structure Certain (tokens : List Token) : Prop where
  inner : ∀ t ∈ tokens, t.IsInner ∨ t = .streamEnd
  times : ∀ text, .scalar text true ∈ tokens → ¬ IsImpossible text
  tags : ∀ uri, Tagged (· ∈ tokens) uri → ¬ IsUncertainUri uri

namespace Certain

variable {tokens : List Token}

/-- The standard tag of a collection stands, or a tag that is certain. -/
theorem isUncertain_collectionTag (h : Certain tokens) {tag : Option (List Char)}
    (htag : ∀ uri ∈ tag, Tagged (· ∈ tokens) uri) {standard : Tag}
    (hstandard : standard.isUncertain = false) :
    (collectionTag standard tag).isUncertain = false := by
  rw [collectionTag]
  split
  · exact hstandard
  · rename_i hopen
    cases tag with
    | none => exact absurd rfl hopen
    | some uri => exact eq_false_of_ne_true fun h' => h.tags uri (htag uri rfl) (.inr h')

theorem regular_scalarTag (h : Certain tokens) {tag : Option (List Char)}
    (htag : ∀ uri ∈ tag, Tagged (· ∈ tokens) uri) {text : List Char} {plain : Bool}
    (hplain : plain = true → Regular (fun value => value.key ≠ .unshowable)
      (Value.ofText (implicitTag textualRules text) text)) :
    Regular (fun value => value.key ≠ .unshowable)
      (Value.ofText (scalarTag text plain tag) text) := by
  cases tag with
  | none =>
    cases plain with
    | true => exact hplain rfl
    | false => exact .ok nofun
  | some uri =>
    have hcertain := h.tags uri (htag uri rfl)
    have hjudged : uri ≠ ['!'] := fun heq => hcertain (.inl heq)
    have huri : (Tag.ofUri uri).isUncertain = false :=
      eq_false_of_ne_true fun h' => hcertain (.inr h')
    simpa [scalarTag, hjudged] using Tag.regular_ofText huri text

theorem makes (h : Certain tokens) : Makes (· ∈ tokens) Node.IsSafe where
  empty htag := h.regular_scalarTag htag fun _ => regular_ofText (by decide) fun h => absurd h.1 (by decide)
  scalar {text plain tag} ht htag := by
    refine h.regular_scalarTag htag ?_
    rintro rfl
    obtain htrimmed | hend := h.inner _ ht
    · exact regular_ofText htrimmed (h.times text ht)
    · cases hend
  sequence _ _ := trivial
  mapping htag _ := h.isUncertain_collectionTag htag rfl

end Certain

/-- What is read from safe tokens are good nodes, as far as reading comes to the end of the text. -/
theorem Graph.regular_ofTokens {safe : Token → Prop} {good : Node → Prop} (hmakes : Makes safe good)
    {tokens : List Token} (h : ∀ t ∈ tokens, safe t) {ending : Option Stop}
    (hending : ∀ stop ∈ ending, stop = .malformed ∨ stop = .fault .tooNested) (room : Nat) :
    Regular (fun graph => safe .streamEnd ∧ ∀ node ∈ graph.nodes, good node)
      (Graph.ofTokens room tokens ending) := by
  have hstop : ending.getD .malformed = .malformed ∨ ending.getD .malformed = .fault .tooNested := by
    cases ending with
    | none => exact .inl rfl
    | some stop => exact hending stop rfl
  have hbuild := (steps_document hmakes (2 * tokens.length + 4)).sound
    { room, tokens, ending := ending.getD .malformed } ⟨h, hstop, by simp, nofun⟩
  exact hbuild.bind fun r hr => .ok ⟨hr.1, hr.2.nodes⟩

end ContextConfig.Yaml
