import ContextConfig.Proofs.Yaml.Scalar
import ContextConfig.Yaml.Token
/-!
# Files written by hand

A hand that writes a file need not be as careful as the writer: it may leave some texts bare that
the writer puts in quotes, as long as they are single words and are read as texts. All else is
written as the writer does it, who is himself the hand that leaves nothing bare.
-/

namespace ContextConfig.Yaml

open Writer

/-- Which texts are left bare, all of which can be. -/
structure Hand where
  leaves : List Char → Bool
  opens {text : List Char} (h : leaves text = true) : Opens text
  isWord {text : List Char} (h : leaves text = true) : Plain.IsWord text
  textual {text : List Char} (h : leaves text = true) : implicitTag textualRules text = .str

namespace Hand

/-- The writer leaves nothing bare. -/
def writer : Hand := ⟨fun _ => false, nofun, nofun, nofun⟩

variable (hand : Hand)

/-- A text that starts at a column. -/
def scalar (simpleKey : Bool) (indent column : Nat) (text : List Char) : List Char :=
  if hand.leaves text then text else Writer.scalar .str simpleKey indent column text

/-- An entry that starts at column `indent`. -/
def entry (indent : Nat) (key : Key) (value : Nat → Bool → List Char) : List Char :=
  if isSimpleKey (keyChars key) then
    let name := hand.scalar true indent indent (keyChars key)
    name ++ ':' :: value (indent + name.length + 1) false
  else
    '?' :: ' ' :: hand.scalar false (indent + 2) (indent + 2) (keyChars key) ++ newLine indent
      ++ ':' :: value (indent + 1) true

mutual

/-- A value after a colon, in a mapping at `indent`. -/
def value (indent column : Nat) (complexKey : Bool) : Document → List Char
  | .null | .other _ => " null".toList
  | .bool flag => ' ' :: (if flag then "true" else "false").toList
  | .text text => ' ' :: hand.scalar false (indent + 2) (column + 1) text.toList
  | .mapping [] => [' ', '\x7b', '\x7d']
  | .mapping ((key, first) :: rest) =>
    (if complexKey then [' '] else newLine (indent + 2))
      ++ hand.entry (indent + 2) key
        (fun column complexKey => value (indent + 2) column complexKey first)
      ++ entries (indent + 2) rest

/-- The entries after the first one. -/
def entries (indent : Nat) : List (Key × Document) → List Char
  | [] => []
  | (key, document) :: rest =>
    newLine indent
      ++ hand.entry indent key (fun column complexKey => value indent column complexKey document)
      ++ entries indent rest

end

/-- A document as text. -/
def write : Document → List Char
  | .mapping ((key, first) :: rest) =>
    hand.entry 0 key (fun column complexKey => hand.value 0 column complexKey first)
      ++ hand.entries 0 rest ++ ['\n']
  | _ => ['\x7b', '\x7d', '\n']

section Writer

theorem scalar_writer : writer.scalar = Writer.scalar .str := by
  funext simpleKey indent column text
  exact if_neg Bool.false_ne_true

theorem entry_writer : writer.entry = Writer.entry := by
  funext indent key value
  simp only [entry, Writer.entry, scalar_writer]

mutual

theorem value_writer (indent column : Nat) (complexKey : Bool) : (document : Document) →
    writer.value indent column complexKey document = Writer.value indent column complexKey document
  | .null | .other _ | .mapping [] => by rw [value, Writer.value]
  | .bool true | .bool false => by
    rw [value, Writer.value]
    rfl
  | .text text => by rw [value, Writer.value, scalar_writer]
  | .mapping ((key, first) :: rest) => by
    have hfirst (column : Nat) (complexKey : Bool) :=
      value_writer (indent + 2) column complexKey first
    rw [value, Writer.value, entry_writer, entries_writer (indent + 2) rest]
    simp only [hfirst]

theorem entries_writer (indent : Nat) : (entries : List (Key × Document)) →
    writer.entries indent entries = Writer.entries indent entries
  | [] => rfl
  | (key, document) :: rest => by
    have hvalue (column : Nat) (complexKey : Bool) := value_writer indent column complexKey document
    rw [entries, Writer.entries, entry_writer, entries_writer indent rest]
    simp only [hvalue]

end

/-- What the writer's hand writes is what the writer writes. -/
theorem write_writer : (document : Document) → writer.write document = Writer.write document
  | .mapping ((key, first) :: rest) => by
    simp only [write, Writer.write, value_writer, entries_writer, entry_writer]
  | .null | .other _ | .bool _ | .text _ | .mapping [] => by simp only [write, Writer.write]

end Writer

section Written

variable {hand} {text : List Char}

theorem graphic_of_leaves (h : hand.leaves text = true) : ∀ x ∈ text, IsGraphic x :=
  (hand.isWord h).graphic

variable (hand)

theorem spelled_of_writer {indent simple column : Nat} {simpleKey : Bool}
    (h : Spelled indent (Writer.scalar .str simpleKey simple column text) text
      (style .str text = .plain)) :
    Spelled indent (hand.scalar simpleKey simple column text) text
      (style .str text = .plain || hand.leaves text) := by
  rw [scalar]
  split
  case isTrue hleaves =>
    rw [hleaves, Bool.or_true]
    exact .plain (hand.opens hleaves) (.word (hand.isWord hleaves))
  case isFalse hleaves =>
    rw [Bool.not_eq_true] at hleaves
    rw [hleaves, Bool.or_false]
    exact h

/-- A text is written in one of its forms. -/
theorem spelled_scalar {indent : Nat} (hindent : 0 < indent ∧ indent < width) (column : Nat)
    (text : List Char) : Spelled indent (hand.scalar false indent column text) text
      (style .str text = .plain || hand.leaves text) :=
  hand.spelled_of_writer (Yaml.spelled_scalar hindent column text)

theorem spelled_simpleKey (n indent column : Nat) (hline : isMultiline text = false) :
    Spelled n (hand.scalar true indent column text) text
      (style .str text = .plain || hand.leaves text) :=
  hand.spelled_of_writer (Yaml.spelled_simpleKey n indent column hline)

theorem printable_simpleKey (indent column : Nat) (hline : isMultiline text = false) :
    ∀ x ∈ hand.scalar true indent column text, IsPrintable x := by
  rw [scalar]
  split
  case isTrue h => exact fun x hx => (graphic_of_leaves h x hx).1
  case isFalse => exact Yaml.printable_simpleKey hline

theorem ordinary_scalar (simpleKey : Bool) (indent column : Nat) (text : List Char) :
    ∀ x ∈ hand.scalar simpleKey indent column text, isOrdinary x = true := by
  rw [scalar]
  split
  case isTrue h => exact fun x hx => isOrdinary_iff.mpr (.inr (graphic_of_leaves h x hx).1)
  case isFalse => exact Yaml.ordinary_scalar _ _ _ _ _

end Written

section Lengths

variable {hand} {text : List Char}

theorem anyPair_of_forall {p q : Char → Bool} (h : ∀ x ∈ text, p x = false) :
    anyPair p q text = false := by
  induction text with
  | nil => rfl
  | cons x text ih =>
    rw [List.forall_mem_cons] at h
    cases text with
    | nil => rfl
    | cons y text => rw [anyPair, h.1, Bool.false_and, Bool.false_or, ih h.2]

/-- Single quotes would do for a text that is left bare. -/
theorem allowsSingle_of_leaves (h : hand.leaves text = true) : allowsSingle text = true := by
  have hgraphic := graphic_of_leaves h
  refine Quoted.allowsSingle_iff.mpr ⟨?_, anyPair_of_forall ?_, anyPair_of_forall ?_⟩
  · exact fun x hx => isOrdinary_iff.mpr (.inr (hgraphic x hx).1)
  · intro x hx
    have hprintable := (hgraphic x hx).1
    simp [isTextBreak, hprintable.ne (show ¬ IsPrintable '\n' by decide),
      hprintable.ne (show ¬ IsPrintable '\x85' by decide),
      hprintable.ne (show ¬ IsPrintable '\u2028' by decide),
      hprintable.ne (show ¬ IsPrintable '\u2029' by decide)]
  · exact fun x hx => decide_eq_false (hgraphic x hx).2

/-- Quotes make a text that could be left bare twice as long at most. -/
theorem length_scalar_of_leaves (h : hand.leaves text = true) (indent column : Nat) :
    (Writer.scalar .str true indent column text).length ≤ 2 * text.length + 2 := by
  obtain ⟨hstyle, -⟩ | ⟨hstyle, -⟩ | hstyle := style_cases .str text
  · have hbare : Writer.scalar .str true indent column text = text := by
      rw [Writer.scalar, hstyle]
      rfl
    rw [hbare]
    omega
  · have hdoubled := length_doubled_le text
    have hquoted : Writer.scalar .str true indent column text
        = '\x27' :: (text.flatMap fun c => if c = '\x27' then [c, c] else [c]) ++ ['\x27'] := by
      rw [Writer.scalar, hstyle]
      rfl
    rw [hquoted, List.cons_append, List.length_cons, List.length_append, List.length_singleton]
    omega
  · rw [style, allowsSingle_of_leaves h] at hstyle
    split at hstyle <;> cases hstyle

end Lengths

/-- The token of a scalar, which is plain also if the hand leaves its text bare. -/
def token : Token → Token
  | .scalar text plain => .scalar text (plain || hand.leaves text)
  | t => t

end Hand
end ContextConfig.Yaml
