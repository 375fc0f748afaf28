import ContextConfig.Proofs.Yaml.Cursor
import ContextConfig.Yaml.Token.Property
import ContextConfig.Yaml.Token.Scalar
import Mathlib.Data.List.Infix
import Mathlib.Data.List.TakeWhile
/-!
# Readers that do not fault

A reader moves on in its text. It gives a token or says that the text is malformed, unless the text
spells a character code beyond the last one or a version with more digits than can be converted. The
one fault that is left to the readers of nodes is a nesting that is too deep.
-/

namespace ContextConfig.Yaml

/-- What is read has a property, or the text is malformed or nested too deeply. -/
inductive Regular {α : Type} (p : α → Prop) : Except Stop α → Prop where
  | ok {a : α} (h : p a) : Regular p (.ok a)
  | malformed : Regular p (.error .malformed)
  | tooNested : Regular p (.error (.fault .tooNested))

section Regular

variable {α β : Type} {p : α → Prop} {q : β → Prop} {x : Except Stop α}

theorem Regular.of_ok {a : α} (h : Regular p (.ok a)) : p a := by
  cases h with
  | ok h => exact h

theorem Regular.of_error {stop : Stop} (h : Regular p (.error stop)) :
    stop = .malformed ∨ stop = .fault .tooNested := by
  cases h with
  | malformed => exact .inl rfl
  | tooNested => exact .inr rfl

theorem Regular.bind {f : α → Except Stop β} (hx : Regular p x) (hf : ∀ a, p a → Regular q (f a)) :
    Regular q (x >>= f) := by
  cases hx with
  | ok h => exact hf _ h
  | malformed => exact .malformed
  | tooNested => exact .tooNested

theorem Regular.map {f : α → β} (hx : Regular p x) (hf : ∀ a, p a → q (f a)) : Regular q (x.map f) := by
  cases hx with
  | ok h => exact .ok (hf _ h)
  | malformed => exact .malformed
  | tooNested => exact .tooNested

theorem regular_ite {c : Prop} [Decidable c] {y : Except Stop α} (hx : c → Regular p x)
    (hy : ¬ c → Regular p y) : Regular p (if c then x else y) := by
  split
  · exact hx ‹_›
  · exact hy ‹_›

theorem Regular.mono {p' : α → Prop} (hx : Regular p x) (h : ∀ a, p a → p' a) : Regular p' x := by
  cases hx with
  | ok hp => exact .ok (h _ hp)
  | malformed => exact .malformed
  | tooNested => exact .tooNested

end Regular

/-- A text with a number that is too large. -/
inductive Excessive (text : List Char) : Prop where
  /-- There is an escape for a code of no character. -/
  | code {digits : List Char} {code : Nat} (h : '\\' :: 'U' :: digits <:+: text)
    (hlength : digits.length = 8) (hcode : Text.hexNumber? digits = some code)
    (hlarge : 0x110000 ≤ code)
  /-- There is a version with too many digits on one side of its point. -/
  | version {spaces major digits : List Char}
    (h : "%YAML".toList ++ (spaces ++ (major ++ digits)) <:+: text) (hspaces : ∀ c ∈ spaces, c = ' ')
    (hmajor : major = [] ∨ ∃ number, (∀ c ∈ number, c.isDigit = true) ∧ major = number ++ ['.'])
    (hdigits : ∀ c ∈ digits, c.isDigit = true) (hlong : Directive.maxDigits < digits.length)

/-- A place in a text. -/
def Within (text : List Char) (c : Cursor) : Prop := c.rest <:+ text

section Places

variable {text : List Char} {c : Cursor}

theorem Within.next (h : Within text c) : Within text c.next := by
  rw [Within, Cursor.rest_next]
  exact (List.tail_suffix _).trans h

theorem Within.skip (h : Within text c) (n : Nat) : Within text (c.skip n) := by
  rw [Within, Cursor.rest_skip]
  exact (List.drop_suffix n _).trans h

theorem Within.span (h : Within text c) (p : Char → Bool) : Within text (c.span p).2 := h.skip _

theorem Within.skipWhile (h : Within text c) (p : Char → Bool) : Within text (c.skipWhile p) := h.span p

theorem Within.skipSpaces (h : Within text c) : Within text c.skipSpaces := h.skipWhile _

theorem Within.lineBreak (h : Within text c) : Within text c.lineBreak.2 := by
  unfold Cursor.lineBreak
  split
  · exact h.skip 2
  · split
    · exact h.next
    · split
      · exact h.next
      · exact h
  · exact h

theorem Within.skipComment (h : Within text c) : Within text c.skipComment := by
  unfold Cursor.skipComment
  split
  · exact h.skipWhile _
  · exact h

theorem exists_rest {x : Char} (h : c.peek = x) (hx : x ≠ '\x00') : ∃ rest, c.rest = x :: rest := by
  subst h
  cases hrest : c.rest with
  | nil =>
    rw [Cursor.peek, hrest] at hx
    exact absurd rfl hx
  | cons y rest => exact ⟨rest, by rw [Cursor.peek_eq hrest]⟩

end Places

section Plain

variable {text : List Char} {c : Cursor}

theorem Within.plainBreaks (h : Within text c) (fuel : Nat) : Within text (Plain.breaks fuel c).2 := by
  induction fuel generalizing c with
  | zero => exact h
  | succ fuel ih =>
    rw [Plain.breaks]
    split
    · exact ih h.next
    · split
      · dsimp only
        split
        · exact h.lineBreak
        · exact ih h.lineBreak
      · exact h

theorem Within.plainSpace (h : Within text c) : Within text (Plain.space c).2.1 := by
  unfold Plain.space
  dsimp only
  split
  · split
    · exact (h.span _).lineBreak
    · have hbreaks := (h.span (· = ' ')).lineBreak.plainBreaks
        ((c.span (· = ' ')).2.lineBreak.2.rest.length + 1)
      split
      · rename_i heq
        rw [heq] at hbreaks
        exact hbreaks
      · rename_i heq
        rw [heq] at hbreaks
        exact hbreaks
  · exact h.span _

theorem Within.plainRead (h : Within text c) (flow : Bool) (indent : Int) (fuel : Nat) :
    Within text (Plain.read flow indent fuel c).2.1 := by
  induction fuel generalizing c with
  | zero => exact h
  | succ fuel ih =>
    rw [Plain.read]
    split
    · exact h
    · dsimp only
      have hspace := (h.skip (Plain.word flow c.rest).length).plainSpace
      split
      · exact hspace
      · split
        · exact hspace
        · exact ih hspace

end Plain

section Codes

theorem hexValue?_lt {c : Char} {value : Nat} (h : Text.hexValue? c = some value) : value < 16 := by
  unfold Text.hexValue? at h
  simp only [Bool.and_eq_true, decide_eq_true_eq, Char.le_def, UInt32.le_iff_toNat_le] at h
  have hnat : c.toNat = c.val.toNat := rfl
  split at h
  · rename_i hrange
    cases h
    have := hrange.2
    change c.val.toNat ≤ 57 at this
    omega
  · split at h
    · rename_i hrange
      cases h
      have := hrange.2
      change c.val.toNat ≤ 102 at this
      omega
    · split at h
      · rename_i hrange
        cases h
        have := hrange.2
        change c.val.toNat ≤ 70 at this
        omega
      · cases h

theorem hexNumber?_lt {digits : List Char} {code : Nat} (h : Text.hexNumber? digits = some code) :
    code < Nat.pow 16 digits.length := by
  have hfold : ∀ (digits : List Char) (start : Nat),
      digits.foldlM (fun value c => (Text.hexValue? c).map (value * 16 + ·)) start = some code →
      code < (start + 1) * Nat.pow 16 digits.length := by
    intro digits
    induction digits with
    | nil =>
      intro start h
      cases h
      simp
    | cons c digits ih =>
      intro start h
      rw [List.foldlM_cons] at h
      obtain ⟨next, hnext, h⟩ := Option.bind_eq_some_iff.mp h
      obtain ⟨value, hvalue, rfl⟩ := Option.map_eq_some_iff.mp hnext
      have hsmall := hexValue?_lt hvalue
      refine Nat.lt_of_lt_of_le (ih _ h) ?_
      rw [List.length_cons, show Nat.pow 16 (digits.length + 1) = 16 * Nat.pow 16 digits.length from
        Nat.mul_comm _ _, ← Nat.mul_assoc]
      exact Nat.mul_le_mul_right _ (by omega)
  simpa using hfold digits 0 h

theorem regular_charOfCode {code : Nat} (h : code < 0x110000) :
    Regular (fun _ => True) (Quoted.charOfCode code) := by
  unfold Quoted.charOfCode
  rw [if_neg (by omega), if_neg (by omega)]
  split <;> exact .ok trivial

end Codes

section Quoted

variable {text : List Char} {c : Cursor}

/-- What is read leads to a place in the text. -/
def Reads {α : Type} (text : List Char) (x : Read α) : Prop := Regular (fun r => Within text r.2) x

theorem reads_quotedBreaks (h : Within text c) (fuel : Nat) : Reads text (Quoted.breaks fuel c) := by
  induction fuel generalizing c with
  | zero => exact .ok h
  | succ fuel ih =>
    rw [Quoted.breaks]
    split
    · exact .malformed
    · dsimp only
      split
      · exact (ih (h.skipWhile _).lineBreak).map fun _ hr => hr
      · exact .ok (h.skipWhile _)

/-- Two or four digits spell the code of a character, or of a surrogate. -/
theorem code_lt {letter : Char} {length code : Nat} {digits : List Char}
    (hletter : Quoted.codeLength? letter = some length) (hlength : digits.length = length)
    (hcode : Text.hexNumber? digits = some code) : code < 0x110000 ∨ letter = 'U' ∧ length = 8 := by
  have hlt := hexNumber?_lt hcode
  rw [hlength] at hlt
  unfold Quoted.codeLength? at hletter
  split at hletter
  · cases hletter
    have hsmall : code < 256 := hlt
    omega
  · cases hletter
    have hsmall : code < 65536 := hlt
    omega
  · cases hletter
    exact .inr ⟨rfl, rfl⟩
  · cases hletter

/-- Eight digits behind a backslash and their letter spell the code of a character unless the text
is excessive. -/
theorem code_lt_of_not_excessive (hfits : ¬ Excessive text) {digits rest : List Char} {code : Nat}
    (h : '\\' :: 'U' :: (digits ++ rest) <:+ text) (hlength : digits.length = 8)
    (hcode : Text.hexNumber? digits = some code) : code < 0x110000 := by
  by_contra hlarge
  have hstart : '\\' :: 'U' :: digits <+: '\\' :: 'U' :: (digits ++ rest) := ⟨rest, rfl⟩
  exact hfits (.code (hstart.isInfix.trans h.isInfix) hlength hcode (by omega))

theorem reads_escape (hfits : ¬ Excessive text) {rest : List Char} (hrest : c.rest = '\\' :: rest)
    (h : Within text c) : Reads text (Quoted.escape c.next) := by
  unfold Quoted.escape
  split
  · exact .ok h.next.next
  · split
    · rename_i length hlength
      dsimp only
      split
      · exact .malformed
      · rename_i hlong
        split
        · exact .malformed
        · rename_i code hcode
          have hdigits : (c.next.next.rest.take length).length = length := by
            have := List.length_take_le length c.next.next.rest
            omega
          have hsmall : code < 0x110000 := by
            obtain hsmall | ⟨hletter, rfl⟩ := code_lt hlength hdigits hcode
            · exact hsmall
            obtain ⟨more, hmore⟩ := exists_rest hletter (by decide)
            have hnext : c.next.next.rest = more := by rw [Cursor.rest_next, hmore, List.tail_cons]
            rw [Cursor.rest_next, hrest, List.tail_cons] at hmore
            rw [hnext] at hcode hdigits
            rw [Within, hrest, hmore, ← List.take_append_drop 8 more] at h
            exact code_lt_of_not_excessive hfits h hdigits hcode
          exact (regular_charOfCode hsmall).map fun _ _ => h.next.next.skip _
    · split
      · exact reads_quotedBreaks h.next.lineBreak _
      · exact .malformed

theorem reads_quotedWord (hfits : ¬ Excessive text) (h : Within text c) (double : Bool) (fuel : Nat) :
    Reads text (Quoted.word double fuel c) := by
  induction fuel generalizing c with
  | zero => exact .ok h
  | succ fuel ih =>
    rw [Quoted.word]
    dsimp only
    split
    · exact .ok h
    · split
      · split
        · exact (ih (h.skip 2)).map fun _ hr => hr
        · exact .ok h
      · split
        · exact .ok h
        · split
          · rename_i hbackslash
            simp only [Bool.and_eq_true, decide_eq_true_eq] at hbackslash
            obtain ⟨rest, hrest⟩ := exists_rest hbackslash.2 (by decide)
            have hescape := reads_escape hfits hrest h
            split
            · rename_i heq
              rw [heq] at hescape
              exact hescape
            · rename_i heq
              rw [heq] at hescape
              exact (ih hescape.of_ok).map fun _ hr => hr
          · exact (ih h.next).map fun _ hr => hr

theorem reads_quotedSpace (h : Within text c) : Reads text (Quoted.space c) := by
  unfold Quoted.space
  dsimp only
  split
  · exact .malformed
  · split
    · exact (reads_quotedBreaks (h.span _).lineBreak _).map fun _ hr => hr
    · exact .ok (h.span _)

theorem reads_quotedBody (hfits : ¬ Excessive text) (h : Within text c) (double : Bool) (quote : Char)
    (fuel : Nat) : Reads text (Quoted.body double quote fuel c) := by
  induction fuel generalizing c with
  | zero => exact .malformed
  | succ fuel ih =>
    rw [Quoted.body]
    refine (reads_quotedWord hfits h double _).bind fun ⟨chars, c⟩ h => ?_
    dsimp only
    split
    · exact .ok (Within.next h)
    · refine (reads_quotedSpace h).bind fun ⟨gap, c⟩ h => ?_
      exact (ih h).bind fun ⟨more, c⟩ h => .ok h

theorem reads_quoted (hfits : ¬ Excessive text) (h : Within text c) (double : Bool) :
    Reads text (Quoted.read double c) := reads_quotedBody hfits h.next _ _ _

end Quoted

section Block

variable {text : List Char} {c : Cursor}

theorem reads_increment (h : Within text c) : Reads text (Block.increment c) := by
  unfold Block.increment
  split
  · exact .malformed
  · split
    · exact .ok h.next
    · exact .ok h

/-- What has to be followed by a space. -/
theorem reads_ended {α : Type} (result : α × Cursor) (h : Within text result.2) :
    Reads text (if isSpaceOrEnd result.2.peek = true then Except.ok (result.1, result.2)
      else Except.error Stop.malformed) := by
  split
  · exact .ok h
  · exact .malformed

theorem reads_header (h : Within text c) : Reads text (Block.header c) := by
  unfold Block.header
  dsimp only
  split
  · refine Regular.bind (p := fun result => Within text result.2) ?_ reads_ended
    exact (reads_increment h.next).map fun _ hr => hr
  · refine (reads_increment h).bind fun ⟨n, c⟩ h => ?_
    dsimp only
    split
    · exact reads_ended ((_, _), _) (Within.next h)
    · exact reads_ended ((_, _), _) h

theorem regular_headerEnd (h : Within text c) : Regular (Within text) (Block.headerEnd c) := by
  unfold Block.headerEnd
  dsimp only
  split
  · exact .ok h.skipSpaces.skipComment.lineBreak
  · exact .malformed

theorem Within.leading (h : Within text c) (fuel deepest : Nat) :
    Within text (Block.leading fuel deepest c).2.2 := by
  induction fuel generalizing c deepest with
  | zero => exact h
  | succ fuel ih =>
    rw [Block.leading]
    split
    · exact ih h.next _
    · split
      · exact ih h.lineBreak _
      · exact h

theorem Within.skipIndent (h : Within text c) (fuel indent : Nat) :
    Within text (Block.skipIndent fuel indent c) := by
  induction fuel generalizing c with
  | zero => exact h
  | succ fuel ih =>
    rw [Block.skipIndent]
    split
    · exact ih h.next
    · exact h

theorem Within.blockBreaks (h : Within text c) (fuel indent : Nat) :
    Within text (Block.breaks fuel indent c).2 := by
  induction fuel generalizing c with
  | zero => exact h
  | succ fuel ih =>
    rw [Block.breaks]
    dsimp only
    split
    · exact ih (h.skipIndent _ _).lineBreak
    · exact h.skipIndent _ _

theorem Within.lines (h : Within text c) (folded : Bool) (chomping : Block.Chomping) (indent fuel : Nat)
    (empty lineBreak : List Char) :
    Within text (Block.lines folded chomping indent fuel empty lineBreak c).2 := by
  induction fuel generalizing c empty lineBreak with
  | zero => exact h
  | succ fuel ih =>
    unfold Block.lines
    split
    · exact ih ((h.span _).lineBreak.blockBreaks _ _) _ _
    · cases chomping <;> exact h

theorem reads_block (h : Within text c) (folded : Bool) (parent : Int) :
    Reads text (Block.read folded parent c) := by
  unfold Block.read
  refine (reads_header h.next).bind fun ⟨⟨chomping, n⟩, c⟩ hheader => ?_
  refine (regular_headerEnd hheader).bind fun c hend => ?_
  cases n with
  | some n =>
    dsimp only
    exact .ok (Within.lines (hend.blockBreaks _ _) _ _ _ _ _ _)
  | none =>
    dsimp only
    exact .ok (Within.lines (hend.leading _ _) _ _ _ _ _ _)

end Block

section Properties

variable {text : List Char} {c : Cursor}

theorem reads_anchor (h : Within text c) : Reads text (Anchor.read c) := by
  unfold Anchor.read
  dsimp only
  split
  · exact .malformed
  · exact .ok (h.next.span _)

theorem span_eq (p : Char → Bool) (c : Cursor) :
    c.rest = (c.span p).1 ++ (c.span p).2.rest ∧ ∀ x ∈ (c.span p).1, p x = true := by
  refine ⟨?_, fun _ hx => List.mem_takeWhile_imp hx⟩
  change _ = c.rest.takeWhile p ++ (c.skip (c.rest.takeWhile p).length).rest
  have hstart : c.rest = c.rest.takeWhile p ++ c.rest.dropWhile p := List.takeWhile_append_dropWhile.symm
  rw [Cursor.rest_skip_length hstart]
  exact hstart

/-- A number is read if no run of digits behind the text before it is too long. -/
theorem regular_number {before : List Char} (h : before ++ c.rest <:+ text)
    (hshort : ∀ digits, (∀ x ∈ digits, x.isDigit = true) → before ++ digits <:+: text →
      digits.length ≤ Directive.maxDigits) :
    Regular (fun r => ∃ digits, (∀ x ∈ digits, x.isDigit = true) ∧ c.rest = digits ++ r.2.rest)
      (Directive.number c) := by
  obtain ⟨hrest, hdigits⟩ := span_eq Char.isDigit c
  unfold Directive.number
  dsimp only
  split
  · exact .malformed
  · split
    · rename_i hlong
      refine absurd (hshort _ hdigits ?_) (by omega)
      rw [hrest, ← List.append_assoc] at h
      exact (List.prefix_append _ _).isInfix.trans h.isInfix
    · exact .ok ⟨_, hdigits, hrest⟩

theorem within_of_append {before : List Char} (h : before ++ c.rest <:+ text) : Within text c :=
  (List.suffix_append _ _).trans h

/-- A token in front of the end of a text. No plain scalar ends with a line feed. -/
def Token.IsInner : Token → Prop
  | streamEnd => False
  | scalar text true => text.getLast? ≠ some '\n'
  | _ => True

/-- What is read is a token and the place behind it. -/
def ReadsToken (text : List Char) (x : Except Stop (Token × Cursor)) : Prop :=
  Regular (fun r => r.1.IsInner ∧ Within text r.2) x

/-- A version is read if neither of its numbers is too long. -/
theorem readsToken_version (hfits : ¬ Excessive text) (h : "%YAML".toList ++ c.rest <:+ text) :
    ReadsToken text (Directive.version c) := by
  obtain ⟨hspaces, hblank⟩ := span_eq (· = ' ') c
  have hblank' : ∀ x ∈ (c.span (· = ' ')).1, x = ' ' := fun x hx => by simpa using hblank x hx
  have hmajor : ("%YAML".toList ++ (c.span (· = ' ')).1) ++ c.skipSpaces.rest <:+ text := by
    rw [List.append_assoc]
    rw [hspaces] at h
    exact h
  unfold Directive.version
  refine (regular_number hmajor fun digits hdigits hpart => ?_).bind fun ⟨major, c₁⟩ => ?_
  · by_contra hlong
    rw [List.append_assoc] at hpart
    rw [← List.nil_append digits] at hpart
    exact hfits (.version hpart hblank' (.inl rfl) hdigits (by omega))
  · rintro ⟨number, hnumber, hrest⟩
    dsimp only at hrest ⊢
    split
    · exact .malformed
    · rename_i hpoint
      obtain ⟨rest, hpoint⟩ := exists_rest (not_not.mp hpoint) (by decide)
      have hnext : c₁.next.rest = rest := by rw [Cursor.rest_next, hpoint, List.tail_cons]
      have hminor : ("%YAML".toList ++ ((c.span (· = ' ')).1 ++ (number ++ ['.']))) ++ c₁.next.rest
          <:+ text := by
        rw [hrest, hpoint] at hmajor
        rw [hnext]
        simpa using hmajor
      refine (regular_number hminor fun digits hdigits hpart => ?_).bind fun ⟨minor, c₂⟩ => ?_
      · by_contra hlong
        rw [List.append_assoc, List.append_assoc] at hpart
        exact hfits (.version hpart hblank' (.inr ⟨number, hnumber, rfl⟩) hdigits (by omega))
      · rintro ⟨minor, -, hrest⟩
        dsimp only at hrest ⊢
        split
        · rw [hrest, ← List.append_assoc] at hminor
          exact .ok ⟨trivial, within_of_append hminor⟩
        · exact .malformed

theorem reads_escapedBytes (h : Within text c) (fuel : Nat) : Reads text (Tag.escapedBytes fuel c) := by
  induction fuel generalizing c with
  | zero => exact .ok h
  | succ fuel ih =>
    rw [Tag.escapedBytes]
    split
    · dsimp only
      split
      · exact .malformed
      · split
        · exact .malformed
        · exact (ih (h.skip 3)).map fun _ hr => hr
    · exact .ok h

theorem reads_uriChars (h : Within text c) (fuel : Nat) : Reads text (Tag.uriChars fuel c) := by
  induction fuel generalizing c with
  | zero => exact .ok h
  | succ fuel ih =>
    rw [Tag.uriChars]
    split
    · have hbytes := reads_escapedBytes h (c.rest.length + 1)
      split
      · rename_i heq
        rw [heq] at hbytes
        cases hbytes with
        | malformed => exact .malformed
        | tooNested => exact .tooNested
      · rename_i heq
        rw [heq] at hbytes
        split
        · exact .malformed
        · exact (ih hbytes.of_ok).map fun _ hr => hr
    · split
      · exact (ih h.next).map fun _ hr => hr
      · exact .ok h

theorem reads_uri (h : Within text c) : Reads text (Tag.uri c) := by
  unfold Tag.uri
  split
  · exact reads_uriChars h _
  · exact .malformed

theorem reads_handle (h : Within text c) : Reads text (Tag.handle c) := by
  unfold Tag.handle
  split
  · exact .malformed
  · split
    · exact .ok h.next
    · dsimp only
      split
      · exact .ok (h.next.span _).next
      · exact .malformed

theorem reads_tag (h : Within text c) : Reads text (Tag.read c) := by
  unfold Tag.read
  split
  · refine (reads_uri (h.skip 2)).bind fun ⟨suffix, c⟩ h => ?_
    dsimp only
    split
    · exact reads_ended ⟨_, _⟩ (Within.next h)
    · exact .malformed
  · split
    · exact reads_ended ⟨_, _⟩ h.next
    · split
      · refine (reads_handle h).bind fun ⟨handle, c⟩ h => ?_
        exact (reads_uri h).bind fun ⟨suffix, c⟩ h => reads_ended ⟨_, _⟩ h
      · exact (reads_uri h.next).bind fun ⟨suffix, c⟩ h => reads_ended ⟨_, _⟩ h

theorem readsToken_tagDirective (h : Within text c) : ReadsToken text (Directive.tag c) := by
  unfold Directive.tag
  refine (reads_handle h.skipSpaces).bind fun ⟨handle, c⟩ h => ?_
  dsimp only
  split
  · exact .malformed
  · refine (reads_uri (Within.skipSpaces h)).bind fun ⟨uri, c⟩ h => ?_
    dsimp only
    split
    · exact .ok ⟨trivial, h⟩
    · exact .malformed

/-- A directive is read from its percent sign on. -/
theorem readsToken_directive (hfits : ¬ Excessive text) (h : Within text c) (hpercent : c.peek = '%') :
    ReadsToken text (Directive.read c) := by
  have hend : ∀ result : Token × Cursor, result.1.IsInner ∧ Within text result.2 →
      ReadsToken text (if isBreakOrEnd result.2.skipSpaces.skipComment.peek = true
        then Except.ok (result.1, result.2.skipSpaces.skipComment.lineBreak.2)
        else Except.error Stop.malformed) := by
    intro result h
    split
    · exact .ok ⟨h.1, h.2.skipSpaces.skipComment.lineBreak⟩
    · exact .malformed
  obtain ⟨hname, -⟩ := span_eq isWordChar c.next
  unfold Directive.read
  dsimp only
  split
  · exact .malformed
  · split
    · rename_i hyaml
      refine (readsToken_version hfits ?_).bind hend
      obtain ⟨rest, hrest⟩ := exists_rest hpercent (by decide)
      rw [Cursor.rest_next, hrest, List.tail_cons, hyaml] at hname
      rw [Within, hrest, hname] at h
      exact h
    · split
      · exact (readsToken_tagDirective (h.next.span _)).bind hend
      · refine Regular.bind (p := fun result => result.1.IsInner ∧ Within text result.2) ?_ hend
        exact .ok ⟨trivial, (h.next.span _).skipWhile _⟩

end Properties

end ContextConfig.Yaml
