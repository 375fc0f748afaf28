import ContextConfig.Yaml.Cursor
import ContextConfig.Yaml.Writer
/-!
# Moving over a text

All readers move a cursor by a number of places, so that what they leave is known once that number
is. Over a row of characters without a line break the line stays, and a line feed with spaces after
it leads to a known column.
-/

namespace ContextConfig.Yaml

open Writer (spaces newLine isOrdinary)

/-- The ordinary characters other than the line feed. -/
def IsPrintable (x : Char) : Prop := ' ' ≤ x ∧ x ≤ '~'

/-- The printable characters other than the space. -/
def IsGraphic (x : Char) : Prop := IsPrintable x ∧ x ≠ ' '

instance (x : Char) : Decidable (IsPrintable x) := inferInstanceAs (Decidable (_ ∧ _))

instance (x : Char) : Decidable (IsGraphic x) := inferInstanceAs (Decidable (_ ∧ _))

theorem isOrdinary_iff {x : Char} : isOrdinary x = true ↔ x = '\n' ∨ IsPrintable x := by
  simp [isOrdinary, IsPrintable]

theorem IsPrintable.ne {x y : Char} (h : IsPrintable x) (hy : ¬ IsPrintable y) : x ≠ y := by
  rintro rfl
  exact hy h

theorem IsPrintable.isBreakOrEnd {x : Char} (h : IsPrintable x) : isBreakOrEnd x = false := by
  simp [Yaml.isBreakOrEnd, isBreak, isEnd, h.ne (show ¬ IsPrintable '\n' by decide),
    h.ne (show ¬ IsPrintable '\r' by decide), h.ne (show ¬ IsPrintable '\x85' by decide),
    h.ne (show ¬ IsPrintable '\u2028' by decide), h.ne (show ¬ IsPrintable '\u2029' by decide),
    h.ne (show ¬ IsPrintable '\x00' by decide)]

theorem IsPrintable.isBreak {x : Char} (h : IsPrintable x) : isBreak x = false := by
  have := h.isBreakOrEnd
  simp_all [Yaml.isBreakOrEnd]

theorem IsPrintable.isEnd {x : Char} (h : IsPrintable x) : isEnd x = false := by
  have := h.isBreakOrEnd
  simp_all [Yaml.isBreakOrEnd]

theorem IsGraphic.isBlankOrEnd {x : Char} (h : IsGraphic x) : isBlankOrEnd x = false := by
  simp [Yaml.isBlankOrEnd, isSpaceOrEnd, h.1.isBreakOrEnd, h.2,
    h.1.ne (show ¬ IsPrintable '\t' by decide)]

namespace Cursor

variable {c : Cursor} {x : Char} {rest text : List Char}

theorem peek_eq (h : c.rest = x :: rest) : c.peek = x := by
  rw [peek, h]
  rfl

/-- A document marker consists of dashes or of full stops. -/
theorem not_atMarker_of_cons (h : c.rest = x :: rest) (hx : x ≠ '-' ∧ x ≠ '.') :
    c.atMarker = false := by
  simp [atMarker, h, hx]

theorem rest_next (c : Cursor) : c.next.rest = c.rest.tail := by
  rw [next]
  split
  next h => simp [h]
  next h =>
    rw [h]
    split
    case isTrue => rfl
    case isFalse => split <;> rfl

@[simp] theorem rest_skip (n : Nat) (c : Cursor) : (c.skip n).rest = c.rest.drop n := by
  induction n generalizing c with
  | zero => rfl
  | succ n ih => rw [skip, ih, rest_next, List.drop_tail]

@[simp] theorem skip_skip (m n : Nat) (c : Cursor) : (c.skip m).skip n = c.skip (m + n) := by
  induction m generalizing c with
  | zero => rw [Nat.zero_add, skip]
  | succ m ih => rw [skip, ih, Nat.succ_add, skip]

theorem skip_append (text more : List Char) (c : Cursor) :
    c.skip (text ++ more).length = (c.skip text.length).skip more.length := by
  rw [skip_skip, List.length_append]

theorem rest_skip_length (h : c.rest = text ++ rest) : (c.skip text.length).rest = rest := by
  rw [rest_skip, h, List.drop_left]

theorem line_le_line_next (c : Cursor) : c.line ≤ c.next.line := by
  rw [next]
  split
  · exact Nat.le_refl _
  · split
    · exact Nat.le_succ _
    · split <;> exact Nat.le_refl _

theorem line_le_line_skip (n : Nat) (c : Cursor) : c.line ≤ (c.skip n).line := by
  induction n generalizing c with
  | zero => exact Nat.le_refl _
  | succ n ih => exact Nat.le_trans c.line_le_line_next (ih c.next)

theorem next_printable (hx : IsPrintable x) (h : c.rest = x :: rest) :
    c.next = ⟨rest, c.index + 1, c.line, c.column + 1⟩ := by
  have hmark : x ≠ '\uFEFF' := hx.ne (by decide)
  rw [next, h]
  simp [endsLine, hx.isBreak, hmark]

theorem next_lineFeed (h : c.rest = '\n' :: rest) :
    c.next = ⟨rest, c.index + 1, c.line + 1, 0⟩ := by
  rw [next, h]
  simp [endsLine, isBreak]

/-- Printable characters stay on their line. -/
theorem skip_printable (htext : ∀ x ∈ text, IsPrintable x) (h : c.rest = text ++ rest) :
    c.skip text.length = ⟨rest, c.index + text.length, c.line, c.column + text.length⟩ := by
  induction text generalizing c with
  | nil =>
    rw [List.nil_append] at h
    simp [skip, ← h]
  | cons x text ih =>
    rw [List.forall_mem_cons] at htext
    rw [List.length_cons, skip, next_printable htext.1 h, ih htext.2 rfl]
    simp only [mk.injEq, true_and]
    omega

theorem printable_of_mem_spaces {n : Nat} (h : x ∈ spaces n) : IsPrintable x := by
  rw [List.eq_of_mem_replicate h]
  decide

@[simp] theorem length_spaces (n : Nat) : (spaces n).length = n := List.length_replicate

@[simp] theorem length_newLine (n : Nat) : (newLine n).length = n + 1 := by
  rw [newLine, List.length_cons, length_spaces]

theorem rest_skip_spaces {n : Nat} (h : c.rest = spaces n ++ rest) : (c.skip n).rest = rest := by
  have := rest_skip_length h
  rwa [length_spaces] at this

/-- A line feed and spaces lead to the column after the spaces in the next line. -/
theorem skip_newLine {n : Nat} (h : c.rest = newLine n ++ rest) :
    c.skip (n + 1) = ⟨rest, c.index + 1 + n, c.line + 1, n⟩ := by
  have hnext : c.next.rest = spaces n ++ rest := by
    rw [next_lineFeed h]
    rfl
  have hspaces := skip_printable (fun x hx => printable_of_mem_spaces hx) hnext
  rw [length_spaces, next_lineFeed h] at hspaces
  rw [skip, next_lineFeed h, hspaces, Nat.zero_add]

theorem lineBreak_lineFeed (h : c.rest = '\n' :: rest) : c.lineBreak = (['\n'], c.next) := by
  simp [lineBreak, h]

/-- A run ends in front of the first character that does not belong to it. -/
theorem span_append {p : Char → Bool} (htext : ∀ x ∈ text, p x = true)
    (hrest : ∀ x ∈ rest.head?, p x = false) (h : c.rest = text ++ rest) :
    c.span p = (text, c.skip text.length) := by
  have hrun : c.rest.takeWhile p = text := by
    rw [h, List.takeWhile_append_of_pos htext]
    cases rest with
    | nil => simp
    | cons x rest => simp [hrest x rfl]
  rw [span, hrun]

theorem span_spaces {n : Nat} (hrest : rest.head? ≠ some ' ') (h : c.rest = spaces n ++ rest) :
    c.span (· = ' ') = (spaces n, c.skip n) := by
  have hspan : c.span (· = ' ') = (spaces n, c.skip (spaces n).length) := by
    refine span_append ?_ ?_ h
    · intro x hx
      simp [List.eq_of_mem_replicate hx]
    · intro x hx
      rw [decide_eq_false_iff_not]
      rintro rfl
      exact hrest hx
  rwa [length_spaces] at hspan

theorem skipSpaces_append {n : Nat} (hrest : rest.head? ≠ some ' ') (h : c.rest = spaces n ++ rest) :
    c.skipSpaces = c.skip n := by
  rw [skipSpaces, skipWhile, span_spaces hrest h]

theorem length_rest_skipWhile (p : Char → Bool) (c : Cursor) :
    (c.skipWhile p).rest.length ≤ c.rest.length := by
  simp [skipWhile, span]

theorem length_rest_lineBreak (c : Cursor) : c.lineBreak.2.rest.length ≤ c.rest.length := by
  rw [lineBreak]
  split
  · simp
  · split
    · simp [rest_next]
    · split <;> simp [rest_next]
  · simp

end Cursor

/-- What can follow the indentation of a line: nothing, or neither a blank nor a line break, a
comment or a document marker. -/
structure Fresh (text : List Char) : Prop where
  graphic : ∀ x ∈ text.head?, IsGraphic x
  comment : text.head? ≠ some '#'
  marker : text.take 3 ≠ ['-', '-', '-'] ∧ text.take 3 ≠ ['.', '.', '.']

theorem Fresh.nil : Fresh [] := ⟨by simp, by simp, by simp⟩

namespace Fresh

variable {c : Cursor} {text : List Char}

theorem not_atMarker (h : Fresh c.rest) : c.atMarker = false := by
  simp [Cursor.atMarker, h.marker.1, h.marker.2]

theorem isBreak_peek (h : Fresh c.rest) : isBreak c.peek = false := by
  rw [Cursor.peek]
  cases hrest : c.rest with
  | nil => rfl
  | cons x rest => exact (h.graphic x (by rw [hrest]; rfl)).1.isBreak

theorem head?_ne_space (h : Fresh text) : text.head? ≠ some ' ' :=
  fun hspace => (h.graphic ' ' hspace).2 rfl

theorem peek_ne_comment (h : Fresh c.rest) : c.peek ≠ '#' := by
  rw [Cursor.peek]
  cases hrest : c.rest with
  | nil => decide
  | cons x rest =>
    rintro rfl
    exact h.comment (by rw [hrest]; rfl)

end Fresh
end ContextConfig.Yaml
