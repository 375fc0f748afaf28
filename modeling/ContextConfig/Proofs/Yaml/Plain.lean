import ContextConfig.Proofs.Yaml.Cursor
import ContextConfig.Yaml.Token.Scalar
/-!
# Reading back plain scalars

A plain scalar is a row of words. The writer may turn a single space between two of them into a
line break with an indentation, and the reader turns it back. `Spells` says which written forms a
text has; every one of them is read as that text, in front of whatever ends a plain scalar.
-/

namespace ContextConfig.Yaml.Plain

open Writer (spaces newLine plainChars hasInnerIndicator width)

/-- Graphic characters that are not taken for the end of a key. -/
structure IsWord (w : List Char) : Prop where
  nonempty : w ≠ []
  graphic : ∀ x ∈ w, IsGraphic x
  colon : w.getLast? ≠ some ':'

/-- The written forms of a text on lines that are indented to `indent`. -/
inductive Spells (indent : Nat) : List Char → List Char → Prop where
  | word {w : List Char} (h : IsWord w) : Spells indent w w
  | blanks {w written text : List Char} (h : IsWord w) (n : Nat)
      (comment : written.head? ≠ some '#') (rest : Spells indent written text) :
      Spells indent (w ++ (spaces (n + 1) ++ written)) (w ++ (spaces (n + 1) ++ text))
  | fold {w written text : List Char} (h : IsWord w) (comment : written.head? ≠ some '#')
      (rest : Spells indent written text) :
      Spells indent (w ++ (newLine indent ++ written)) (w ++ ' ' :: text)

theorem IsWord.exists_cons {w : List Char} (h : IsWord w) :
    ∃ x rest, w = x :: rest ∧ IsGraphic x := by
  obtain ⟨x, rest, rfl⟩ := List.exists_cons_of_ne_nil h.nonempty
  exact ⟨x, rest, rfl, h.graphic x List.mem_cons_self⟩

theorem Spells.exists_word {indent : Nat} {written text : List Char}
    (h : Spells indent written text) : ∃ w rest, written = w ++ rest ∧ IsWord w := by
  cases h with
  | word h => exact ⟨_, [], (List.append_nil _).symm, h⟩
  | blanks h => exact ⟨_, _, rfl, h⟩
  | fold h => exact ⟨_, _, rfl, h⟩

theorem Spells.exists_cons {indent : Nat} {written text : List Char}
    (h : Spells indent written text) : ∃ x rest, written = x :: rest ∧ IsGraphic x := by
  obtain ⟨w, rest, rfl, hw⟩ := h.exists_word
  obtain ⟨x, more, rfl, hx⟩ := hw.exists_cons
  exact ⟨x, more ++ rest, rfl, hx⟩

theorem Spells.exists_cons_append {indent : Nat} {written text : List Char}
    (h : Spells indent written text) (tail : List Char) :
    ∃ x rest, written ++ tail = x :: rest ∧ IsGraphic x := by
  obtain ⟨x, rest, rfl, hx⟩ := h.exists_cons
  exact ⟨x, rest ++ tail, rfl, hx⟩

theorem Spells.graphic_head? {indent : Nat} {written text : List Char}
    (h : Spells indent written text) (tail : List Char) :
    ∀ x ∈ (written ++ tail).head?, IsGraphic x := by
  obtain ⟨x, rest, rfl, hx⟩ := h.exists_cons
  rintro y ⟨⟩
  exact hx

section Reading

variable {c c' : Cursor} {w rest tail : List Char}

/-- No colon in a word is followed by what makes it an indicator. -/
theorem IsWord.not_colonEnd {x : Char} (h : IsWord (x :: w)) (rest : List Char) :
    ¬ (x = ':' ∧ isColonEnd false ((w ++ rest).headD '\x00') = true) := by
  rintro ⟨rfl, hend⟩
  cases w with
  | nil => exact h.colon rfl
  | cons y w =>
    have hy := (h.graphic y (by simp)).isBlankOrEnd
    simp [isColonEnd, hy] at hend

/-- The first character of a word is read. -/
theorem word_cons {x : Char} (h : IsWord (x :: w)) (rest : List Char) :
    word false (x :: (w ++ rest)) = x :: word false (w ++ rest) := by
  rw [word, (h.graphic x List.mem_cons_self).isBlankOrEnd]
  simp only [Bool.false_eq_true, if_false, Bool.and_eq_true, decide_eq_true_eq,
    h.not_colonEnd rest, Bool.false_and]

/-- A word is read up to where no further word goes on. -/
theorem word_append (hw : IsWord w) (htail : word false tail = []) :
    word false (w ++ tail) = w := by
  induction w with
  | nil => exact absurd rfl hw.nonempty
  | cons x w ih =>
    rw [List.cons_append, word_cons hw]
    congr 1
    cases w with
    | nil => exact htail
    | cons y w =>
      refine ih ⟨List.cons_ne_nil y w, fun z hz => hw.graphic z (List.mem_cons_of_mem x hz), ?_⟩
      rw [← List.getLast?_cons_cons (a := x)]
      exact hw.colon

theorem word_of_isBlankOrEnd (h : ∀ x ∈ tail.head?, isBlankOrEnd x = true) :
    word false tail = [] := by
  cases tail with
  | nil => rfl
  | cons x tail => simp [word, h x rfl]

theorem not_atMarker_spaces {n : Nat} (h : c.rest = spaces n ++ rest) (hrest : 0 < n ∨ Fresh rest) :
    c.atMarker = false := by
  cases n with
  | zero =>
    have hfresh : Fresh rest := hrest.resolve_left (Nat.lt_irrefl 0)
    have hempty : c.rest = rest := h
    exact Fresh.not_atMarker (hempty ▸ hfresh)
  | succ n => exact Cursor.not_atMarker_of_cons h (by decide)

theorem breaks_spaces {n fuel : Nat} (h : c.rest = spaces n ++ rest)
    (hrest : ∀ x ∈ rest.head?, IsGraphic x) (hfuel : n < fuel) :
    breaks fuel c = (some [], c.skip n) := by
  induction n generalizing c fuel with
  | zero =>
    obtain ⟨fuel, rfl⟩ := Nat.exists_eq_add_one.mpr hfuel
    have hempty : c.rest = rest := h
    cases hcases : rest with
    | nil => simp [breaks, Cursor.peek, hempty, hcases, isBreak, Cursor.skip]
    | cons x more =>
      have hx := hrest x (by rw [hcases]; rfl)
      rw [breaks, Cursor.peek_eq (hempty.trans hcases)]
      simp [hx.2, hx.1.isBreak, Cursor.skip]
  | succ n ih =>
    obtain ⟨fuel, rfl⟩ := Nat.exists_eq_add_one.mpr (Nat.zero_lt_of_lt hfuel)
    have hcons : c.rest = ' ' :: (spaces n ++ rest) := h
    have hnext : c.next.rest = spaces n ++ rest := by rw [Cursor.rest_next, hcons]; rfl
    rw [breaks, Cursor.peek_eq hcons, if_pos rfl, ih hnext (Nat.lt_of_succ_lt_succ hfuel)]
    rfl

/-- Spaces within a line are kept. -/
theorem space_blanks {n : Nat} (h : c.rest = spaces n ++ rest)
    (hrest : ∃ x more, rest = x :: more ∧ IsGraphic x) :
    space c = (spaces n, c.skip n, false) := by
  obtain ⟨x, more, rfl, hx⟩ := hrest
  have hspan := Cursor.span_spaces (by simp [hx.2]) h
  have hpeek : (c.skip n).peek = x := Cursor.peek_eq (Cursor.rest_skip_spaces h)
  simp [space, hspan, hpeek, hx.1.isBreak]

/-- A line break with an indentation is read as one space. -/
theorem space_newLine {n : Nat} (h : c.rest = newLine n ++ rest)
    (hrest : ∀ x ∈ rest.head?, IsGraphic x) (hmarker : 0 < n ∨ Fresh rest) :
    space c = ([' '], c.skip (n + 1), true) := by
  have hcons : c.rest = '\n' :: (spaces n ++ rest) := h
  have hspan : c.span (· = ' ') = ([], c) :=
    Cursor.span_spaces (n := 0) (by simp [hcons]) rfl
  have hnext : c.next.rest = spaces n ++ rest := by rw [Cursor.rest_next, hcons]; rfl
  have hbreaks : breaks (c.next.rest.length + 1) c.next = (some [], c.next.skip n) := by
    apply breaks_spaces hnext hrest
    rw [hnext, List.length_append, spaces, List.length_replicate]
    omega
  have hbreak : isBreak c.peek = true := by rw [Cursor.peek_eq hcons]; rfl
  simp only [space, hspan, hbreak, if_true, Cursor.lineBreak_lineFeed hcons,
    not_atMarker_spaces hnext hmarker, Bool.false_eq_true, if_false, hbreaks, fold, ne_eq,
    not_true_eq_false]
  rfl

/-- One word, the space after it, and what is read from there on. -/
theorem read_step {indent : Nat} {limit : Int} {gap written text : List Char} {c₁ : Cursor}
    {fuel : Nat} {broke₁ broke : Bool} (hw : IsWord w) (hrest : c.rest = w ++ rest)
    (hstop : word false rest = []) (hspace : space (c.skip w.length) = (gap, c₁, broke₁))
    (hgap : gap ≠ []) (hspells : Spells indent written text) (hcomment : written.head? ≠ some '#')
    (hnext : c₁.rest = written ++ tail) (hcolumn : limit ≤ c₁.column)
    (hread : read false limit fuel c₁ = (text, c', broke)) :
    read false limit (fuel + 1) c = (w ++ gap ++ text, c', broke) := by
  have hword : word false c.rest = w := hrest ▸ word_append hw hstop
  have hpeek : c₁.peek ≠ '#' := by
    obtain ⟨x, more, rfl, -⟩ := hspells.exists_cons
    rw [Cursor.peek_eq hnext]
    rintro rfl
    exact hcomment rfl
  have hfollows : word false c₁.rest ≠ [] := by
    obtain ⟨w', more, rfl, hw'⟩ := hspells.exists_word
    obtain ⟨x, w', rfl, -⟩ := hw'.exists_cons
    rw [hnext, List.append_assoc, List.cons_append, word_cons hw']
    exact List.cons_ne_nil x _
  have hgoes : ¬ (gap = [] ∨ c₁.peek = '#' ∨ (c₁.column : Int) < limit) := by
    rintro (h | h | h)
    · exact hgap h
    · exact hpeek h
    · omega
  rw [read, hword]
  split
  case h_1 => exact absurd rfl hw.nonempty
  case h_2 =>
    simp only [hspace, hread, Bool.not_false, Bool.true_and, Bool.or_eq_true, decide_eq_true_eq,
      or_assoc, hgoes, if_false]

/-- Whether a plain scalar that is indented to `indent` ends in front of the space at `c`, which
leads to `c'`. -/
def Ends (indent : Int) (c c' : Cursor) (broke : Bool) : Prop :=
  ∃ gap, space c = (gap, c', broke) ∧ (gap = [] ∨ (c'.column : Int) < indent)

theorem word_colon (h : isBlankOrEnd (tail.headD '\x00') = true) : word false (':' :: tail) = [] := by
  have hcolon : isBlankOrEnd ':' = false := rfl
  rw [word, hcolon]
  simp only [isColonEnd, h, Bool.true_or, Bool.and_true, decide_true, if_true, Bool.false_eq_true,
    if_false]

/-- There is no space in front of a colon. -/
theorem ends_colon (indent : Int) (h : c.rest = ':' :: tail) : Ends indent c c false := by
  have hspan : c.span (· = ' ') = ([], c) := Cursor.span_spaces (n := 0) (by simp) h
  have hbreak : isBreak c.peek = false := by rw [Cursor.peek_eq h]; rfl
  refine ⟨[], ?_, .inl rfl⟩
  simp [space, hspan, hbreak]

/-- A line that is not indented enough is not part of the scalar. -/
theorem ends_newLine {n : Nat} {indent : Int} (h : c.rest = newLine n ++ rest) (hfresh : Fresh rest)
    (hindent : n < indent) : Ends indent c (c.skip (n + 1)) true := by
  refine ⟨[' '], space_newLine h hfresh.graphic (.inr hfresh), .inr ?_⟩
  rwa [Cursor.skip_newLine h]

/-- All words are read, with the space between them, wherever the scalar has to end. -/
theorem read_of_spells {indent : Nat} {limit : Int} {written text : List Char} {broke : Bool}
    {fuel : Nat} (h : Spells indent written text) (hpositive : 0 < indent) (hlimit : limit ≤ indent)
    (hrest : c.rest = written ++ tail) (htail : word false tail = [])
    (hend : Ends limit (c.skip written.length) c' broke) (hcolumn : limit ≤ c.column + 1)
    (hfuel : written.length ≤ fuel) :
    read false limit fuel c = (text, c', broke) := by
  induction h generalizing c fuel with
  | word hw =>
    obtain ⟨gap, hspace, hgap⟩ := hend
    obtain ⟨x, more, rfl, -⟩ := hw.exists_cons
    obtain ⟨fuel, rfl⟩ := Nat.exists_eq_add_one.mpr (Nat.lt_of_lt_of_le (Nat.succ_pos _) hfuel)
    rw [read, hrest, word_append hw htail]
    simp only [hspace]
    rw [if_pos]
    obtain rfl | hgap := hgap
    · simp
    · simp [hgap]
  | @blanks w written text hw n hcomment hspells ih =>
    have hstart : c.rest = w ++ (spaces (n + 1) ++ (written ++ tail)) := by simpa using hrest
    have hgap := Cursor.rest_skip_length hstart
    have hnext := Cursor.rest_skip_spaces hgap
    have hspace := space_blanks hgap (hspells.exists_cons_append tail)
    have hplace : limit ≤ ((c.skip w.length).skip (n + 1)).column := by
      have hline := Cursor.skip_printable (fun y hy => (hw.graphic y hy).1) hstart
      have hspaces := Cursor.skip_printable (fun y hy => Cursor.printable_of_mem_spaces hy) hgap
      rw [Cursor.length_spaces] at hspaces
      rw [hspaces, hline]
      dsimp only
      omega
    rw [List.length_append, List.length_append, Cursor.length_spaces] at hfuel
    rw [← List.append_assoc]
    obtain ⟨fuel, rfl⟩ := Nat.exists_eq_add_one.mpr (show 0 < fuel by omega)
    have hread : read false limit fuel _ = (text, c', broke) :=
      ih hnext (by simpa [Nat.add_assoc] using hend) (by omega) (by omega)
    exact read_step hw hstart
      (word_of_isBlankOrEnd (by simp [spaces, List.replicate_succ, isBlankOrEnd, isSpaceOrEnd]))
      hspace (by simp [spaces]) hspells hcomment hnext hplace hread
  | @fold w written text hw hcomment hspells ih =>
    have hstart : c.rest = w ++ (newLine indent ++ (written ++ tail)) := by simpa using hrest
    have hgap := Cursor.rest_skip_length hstart
    have hspace := space_newLine hgap (hspells.graphic_head? tail) (.inl hpositive)
    have hline := Cursor.skip_newLine hgap
    have hnext : ((c.skip w.length).skip (indent + 1)).rest = written ++ tail := by rw [hline]
    have hplace : limit ≤ ((c.skip w.length).skip (indent + 1)).column := by rwa [hline]
    rw [List.length_append, List.length_append, newLine, List.length_cons,
      Cursor.length_spaces] at hfuel
    have hassoc : w ++ ' ' :: text = w ++ [' '] ++ text := by simp
    rw [hassoc]
    obtain ⟨fuel, rfl⟩ := Nat.exists_eq_add_one.mpr (show 0 < fuel by omega)
    have hread : read false limit fuel ((c.skip w.length).skip (indent + 1))
        = (text, c', broke) := by
      refine ih hnext ?_ (by omega) (by omega)
      simpa [newLine, Nat.add_assoc, Nat.add_comm written.length] using hend
    exact read_step hw hstart
      (word_of_isBlankOrEnd (by simp [newLine, isBlankOrEnd, isSpaceOrEnd, isBreakOrEnd, isBreak]))
      hspace (by simp) hspells hcomment hnext hplace hread

end Reading

section Writing

/-- Words with spaces between them; none of the later ones starts a comment. -/
inductive Phrase : List Char → Prop where
  | word {w : List Char} (h : IsWord w) : Phrase w
  | more {w text : List Char} (h : IsWord w) (n : Nat) (comment : text.head? ≠ some '#')
      (rest : Phrase text) : Phrase (w ++ (spaces (n + 1) ++ text))

theorem Phrase.spells_self {text : List Char} (h : Phrase text) (indent : Nat) :
    Spells indent text text := by
  induction h with
  | word hw => exact .word hw
  | more hw n hcomment _ ih => exact .blanks hw n hcomment ih

theorem Phrase.exists_cons {text : List Char} (h : Phrase text) :
    ∃ x rest, text = x :: rest ∧ IsGraphic x :=
  (h.spells_self 0).exists_cons

/-- What holds of the characters after the first ones holds of each of them. -/
theorem hasInnerIndicator_append {p x : Char} {u v : List Char}
    (h : hasInnerIndicator p (u ++ x :: v) = false) :
    (x = ':' → isBlankOrEnd (v.headD '\x00') = false) ∧ hasInnerIndicator x v = false := by
  induction u generalizing p with
  | nil =>
    rw [List.nil_append, hasInnerIndicator, Bool.or_eq_false_iff, Bool.or_eq_false_iff] at h
    refine ⟨?_, h.2⟩
    rintro rfl
    simpa using h.1.1
  | cons y u ih =>
    rw [List.cons_append, hasInnerIndicator, Bool.or_eq_false_iff] at h
    exact ih h.2

/-- A text is a row without spaces, a row of spaces, and what follows. -/
theorem exists_words (text : List Char) :
    ∃ w n rest, text = w ++ (spaces n ++ rest) ∧ ' ' ∉ w ∧ rest.head? ≠ some ' ' ∧
      (n = 0 → rest = []) := by
  induction text with
  | nil => exact ⟨[], 0, [], rfl, by simp, by simp, fun _ => rfl⟩
  | cons x text ih =>
    obtain ⟨w, n, rest, rfl, hw, hrest, hend⟩ := ih
    by_cases hx : x = ' '
    · subst hx
      cases w with
      | nil => exact ⟨[], n + 1, rest, rfl, by simp, hrest, by simp⟩
      | cons y w =>
        refine ⟨[], 1, y :: w ++ (spaces n ++ rest), rfl, by simp, ?_, by simp⟩
        rintro ⟨⟩
        exact hw List.mem_cons_self
    · refine ⟨x :: w, n, rest, rfl, ?_, hrest, hend⟩
      rw [List.mem_cons, not_or]
      exact ⟨Ne.symm hx, hw⟩

/-- What stands before the first space of a text that can be written plain is a word. -/
theorem isWord_of_not_hasInnerIndicator {p : Char} {w rest : List Char} {n : Nat}
    (hprint : ∀ x ∈ w ++ (spaces n ++ rest), IsPrintable x)
    (hinner : hasInnerIndicator p (w ++ (spaces n ++ rest)) = false) (hne : w ≠ []) (hspace : ' ' ∉ w)
    (hend : n = 0 → rest = []) : IsWord w := by
  refine ⟨hne, fun x hx => ⟨hprint x (List.mem_append_left _ hx), ?_⟩, ?_⟩
  · rintro rfl
    exact hspace hx
  · intro hcolon
    obtain ⟨u, rfl⟩ := List.getLast?_eq_some_iff.mp hcolon
    rw [List.append_assoc] at hinner
    have hnext := (hasInnerIndicator_append hinner).1 rfl
    cases n with
    | zero => simp [hend rfl, spaces, isBlankOrEnd, isSpaceOrEnd, isBreakOrEnd, isEnd] at hnext
    | succ n => simp [spaces, List.replicate_succ, isBlankOrEnd, isSpaceOrEnd] at hnext

/-- What can be written plain is a row of words. The induction is on the length, since a whole word
and the spaces after it are taken away at once. -/
theorem phrase_of_not_hasInnerIndicator {p : Char} {text : List Char}
    (hprint : ∀ x ∈ text, IsPrintable x) (hinner : hasInnerIndicator p text = false)
    (hne : text ≠ []) (hhead : text.head? ≠ some ' ') (hlast : text.getLast? ≠ some ' ') :
    Phrase text := by
  induction hlength : text.length using Nat.strongRecOn generalizing p text with
  | ind length ih =>
    obtain ⟨w, n, rest, rfl, hspace, hrest, hend⟩ := exists_words text
    have hwne : w ≠ [] := by
      rintro rfl
      cases n with
      | zero => exact hne (hend rfl)
      | succ n => exact hhead rfl
    have hw := isWord_of_not_hasInnerIndicator hprint hinner hwne hspace hend
    cases n with
    | zero =>
      rw [hend rfl]
      simpa [spaces] using Phrase.word hw
    | succ n =>
      have hspaces : spaces (n + 1) = spaces n ++ [' '] := List.replicate_succ'
      have hrestne : rest ≠ [] := by
        rintro rfl
        rw [List.append_nil, hspaces, ← List.append_assoc] at hlast
        exact hlast List.getLast?_concat
      have hafter : hasInnerIndicator ' ' rest = false := by
        rw [hspaces, List.append_assoc, ← List.append_assoc] at hinner
        exact (hasInnerIndicator_append hinner).2
      have hcomment : rest.head? ≠ some '#' := by
        obtain ⟨x, more, rfl⟩ := List.exists_cons_of_ne_nil hrestne
        rintro ⟨⟩
        simp [hasInnerIndicator, isBlankOrEnd, isSpaceOrEnd] at hafter
      have hshorter : rest.length < length := by
        rw [← hlength, List.length_append, List.length_append, Cursor.length_spaces]
        omega
      refine .more hw n hcomment (ih _ hshorter ?_ hafter hrestne hrest ?_ rfl)
      · intro x hx
        exact hprint x (List.mem_append_right _ (List.mem_append_right _ hx))
      · intro hspace
        rw [List.getLast?_append, List.getLast?_append, hspace] at hlast
        exact hlast rfl

theorem plainChars_word {indent column : Nat} {w : List Char} (hw : ∀ x ∈ w, IsGraphic x)
    (hne : w ≠ []) (afterSpace : Bool) (rest : List Char) :
    plainChars indent column afterSpace (w ++ rest)
      = w ++ plainChars indent (column + w.length) false rest := by
  induction w generalizing column afterSpace with
  | nil => exact absurd rfl hne
  | cons x w ih =>
    rw [List.forall_mem_cons] at hw
    have hx := hw.1.2
    rw [List.cons_append, plainChars]
    simp only [hx, decide_false, Bool.false_and, Bool.false_eq_true, if_false, List.cons_append,
      List.cons.injEq, true_and]
    cases w with
    | nil => rfl
    | cons y w =>
      rw [ih hw.2 (List.cons_ne_nil y w), List.length_cons (a := x), Nat.add_right_comm,
        Nat.add_assoc]

theorem plainChars_afterSpace {indent column : Nat} {rest : List Char}
    (hrest : rest.head? ≠ some ' ') :
    plainChars indent column true rest = plainChars indent column false rest := by
  cases rest with
  | nil => rfl
  | cons x rest =>
    have hx : x ≠ ' ' := by
      rintro rfl
      exact hrest rfl
    simp [plainChars, hx]

/-- Spaces after a first one stay. -/
theorem plainChars_spaces {indent column : Nat} (n : Nat) {rest : List Char}
    (hrest : rest.head? ≠ some ' ') :
    plainChars indent column true (spaces n ++ rest)
      = spaces n ++ plainChars indent (column + n) false rest := by
  induction n generalizing column with
  | zero => exact plainChars_afterSpace hrest
  | succ n ih =>
    change plainChars indent column true (' ' :: (spaces n ++ rest)) = _
    rw [plainChars]
    simp only [Bool.not_true, Bool.and_false, Bool.false_and, Bool.false_eq_true, if_false,
      decide_true]
    rw [ih, Nat.add_assoc, Nat.add_comm 1 n]
    rfl

/-- Of the spaces between two words a lone one may become a line break. -/
theorem plainChars_gap {indent column : Nat} (n : Nat) {rest : List Char}
    (hrest : rest.head? ≠ some ' ') :
    plainChars indent column false (spaces (n + 1) ++ rest)
      = if n = 0 ∧ width < column then newLine indent ++ plainChars indent indent false rest
        else spaces (n + 1) ++ plainChars indent (column + 1 + n) false rest := by
  change plainChars indent column false (' ' :: (spaces n ++ rest)) = _
  rw [plainChars]
  cases n with
  | zero =>
    have hhead : (spaces 0 ++ rest).head? ≠ some ' ' := hrest
    simp only [decide_true, Bool.not_false, Bool.true_and, hhead, ne_eq, not_false_eq_true,
      decide_eq_true_eq, true_and]
    split
    · rfl
    · rw [plainChars_spaces 0 hrest]
      rfl
  | succ n =>
    have hhead : (spaces (n + 1) ++ rest).head? = some ' ' := rfl
    simp only [hhead, ne_eq, not_true_eq_false, decide_false, Bool.and_false, Bool.false_and,
      Bool.false_eq_true, if_false, Nat.add_one_ne_zero, false_and, decide_true]
    rw [plainChars_spaces (n + 1) hrest]
    rfl

/-- However long its lines get, what is written for a row of words spells it. -/
theorem Phrase.spells_plainChars {text : List Char} (h : Phrase text) (indent column : Nat) :
    Spells indent (plainChars indent column false text) text := by
  induction h generalizing column with
  | @word w hw =>
    have hwritten : plainChars indent column false (w ++ []) = w ++ [] :=
      plainChars_word hw.graphic hw.nonempty false []
    rw [List.append_nil] at hwritten
    rw [hwritten]
    exact .word hw
  | more hw n hcomment hrest ih =>
    obtain ⟨x, rest, rfl, hx⟩ := hrest.exists_cons
    have hwritten : ∀ column, (plainChars indent column false (x :: rest)).head? = some x := by
      intro column
      simp [plainChars, hx.2]
    rw [plainChars_word hw.graphic hw.nonempty, plainChars_gap n (by simp [hx.2])]
    split
    case isTrue hfold =>
      rw [hfold.1]
      exact .fold hw (by rwa [hwritten]) (ih indent)
    case isFalse =>
      exact .blanks hw n (by rwa [hwritten]) (ih _)

end Writing

end ContextConfig.Yaml.Plain
