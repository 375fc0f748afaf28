import ContextConfig.Proofs.Encoding
import ContextConfig.Proofs.Yaml.Cursor
import ContextConfig.Yaml.Token.Scalar
/-!
# Reading back quoted scalars

Between quotes a text is spelled by its characters, by escapes or doubled quotes, and by line
breaks that are folded or belong to no text. `Spells` lists these forms. Every form is read as its
text, and the writer uses no others, wherever it breaks lines.
-/

namespace ContextConfig.Yaml.Quoted

open Writer (spaces newLine isOrdinary isTextBreak anyPair singleChars doubleChars isVerbatim escaped
  escapedBreak width allowsSingle)

def quote (double : Bool) : Char := if double then '\x22' else '\x27'

def lineFeeds (n : Nat) : List Char := List.replicate n '\n'

/-- What can follow a backslash, and the character it stands for. -/
inductive Escape : List Char → Char → Prop where
  | short {letter x : Char} (h : shortEscape? letter = some x) : Escape [letter] x
  | code {letter x : Char} {digits : List Char} {n : Nat}
      (h : codeLength? letter = some digits.length) (value : Text.hexNumber? digits = some n)
      (stands : charOfCode n = .ok x) : Escape (letter :: digits) x

/-- Whether something other than space comes next. -/
def StartsText (written : List Char) : Prop :=
  ∃ x rest, written = x :: rest ∧ isBlankOrEnd x = false

theorem StartsText.append {written : List Char} (h : StartsText written) (rest : List Char) :
    StartsText (written ++ rest) := by
  obtain ⟨x, more, rfl, hx⟩ := h
  exact ⟨x, more ++ rest, rfl, hx⟩

/-- The written forms of a text, with the closing quote. -/
inductive Spells (double : Bool) : List Char → List Char → Prop where
  | close : Spells double [quote double] []
  | char {x : Char} {written text : List Char} (graphic : IsGraphic x) (ne_quote : x ≠ quote double)
      (verbatim : double = true → x ≠ '\\') (rest : Spells double written text) :
      Spells double (x :: written) (x :: text)
  | pair {written text : List Char} (single : double = false) (rest : Spells double written text) :
      Spells double ('\x27' :: '\x27' :: written) ('\x27' :: text)
  | escape {code written text : List Char} {x : Char} (isDouble : double = true)
      (stands : Escape code x) (rest : Spells double written text) :
      Spells double ('\\' :: (code ++ written)) (x :: text)
  | blanks {written text : List Char} (n : Nat) (start : StartsText written)
      (rest : Spells double written text) :
      Spells double (spaces (n + 1) ++ written) (spaces (n + 1) ++ text)
  | join {written text : List Char} (isDouble : double = true) (n : Nat) (start : StartsText written)
      (rest : Spells double written text) :
      Spells double ('\\' :: (newLine (n + 1) ++ written)) text
  | lines {written text : List Char} (k n : Nat) (start : StartsText written)
      (rest : Spells double written text) :
      Spells double ('\n' :: (lineFeeds k ++ (spaces (n + 1) ++ written)))
        (Plain.fold ['\n'] (lineFeeds k) ++ text)

section Words

variable {double : Bool} {c c' c₁ : Cursor} {x : Char} {chars rest : List Char}

/-- What is read up to the next blank, line break or closing quote. -/
def WordReads (double : Bool) (c : Cursor) (chars : List Char) (c' : Cursor) : Prop :=
  ∀ fuel, c.rest.length < fuel → word double fuel c = .ok (chars, c')

theorem wordReads_blank (h : isBlankOrEnd c.peek = true) : WordReads double c [] c := by
  intro fuel hfuel
  obtain ⟨fuel, rfl⟩ := Nat.exists_eq_add_one.mpr (Nat.zero_lt_of_lt hfuel)
  simp [word, h]

theorem isBlankOrEnd_quote (double : Bool) : isBlankOrEnd (quote double) = false := by
  cases double <;> decide

/-- The closing quote ends the word; between single quotes it is not doubled. -/
theorem wordReads_quote (h : c.rest = quote double :: rest)
    (hrest : double = false → rest.head? ≠ some '\x27') : WordReads double c [] c := by
  intro fuel hfuel
  obtain ⟨fuel, rfl⟩ := Nat.exists_eq_add_one.mpr (Nat.zero_lt_of_lt hfuel)
  rw [word, Cursor.peek_eq h, isBlankOrEnd_quote]
  cases double with
  | true => simp [quote]
  | false =>
    have hsecond : c.peekAt 1 ≠ '\x27' := by
      intro hquote
      rw [Cursor.peekAt, h, List.drop_succ_cons, List.drop_zero] at hquote
      cases rest with
      | nil => exact absurd hquote (by decide)
      | cons y rest => exact hrest rfl (congrArg some hquote)
    simp [quote, hsecond]

theorem WordReads.char (hx : IsGraphic x) (hquote : x ≠ quote double)
    (hverbatim : double = true → x ≠ '\\') (h : c.rest = x :: rest)
    (hnext : WordReads double c.next chars c₁) : WordReads double c (x :: chars) c₁ := by
  intro fuel hfuel
  obtain ⟨fuel, rfl⟩ := Nat.exists_eq_add_one.mpr (Nat.zero_lt_of_lt hfuel)
  have hmore := hnext fuel (by rw [Cursor.rest_next, h] at *; simpa using hfuel)
  rw [word, Cursor.peek_eq h, hx.isBlankOrEnd, hmore]
  cases double with
  | true =>
    have hx' : x ≠ '\x22' := hquote
    simp [hx', hverbatim rfl, Except.map]
  | false =>
    have hx' : x ≠ '\x27' := hquote
    simp [hx', Except.map]

theorem WordReads.pair (h : c.rest = '\x27' :: '\x27' :: rest)
    (hnext : WordReads false (c.skip 2) chars c₁) : WordReads false c ('\x27' :: chars) c₁ := by
  intro fuel hfuel
  obtain ⟨fuel, rfl⟩ := Nat.exists_eq_add_one.mpr (Nat.zero_lt_of_lt hfuel)
  have hmore := hnext fuel (by rw [Cursor.rest_skip, h] at *; simp at hfuel ⊢; omega)
  have hsecond : c.peekAt 1 = '\x27' := by rw [Cursor.peekAt, h]; rfl
  rw [word, Cursor.peek_eq h, hmore, hsecond]
  simp [isBlankOrEnd, isSpaceOrEnd, isBreakOrEnd, isBreak, isEnd, Except.map]

/-- An escape is read as what it stands for, and the word goes on after it. -/
theorem WordReads.escape {pre : List Char} (h : c.rest = '\\' :: rest)
    (hescape : escape c.next = .ok (pre, c')) (hlength : c'.rest.length ≤ c.next.rest.length)
    (hnext : WordReads true c' chars c₁) : WordReads true c (pre ++ chars) c₁ := by
  intro fuel hfuel
  obtain ⟨fuel, rfl⟩ := Nat.exists_eq_add_one.mpr (Nat.zero_lt_of_lt hfuel)
  rw [Cursor.rest_next, h, List.tail_cons] at hlength
  rw [h, List.length_cons] at hfuel
  have hmore := hnext fuel (by omega)
  rw [word, Cursor.peek_eq h]
  simp [isBlankOrEnd, isSpaceOrEnd, isBreakOrEnd, isBreak, isEnd, hescape, hmore, Except.map]

theorem charOfCode_toNat (x : Char) : charOfCode x.toNat = .ok x := by
  have hvalid := Encoding.toNat_valid x
  have hhuge : ¬ 0x80000000 ≤ x.toNat := by omega
  have hlarge : ¬ 0x110000 ≤ x.toNat := by omega
  have hsurrogate : ¬ (0xD800 ≤ x.toNat ∧ x.toNat ≤ 0xDFFF) := by omega
  simp [charOfCode, hhuge, hlarge, hsurrogate]

theorem escape_of_escape {code : List Char} (hcode : Escape code x) (h : c.rest = code ++ rest) :
    Quoted.escape c = .ok ([x], c.skip code.length) := by
  cases hcode with
  | short hletter =>
    rw [Quoted.escape, Cursor.peek_eq h, hletter]
    rfl
  | @code letter _ digits _ hletter hvalue hstands =>
    have hshort : shortEscape? letter = none := by
      unfold codeLength? at hletter
      split at hletter <;> first | rfl | contradiction
    have hnext : c.next.rest = digits ++ rest := by rw [Cursor.rest_next, h]; rfl
    rw [Quoted.escape, Cursor.peek_eq h, hshort]
    simp only [hletter, hnext, List.take_left, Nat.lt_irrefl, if_false, hvalue, hstands,
      Except.map]
    rfl

end Words

section Spaces

variable {c : Cursor} {rest : List Char}

theorem span_blanks {n : Nat} (h : c.rest = spaces n ++ rest)
    (hrest : ∀ x ∈ rest.head?, x ≠ ' ' ∧ x ≠ '\t') :
    c.span (fun x => x = ' ' || x = '\t') = (spaces n, c.skip n) := by
  have hspan : c.span (fun x => x = ' ' || x = '\t') = (spaces n, c.skip (spaces n).length) := by
    refine Cursor.span_append ?_ ?_ h
    · intro x hx
      simp [List.eq_of_mem_replicate hx]
    · intro x hx
      simp [hrest x hx]
  rwa [Cursor.length_spaces] at hspan

/-- Empty lines and the indentation of the next line. -/
theorem breaks_lineFeeds {k n fuel : Nat} (h : c.rest = lineFeeds k ++ (spaces (n + 1) ++ rest))
    (hrest : StartsText rest) (hfuel : k < fuel) :
    breaks fuel c = .ok (lineFeeds k, c.skip (k + (n + 1))) := by
  induction k generalizing c fuel with
  | zero =>
    obtain ⟨fuel, rfl⟩ := Nat.exists_eq_add_one.mpr hfuel
    have hspaces : c.rest = spaces (n + 1) ++ rest := h
    have hmarker : c.atMarker = false := Cursor.not_atMarker_of_cons hspaces (by decide)
    obtain ⟨x, more, rfl, hx⟩ := hrest
    simp only [isBlankOrEnd, isSpaceOrEnd, isBreakOrEnd, Bool.or_eq_false_iff,
      decide_eq_false_iff_not] at hx
    have hblanks := span_blanks hspaces (by simp [hx])
    have hpeek : (c.skip (n + 1)).peek = x := Cursor.peek_eq (Cursor.rest_skip_spaces hspaces)
    rw [breaks, hmarker, Cursor.skipWhile, hblanks]
    simp [hpeek, hx, lineFeeds]
  | succ k ih =>
    obtain ⟨fuel, rfl⟩ := Nat.exists_eq_add_one.mpr (Nat.zero_lt_of_lt hfuel)
    have hcons : c.rest = '\n' :: (lineFeeds k ++ (spaces (n + 1) ++ rest)) := h
    have hnext : c.next.rest = lineFeeds k ++ (spaces (n + 1) ++ rest) := by
      rw [Cursor.rest_next, hcons]
      rfl
    have hmarker : c.atMarker = false := Cursor.not_atMarker_of_cons hcons (by decide)
    have hblanks : c.span (fun x => x = ' ' || x = '\t') = ([], c) :=
      span_blanks (n := 0) rfl (by simp [hcons])
    have hplace : c.next.skip (k + (n + 1)) = c.skip (k + 1 + (n + 1)) := by
      rw [Nat.add_right_comm k 1]
      rfl
    have hbreak : isBreak '\n' = true := rfl
    rw [breaks, hmarker, Cursor.skipWhile, hblanks]
    simp only [Cursor.peek_eq hcons, hbreak, Cursor.lineBreak_lineFeed hcons,
      ih hnext (Nat.lt_of_succ_lt_succ hfuel), Except.map, Bool.false_eq_true, if_false, if_true,
      hplace]
    rfl

theorem space_spaces {n : Nat} (h : c.rest = spaces n ++ rest)
    (hrest : StartsText rest) :
    space c = .ok (spaces n, c.skip n) := by
  obtain ⟨x, more, rfl, hx⟩ := hrest
  simp only [isBlankOrEnd, isSpaceOrEnd, isBreakOrEnd, Bool.or_eq_false_iff,
    decide_eq_false_iff_not] at hx
  have hblanks := span_blanks h (by simp [hx])
  have hpeek : (c.skip n).peek = x := Cursor.peek_eq (Cursor.rest_skip_spaces h)
  simp [space, hblanks, hpeek, hx]

/-- Line breaks are folded, and the indentation after them is no part of the text. -/
theorem space_lineFeeds {k n : Nat} (h : c.rest = '\n' :: (lineFeeds k ++ (spaces (n + 1) ++ rest)))
    (hrest : StartsText rest) :
    space c = .ok (Plain.fold ['\n'] (lineFeeds k), c.skip (k + (n + 1) + 1)) := by
  have hblanks : c.span (fun x => x = ' ' || x = '\t') = (spaces 0, c.skip 0) :=
    span_blanks rfl (by simp [h])
  have hnext : c.next.rest = lineFeeds k ++ (spaces (n + 1) ++ rest) := by
    rw [Cursor.rest_next, h]
    rfl
  have hlength : k < c.next.rest.length + 1 := by
    rw [hnext, List.length_append, lineFeeds, List.length_replicate]
    omega
  have hend : isEnd '\n' = false := rfl
  have hbreak : isBreak '\n' = true := rfl
  simp only [space, hblanks, Cursor.skip, Cursor.peek_eq h, hend, hbreak, Bool.false_eq_true,
    if_false, if_true, Cursor.lineBreak_lineFeed h, breaks_lineFeeds hnext hrest hlength, Except.map]

/-- A line break after a backslash is no part of the text. -/
theorem escape_newLine {n : Nat} (h : c.rest = newLine (n + 1) ++ rest) (hrest : StartsText rest) :
    Quoted.escape c = .ok ([], c.skip (n + 2)) := by
  have hcons : c.rest = '\n' :: (spaces (n + 1) ++ rest) := h
  have hnext : c.next.rest = lineFeeds 0 ++ (spaces (n + 1) ++ rest) := by
    rw [Cursor.rest_next, hcons]
    rfl
  have hbreaks := breaks_lineFeeds hnext hrest (Nat.succ_pos c.next.rest.length)
  rw [Nat.zero_add] at hbreaks
  have hshort : shortEscape? '\n' = none := rfl
  have hlength : codeLength? '\n' = none := rfl
  have hbreak : isBreak '\n' = true := rfl
  simp only [Quoted.escape, Cursor.peek_eq hcons, hshort, hlength, hbreak, if_true,
    Cursor.lineBreak_lineFeed hcons, hbreaks]
  rfl

end Spaces

section Bodies

variable {double : Bool} {c c' e : Cursor} {chars text rest : List Char}

/-- What is read up to the closing quote: words with the space between them. -/
inductive Reads (double : Bool) : Cursor → List Char → Cursor → Prop where
  | close {c c₁ : Cursor} {chars : List Char} (word : WordReads double c chars c₁)
      (closes : c₁.peek = quote double) : Reads double c chars c₁.next
  | gap {c c₁ c₂ e : Cursor} {chars gap text : List Char} (word : WordReads double c chars c₁)
      (goes : c₁.peek ≠ quote double) (space : space c₁ = .ok (gap, c₂))
      (shorter : c₂.rest.length < c.rest.length) (rest : Reads double c₂ text e) :
      Reads double c (chars ++ gap ++ text) e

theorem Reads.body {fuel : Nat} (h : Reads double c text e) (hfuel : c.rest.length < fuel) :
    body double (quote double) fuel c = .ok (text, e) := by
  induction h generalizing fuel with
  | close hword hcloses =>
    obtain ⟨fuel, rfl⟩ := Nat.exists_eq_add_one.mpr (Nat.zero_lt_of_lt hfuel)
    simp [Quoted.body, hword _ (Nat.lt_succ_self _), hcloses, bind, Except.bind]
  | gap hword hgoes hspace hshorter hrest ih =>
    obtain ⟨fuel, rfl⟩ := Nat.exists_eq_add_one.mpr (Nat.zero_lt_of_lt hfuel)
    have hmore := ih (Nat.lt_of_lt_of_le hshorter (Nat.le_of_lt_succ hfuel))
    simp [Quoted.body, hword _ (Nat.lt_succ_self _), hgoes, hspace, hmore, bind, Except.bind]

/-- What the first word starts with can be put in front of it. -/
theorem Reads.prepend (pre : List Char) (hlength : c'.rest.length ≤ c.rest.length)
    (hword : ∀ {chars c₁}, WordReads double c' chars c₁ → WordReads double c (pre ++ chars) c₁)
    (h : Reads double c' text e) : Reads double c (pre ++ text) e := by
  cases h with
  | close word closes => exact .close (hword word) closes
  | gap word goes space shorter rest =>
    rw [← List.append_assoc, ← List.append_assoc]
    exact .gap (hword word) goes space (Nat.lt_of_lt_of_le shorter hlength) rest

/-- A scalar that starts with space. -/
theorem Reads.space {gap : List Char} {n : Nat} (hblank : isBlankOrEnd c.peek = true)
    (hspace : Quoted.space c = .ok (gap, c.skip (n + 1))) (hrest : c.rest ≠ [])
    (h : Reads double (c.skip (n + 1)) text e) : Reads double c (gap ++ text) e := by
  have hquote : c.peek ≠ quote double := by
    intro hquote
    rw [hquote, isBlankOrEnd_quote] at hblank
    exact absurd hblank (by decide)
  have hlength : (c.skip (n + 1)).rest.length < c.rest.length := by
    rw [Cursor.rest_skip, List.length_drop]
    have := List.length_pos_iff.mpr hrest
    omega
  exact .gap (wordReads_blank hblank) hquote hspace hlength h

/-- Every written form is read as its text, up to the closing quote. -/
theorem reads_of_spells {written : List Char} (h : Spells double written text)
    (hc : c.rest = written ++ rest) (hrest : double = false → rest.head? ≠ some '\x27') :
    Reads double c text (c.skip written.length) := by
  induction h generalizing c with
  | close => exact .close (wordReads_quote hc hrest) (Cursor.peek_eq hc)
  | @char x written text graphic ne_quote verbatim _ ih =>
    have hnext : c.next.rest = written ++ rest := by rw [Cursor.rest_next, hc]; rfl
    have hlength : c.next.rest.length ≤ c.rest.length := by simp [hc, hnext]
    exact (ih hnext).prepend [x] hlength (WordReads.char graphic ne_quote verbatim hc)
  | @pair written text single _ ih =>
    subst single
    have hnext : (c.skip 2).rest = written ++ rest := by rw [Cursor.rest_skip, hc]; rfl
    have hlength : (c.skip 2).rest.length ≤ c.rest.length := by simp
    exact (ih hnext).prepend ['\x27'] hlength (WordReads.pair hc)
  | @escape code written text x isDouble stands _ ih =>
    subst isDouble
    have hcode : c.next.rest = code ++ (written ++ rest) := by
      rw [Cursor.rest_next, hc, List.cons_append, List.append_assoc]
      rfl
    have hescape := escape_of_escape stands hcode
    have hnext := Cursor.rest_skip_length hcode
    have hlength : (c.next.skip code.length).rest.length ≤ c.next.rest.length := by simp
    have htail : c.next.rest.length ≤ c.rest.length := by simp [Cursor.rest_next]
    have hread := (ih hnext).prepend [x] (Nat.le_trans hlength htail) (WordReads.escape hc hescape hlength)
    rwa [← Cursor.skip_append] at hread
  | @blanks written text n start _ ih =>
    have hspaces : c.rest = spaces (n + 1) ++ (written ++ rest) := by rw [hc, List.append_assoc]
    have hblank : isBlankOrEnd c.peek = true := by rw [Cursor.peek_eq hspaces]; rfl
    have hread := Reads.space hblank (space_spaces hspaces (start.append rest))
      (by simp [hc, spaces]) (ih (Cursor.rest_skip_spaces hspaces))
    rwa [Cursor.skip_append, Cursor.length_spaces]
  | @join written text isDouble n start _ ih =>
    subst isDouble
    have hcode : c.next.rest = newLine (n + 1) ++ (written ++ rest) := by
      rw [Cursor.rest_next, hc, List.cons_append, List.append_assoc]
      rfl
    have hescape := escape_newLine hcode (start.append rest)
    have hnext : (c.next.skip (n + 2)).rest = written ++ rest := by rw [Cursor.skip_newLine hcode]
    have hlength : (c.next.skip (n + 2)).rest.length ≤ c.next.rest.length := by simp
    have htail : c.next.rest.length ≤ c.rest.length := by simp [Cursor.rest_next]
    have hread := (ih hnext).prepend [] (Nat.le_trans hlength htail) (WordReads.escape hc hescape hlength)
    rw [List.length_cons, Cursor.skip, Cursor.skip_append, Cursor.length_newLine]
    exact hread
  | @lines written text k n start _ ih =>
    have hlines : c.rest = '\n' :: (lineFeeds k ++ (spaces (n + 1) ++ (written ++ rest))) := by
      simpa using hc
    have hgap : c.rest = '\n' :: (lineFeeds k ++ spaces (n + 1)) ++ (written ++ rest) := by
      simpa using hlines
    have hlength : ('\n' :: (lineFeeds k ++ spaces (n + 1))).length = k + (n + 1) + 1 := by
      simp [lineFeeds]
    have hnext : (c.skip (k + (n + 1) + 1)).rest = written ++ rest :=
      hlength ▸ Cursor.rest_skip_length hgap
    have hblank : isBlankOrEnd c.peek = true := by rw [Cursor.peek_eq hlines]; rfl
    have hread := Reads.space hblank (space_lineFeeds hlines (start.append rest)) (by simp [hc])
      (ih hnext)
    rwa [← List.append_assoc, ← List.cons_append, Cursor.skip_append, hlength]

/-- A quoted scalar is read as its text, in front of anything that does not double the quote. -/
theorem read_of_spells {written : List Char} (h : Spells double written text)
    (hc : c.rest = quote double :: (written ++ rest))
    (hrest : double = false → rest.head? ≠ some '\x27') :
    read double c = .ok (text, c.skip (written.length + 1)) := by
  have hnext : c.next.rest = written ++ rest := by rw [Cursor.rest_next, hc]; rfl
  have hlength : c.next.rest.length < c.rest.length + 1 := by
    rw [hnext, hc, List.length_cons]
    omega
  exact (reads_of_spells h hnext hrest).body hlength

end Bodies

section Blanks

variable {double : Bool} {written text : List Char}

/-- A space can be put in front of whatever is not a line break. -/
theorem Spells.blank (hline : written.head? ≠ some '\n') (h : Spells double written text) :
    Spells double (' ' :: written) (' ' :: text) := by
  have hstart (hstart : StartsText written) : Spells double (' ' :: written) (' ' :: text) :=
    .blanks 0 hstart h
  cases h with
  | close => exact hstart ⟨_, _, rfl, isBlankOrEnd_quote double⟩
  | char graphic => exact hstart ⟨_, _, rfl, graphic.isBlankOrEnd⟩
  | pair => exact hstart ⟨_, _, rfl, rfl⟩
  | escape => exact hstart ⟨_, _, rfl, rfl⟩
  | blanks n start rest => exact .blanks (n + 1) start rest
  | join => exact hstart ⟨_, _, rfl, rfl⟩
  | lines => exact absurd rfl hline

/-- Only a space spells itself without a quote or a backslash. -/
theorem Spells.of_blank (h : Spells double (' ' :: written) (' ' :: text)) :
    Spells double written text := by
  generalize hw : ' ' :: written = written', ht : ' ' :: text = text' at h
  cases h with
  | close => cases double <;> simp [quote] at hw
  | char graphic =>
    injection hw with hw
    exact absurd hw.symm graphic.2
  | pair => simp at hw
  | escape => simp at hw
  | @blanks w t n start rest =>
    obtain rfl : written = spaces n ++ w := (List.cons.inj hw).2
    obtain rfl : text = spaces n ++ t := (List.cons.inj ht).2
    cases n with
    | zero => exact rest
    | succ n => exact .blanks n start rest
  | join => simp at hw
  | lines => simp at hw

end Blanks

section Double

theorem isGraphic_of_isVerbatim {x : Char} (h : isVerbatim x = true) (hspace : x ≠ ' ') : IsGraphic x := by
  simp only [isVerbatim, Bool.and_eq_true, decide_eq_true_eq] at h
  exact ⟨⟨h.1.1.1, h.1.1.2⟩, hspace⟩

theorem Spells.verbatim {x : Char} {written text : List Char} (hx : isVerbatim x = true)
    (hspace : x ≠ ' ') (h : Spells true written text) : Spells true (x :: written) (x :: text) := by
  have hgraphic := isGraphic_of_isVerbatim hx hspace
  simp only [isVerbatim, Bool.and_eq_true, decide_eq_true_eq] at hx
  exact .char hgraphic hx.1.2 (fun _ => hx.2) h

/-- Every character has an escape. -/
theorem exists_escaped (x : Char) : ∃ code, escaped x = '\\' :: code ∧ Escape code x := by
  rw [escaped]
  split
  case h_1 letter hletter =>
    refine ⟨[letter], rfl, .short ?_⟩
    unfold Writer.shortEscape? at hletter
    split at hletter <;> cases hletter <;> rfl
  case h_2 =>
    have hdigits (n : Nat) (h : x.toNat < Nat.pow 16 n) :
        Text.hexNumber? (Text.hexDigits .upper n x.toNat) = some x.toNat := by
      rw [Text.hexNumber?_hexDigits, Nat.mod_eq_of_lt h]
    have hvalid := Encoding.toNat_valid x
    split
    case isTrue h =>
      refine ⟨_, rfl, .code ?_ (hdigits 2 (show x.toNat < 0x100 by omega)) (charOfCode_toNat x)⟩
      rw [Text.length_hexDigits]
      rfl
    case isFalse =>
      split
      case isTrue h =>
        refine ⟨_, rfl, .code ?_ (hdigits 4 (show x.toNat < 0x10000 by omega)) (charOfCode_toNat x)⟩
        rw [Text.length_hexDigits]
        rfl
      case isFalse =>
        refine ⟨_, rfl, .code ?_ (hdigits 8 (show x.toNat < 0x100000000 by omega)) (charOfCode_toNat x)⟩
        rw [Text.length_hexDigits]
        rfl

/-- A line break that is no part of the text can be put in front of whatever is read as text; a
space after it is written as an escape. -/
theorem Spells.escapedBreak {indent : Nat} {next : Option Char} {written text : List Char}
    (hindent : 0 < indent) (h : Spells true written text)
    (hspace : next = some ' ' → ∃ w t, written = ' ' :: w ∧ text = ' ' :: t)
    (hstart : next ≠ some ' ' → StartsText written) :
    Spells true (escapedBreak indent next ++ written) text := by
  obtain ⟨n, rfl⟩ := Nat.exists_eq_add_one.mpr hindent
  by_cases hnext : next = some ' '
  · obtain ⟨w, t, rfl, rfl⟩ := hspace hnext
    have hescape : Spells true ('\\' :: ([' '] ++ w)) (' ' :: t) := .escape rfl (.short rfl) h.of_blank
    have hjoin := Spells.join rfl n ⟨_, _, rfl, rfl⟩ hescape
    simpa [Writer.escapedBreak, hnext] using hjoin
  · have hjoin := Spells.join rfl n (hstart hnext) h
    simpa [Writer.escapedBreak, hnext] using hjoin

theorem startsText_doubleChars {indent column : Nat} {split first afterEscape : Bool}
    {text : List Char} (h : text.head? ≠ some ' ') :
    StartsText (doubleChars indent split column first afterEscape text ++ [quote true]) := by
  cases text with
  | nil => exact ⟨_, _, rfl, rfl⟩
  | cons x text =>
    have hspace : x ≠ ' ' := by
      rintro rfl
      exact h rfl
    obtain ⟨code, hcode, -⟩ := exists_escaped x
    rw [doubleChars]
    split
    case isTrue hx =>
      split
      · exact ⟨_, _, rfl, rfl⟩
      · exact ⟨_, _, rfl, (isGraphic_of_isVerbatim hx hspace).isBlankOrEnd⟩
    case isFalse =>
      simp only [hcode]
      split <;> exact ⟨_, _, rfl, rfl⟩

theorem head?_doubleChars (indent column : Nat) (split first afterEscape : Bool)
    (text : List Char) :
    (doubleChars indent split column first afterEscape text ++ [quote true]).head? ≠ some '\n' := by
  by_cases h : text.head? = some ' '
  · obtain ⟨text, rfl⟩ : ∃ rest, text = ' ' :: rest := List.head?_eq_some_iff.mp h
    have hverbatim : isVerbatim ' ' = true := rfl
    rw [doubleChars, if_pos hverbatim]
    split <;> simp [Writer.escapedBreak]
  · obtain ⟨x, rest, hx, hblank⟩ := startsText_doubleChars h
    rw [hx]
    rintro ⟨⟩
    exact absurd hblank (by decide)

theorem doubleChars_space {indent column : Nat} {split first afterEscape : Bool}
    (h : column ≤ width) (text : List Char) :
    doubleChars indent split column first afterEscape (' ' :: text)
      = ' ' :: doubleChars indent split (column + 1) false false text := by
  have hverbatim : isVerbatim ' ' = true := rfl
  rw [doubleChars, if_pos hverbatim]
  simp [Nat.not_lt.mpr h]

/-- What is written between double quotes spells the text, wherever lines are broken. -/
theorem spells_doubleChars {indent : Nat} {split : Bool}
    (hindent : split = true → 0 < indent ∧ indent < width) (column : Nat)
    (first afterEscape : Bool) (text : List Char) :
    Spells true (doubleChars indent split column first afterEscape text ++ [quote true]) text := by
  induction text generalizing column first afterEscape with
  | nil => exact .close
  | cons x text ih =>
    rw [doubleChars]
    split
    case isTrue hx =>
      have hkeep (column : Nat) : Spells true
          (x :: (doubleChars indent split column false false text ++ [quote true])) (x :: text) := by
        by_cases hspace : x = ' '
        · exact hspace ▸ (ih ..).blank (head?_doubleChars _ _ _ _ _ _)
        · exact (ih ..).verbatim hx hspace
      split
      case isTrue hbreak =>
        simp only [Bool.and_eq_true] at hbreak
        rw [List.append_assoc]
        refine (hkeep _).escapedBreak (hindent hbreak.1.1.1.1).1 ?_ ?_
        · rintro ⟨⟩
          exact ⟨_, _, rfl, rfl⟩
        · intro hspace
          exact ⟨_, _, rfl, (isGraphic_of_isVerbatim hx (by simpa using hspace)).isBlankOrEnd⟩
      case isFalse => exact hkeep _
    case isFalse hx =>
      obtain ⟨code, hcode, hescape⟩ := exists_escaped x
      rw [hcode]
      dsimp only
      split
      case isTrue hbreak =>
        simp only [Bool.and_eq_true] at hbreak
        obtain ⟨hpositive, hwidth⟩ := hindent hbreak.1.1.1
        rw [List.append_assoc, List.append_assoc]
        refine .escape rfl hescape ((ih ..).escapedBreak hpositive ?_ startsText_doubleChars)
        intro hspace
        obtain ⟨rest, rfl⟩ := List.head?_eq_some_iff.mp hspace
        have hcolumn : Writer.columnAfterBreak indent (some ' ') ≤ width := hwidth
        rw [hspace, doubleChars_space hcolumn]
        exact ⟨_, rest, rfl, rfl⟩
      case isFalse =>
        rw [List.append_assoc]
        exact .escape rfl hescape (ih ..)

end Double

section Single

theorem anyPair_of_append {p q : Char → Bool} {u v : List Char} (h : anyPair p q (u ++ v) = false) :
    anyPair p q v = false := by
  induction u with
  | nil => exact h
  | cons x u ih =>
    apply ih
    cases hrest : u ++ v with
    | nil => rfl
    | cons y rest =>
      rw [List.cons_append, hrest, anyPair, Bool.or_eq_false_iff] at h
      exact h.2

theorem allowsSingle_iff {text : List Char} : allowsSingle text = true ↔
    (∀ x ∈ text, isOrdinary x = true) ∧ anyPair isTextBreak (· = ' ') text = false
      ∧ anyPair (· = ' ') isTextBreak text = false := by
  simp [allowsSingle, and_assoc]

theorem allowsSingle_of_append {u v : List Char} (h : allowsSingle (u ++ v) = true) :
    allowsSingle v = true := by
  obtain ⟨hordinary, hbreak, hspace⟩ := allowsSingle_iff.mp h
  exact allowsSingle_iff.mpr ⟨fun x hx => hordinary x (List.mem_append_right u hx),
    anyPair_of_append hbreak, anyPair_of_append hspace⟩

/-- No space is next to a line break. -/
theorem allowsSingle_pair {x : Char} {rest : List Char} (h : allowsSingle (x :: rest) = true) :
    (x = '\n' → rest.head? ≠ some ' ') ∧ (x = ' ' → rest.head? ≠ some '\n') := by
  obtain ⟨-, hbreak, hspace⟩ := allowsSingle_iff.mp h
  cases rest with
  | nil => simp
  | cons y rest =>
    rw [anyPair, Bool.or_eq_false_iff] at hbreak hspace
    constructor
    · rintro rfl ⟨⟩
      simp [isTextBreak] at hbreak
    · rintro rfl ⟨⟩
      simp [isTextBreak] at hspace

theorem exists_lineFeeds (text : List Char) :
    ∃ k rest, text = lineFeeds k ++ rest ∧ rest.head? ≠ some '\n' := by
  induction text with
  | nil => exact ⟨0, [], rfl, by simp⟩
  | cons x text ih =>
    by_cases hx : x = '\n'
    · obtain ⟨k, rest, rfl, hrest⟩ := ih
      exact ⟨k + 1, rest, by rw [hx]; rfl, hrest⟩
    · exact ⟨0, x :: text, rfl, by simpa using hx⟩

/-- A row of line breaks is written as one more, with the indentation after the last. -/
theorem singleChars_lineFeeds {indent column : Nat} {previous : Option Char} (k : Nat)
    {rest : List Char} (hrest : rest.head? ≠ some '\n') :
    singleChars indent column previous ('\n' :: (lineFeeds k ++ rest))
      = (if previous = some '\n' then ['\n'] else ['\n', '\n'])
        ++ (lineFeeds k ++ (spaces indent ++ singleChars indent indent (some '\n') rest)) := by
  induction k generalizing column previous with
  | zero =>
    have hhead : (lineFeeds 0 ++ rest).head? ≠ some '\n' := hrest
    rw [singleChars, if_pos rfl, if_neg hhead, List.append_assoc]
    rfl
  | succ k ih =>
    have hcons : lineFeeds (k + 1) ++ rest = '\n' :: (lineFeeds k ++ rest) := rfl
    rw [hcons, singleChars, if_pos rfl, List.head?_cons, if_pos rfl, ih, if_pos rfl, List.append_nil]
    rfl

theorem startsText_singleChars {indent column : Nat} {previous : Option Char} {text : List Char}
    (hallows : allowsSingle text = true) (hspace : text.head? ≠ some ' ')
    (hline : text.head? ≠ some '\n') :
    StartsText (singleChars indent column previous text ++ [quote false]) := by
  cases text with
  | nil => exact ⟨_, _, rfl, rfl⟩
  | cons x text =>
    have hx : IsGraphic x := by
      obtain h | h := isOrdinary_iff.mp ((allowsSingle_iff.mp hallows).1 x List.mem_cons_self)
      · exact absurd (congrArg some h) hline
      · exact ⟨h, fun h => hspace (congrArg some h)⟩
    have hne : x ≠ '\n' := hx.1.ne (by decide)
    simp only [singleChars, hne, if_false, hx.2, decide_false, Bool.false_and, Bool.false_eq_true]
    split
    · exact ⟨_, _, rfl, rfl⟩
    · exact ⟨_, _, rfl, hx.isBlankOrEnd⟩

theorem head?_singleChars {indent column : Nat} {text : List Char} (h : text.head? ≠ some '\n') :
    (singleChars indent column (some ' ') text ++ [quote false]).head? ≠ some '\n' := by
  cases text with
  | nil => simp [singleChars, quote]
  | cons x text =>
    have hne : x ≠ '\n' := fun hx => h (congrArg some hx)
    simp only [singleChars, hne, if_false, Option.any_some, ne_eq, not_true_eq_false, decide_false,
      Bool.and_false, Bool.false_and, Bool.false_eq_true]
    split
    · simp
    · simpa using hne

/-- A row of line breaks is folded, and the text after it starts a line. -/
theorem spells_singleChars_lines {n column : Nat} {previous : Option Char} {rest : List Char} (k : Nat)
    (hallows : allowsSingle ('\n' :: (lineFeeds k ++ rest)) = true) (hprevious : previous ≠ some '\n')
    (hhead : rest.head? ≠ some '\n')
    (hnext : Spells false (singleChars (n + 1) (n + 1) (some '\n') rest ++ [quote false]) rest) :
    Spells false (singleChars (n + 1) column previous ('\n' :: (lineFeeds k ++ rest)) ++ [quote false])
      ('\n' :: (lineFeeds k ++ rest)) := by
  have hshift : '\n' :: (lineFeeds k ++ rest) = lineFeeds k ++ '\n' :: rest := by
    have hrow : '\n' :: lineFeeds k = lineFeeds k ++ ['\n'] := List.replicate_succ'
    rw [← List.cons_append, hrow, List.append_assoc]
    rfl
  have hlast : allowsSingle ('\n' :: rest) = true :=
    allowsSingle_of_append (u := lineFeeds k) (hshift ▸ hallows)
  have hrest : allowsSingle rest = true := allowsSingle_of_append (u := ['\n']) hlast
  rw [singleChars_lineFeeds k hhead, if_neg hprevious]
  have hlines := Spells.lines (k + 1) n
    (startsText_singleChars hrest ((allowsSingle_pair hlast).1 rfl) hhead) hnext
  simpa [Plain.fold, lineFeeds, List.replicate_succ] using hlines

/-- A character that breaks no line is written as it is, but for quotes and the blanks at which lines
are folded. -/
theorem spells_singleChars_cons {n column : Nat} {previous : Option Char} {x : Char} {text : List Char}
    (hallows : allowsSingle (x :: text) = true) (hline : x ≠ '\n')
    (hnext : ∀ column, Spells false (singleChars (n + 1) column (some x) text ++ [quote false]) text) :
    Spells false (singleChars (n + 1) column previous (x :: text) ++ [quote false]) (x :: text) := by
  have hrest : allowsSingle text = true := allowsSingle_of_append (u := [x]) hallows
  have hpair := allowsSingle_pair hallows
  rw [singleChars, if_neg hline]
  split
  case isTrue hfold =>
    simp only [Bool.and_eq_true, decide_eq_true_eq] at hfold
    obtain ⟨⟨⟨⟨rfl, -⟩, -⟩, hspace⟩, -⟩ := hfold
    have hlines := Spells.lines 0 n
      (startsText_singleChars hrest (by simpa using hspace) (hpair.2 rfl)) (hnext (n + 1))
    rw [List.append_assoc]
    exact hlines
  case isFalse =>
    split
    case isTrue hquote =>
      subst hquote
      exact .pair rfl (hnext _)
    case isFalse hquote =>
      by_cases hspace : x = ' '
      · subst hspace
        exact (hnext _).blank (head?_singleChars (hpair.2 rfl))
      · obtain h | h := isOrdinary_iff.mp ((allowsSingle_iff.mp hallows).1 x List.mem_cons_self)
        · exact absurd h hline
        · exact .char ⟨h, hspace⟩ hquote nofun (hnext _)

/-- What is written between single quotes spells the text. The induction is on the length, since a
whole row of line breaks is taken away at once. -/
theorem spells_singleChars {indent : Nat} (hindent : 0 < indent) {column : Nat}
    {previous : Option Char} {text : List Char} (hallows : allowsSingle text = true)
    (hprevious : previous = some '\n' → text.head? ≠ some '\n') :
    Spells false (singleChars indent column previous text ++ [quote false]) text := by
  induction hlength : text.length using Nat.strongRecOn generalizing column previous text with
  | ind length ih =>
    obtain ⟨n, rfl⟩ := Nat.exists_eq_add_one.mpr hindent
    cases text with
    | nil => exact .close
    | cons x text =>
      have hrest : allowsSingle text = true := allowsSingle_of_append (u := [x]) hallows
      have hshorter : text.length < length := by
        rw [← hlength]
        exact Nat.lt_succ_self _
      by_cases hline : x = '\n'
      · subst hline
        obtain ⟨k, rest, rfl, hhead⟩ := exists_lineFeeds text
        have hmore : rest.length < length := by
          rw [List.length_append] at hshorter
          omega
        exact spells_singleChars_lines k hallows (fun h => hprevious h rfl) hhead
          (ih _ hmore (allowsSingle_of_append (u := lineFeeds k) hrest) (fun _ => hhead) rfl)
      · exact spells_singleChars_cons hallows hline fun column =>
          ih _ hshorter hrest (fun h => absurd (Option.some.inj h) hline) rfl

/-- A single line between single quotes, with its quotes doubled. -/
theorem spells_doubled {text : List Char} (htext : ∀ x ∈ text, IsPrintable x) :
    Spells false (text.flatMap (fun x => if x = '\x27' then [x, x] else [x]) ++ [quote false])
      text := by
  induction text with
  | nil => exact .close
  | cons x text ih =>
    rw [List.forall_mem_cons] at htext
    rw [List.flatMap_cons, List.append_assoc]
    split
    case isTrue hquote =>
      subst hquote
      exact .pair rfl (ih htext.2)
    case isFalse hquote =>
      by_cases hspace : x = ' '
      · subst hspace
        refine (ih htext.2).blank ?_
        cases text with
        | nil => simp [quote]
        | cons y text =>
          have hy : y ≠ '\n' := htext.2 y List.mem_cons_self |>.ne (by decide)
          rw [List.flatMap_cons]
          split <;> simpa using hy
      · exact .char ⟨htext.1, hspace⟩ hquote nofun (ih htext.2)

end Single

end ContextConfig.Yaml.Quoted
