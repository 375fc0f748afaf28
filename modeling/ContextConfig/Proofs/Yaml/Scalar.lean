import ContextConfig.Proofs.Yaml.Plain
import ContextConfig.Proofs.Yaml.Quoted
/-!
# Scalars as they are written

Whatever style the writer chooses for a text, what it writes is one of the forms that are read back
as that text. It consists of ordinary characters, starts a scalar wherever one may start, and stays
on its line where it is a key without a question mark.
-/

namespace ContextConfig.Yaml

open Writer

/-- Whether a plain scalar can start like this. -/
structure Opens (text : List Char) : Prop where
  leading : ∀ x ∈ text.head?, isLeadingIndicator x = false
  alone : ∀ x rest, text = x :: rest → x = '-' ∨ x = '?' ∨ x = ':' →
    isBlankOrEnd (rest.headD '\x00') = false
  marker : ¬ ['-', '-', '-'] <+: text ∧ ¬ ['.', '.', '.'] <+: text

/-- The written forms of a scalar in lines that are indented to `indent`; the flag tells the plain
ones from the quoted ones. -/
inductive Spelled (indent : Nat) : List Char → List Char → Bool → Prop where
  | plain {written text : List Char} (opens : Opens written) (h : Plain.Spells indent written text) :
      Spelled indent written text true
  | quoted (double : Bool) {written text : List Char} (h : Quoted.Spells double written text) :
      Spelled indent (Quoted.quote double :: written) text false

theorem Spelled.exists_cons {indent : Nat} {written text : List Char} {plain : Bool}
    (h : Spelled indent written text plain) : ∃ x rest, written = x :: rest := by
  cases h with
  | plain _ h =>
    obtain ⟨x, rest, h, -⟩ := h.exists_cons
    exact ⟨x, rest, h⟩
  | quoted double => exact ⟨_, _, rfl⟩

section Plain

theorem startsWith_iff {lead text : List Char} : Text.startsWith lead text = true ↔ lead <+: text := by
  rw [Text.startsWith, Option.isSome_iff_exists]
  simp only [Text.after?_eq_some_iff]
  exact ⟨fun ⟨rest, h⟩ => ⟨rest, h.symm⟩, fun ⟨rest, h⟩ => ⟨rest, h.symm⟩⟩

theorem opens_of_not_hasIndicator {text : List Char} (h : hasIndicator text = false) : Opens text := by
  cases text with
  | nil => exact ⟨by simp, by simp, by simp⟩
  | cons x rest =>
    simp only [hasIndicator, Bool.or_eq_false_iff, Bool.and_eq_false_iff,
      decide_eq_false_iff_not] at h
    obtain ⟨⟨⟨⟨hleading, halone⟩, -⟩, hdashes⟩, hdots⟩ := h
    refine ⟨?_, ?_, ?_, ?_⟩
    · rintro y ⟨⟩
      exact hleading
    · rintro y r ⟨⟩ hy
      apply halone.resolve_left
      rintro ⟨⟨hquestion, hcolon⟩, hdash⟩
      obtain h | h | h := hy
      · exact hdash h
      · exact hquestion h
      · exact hcolon h
    · rw [← startsWith_iff, hdashes]
      decide
    · rw [← startsWith_iff, hdots]
      decide

theorem isPrefix_of_plainChars {indent column : Nat} {afterSpace : Bool} {lead text : List Char}
    (hlead : ∀ x ∈ lead, IsGraphic x) (h : lead <+: plainChars indent column afterSpace text) :
    lead <+: text := by
  induction text generalizing lead column afterSpace with
  | nil => exact h
  | cons c text ih =>
    cases lead with
    | nil => exact List.nil_prefix
    | cons x lead =>
      rw [List.forall_mem_cons] at hlead
      rw [plainChars] at h
      split at h
      case isTrue =>
        obtain ⟨rfl, -⟩ := List.cons_prefix_cons.mp h
        exact absurd hlead.1 (by decide)
      case isFalse =>
        obtain ⟨rfl, h⟩ := List.cons_prefix_cons.mp h
        exact List.cons_prefix_cons.mpr ⟨rfl, ih hlead.2 h⟩

/-- Breaking lines does not change how a scalar starts. -/
theorem Opens.plainChars {indent column : Nat} {text : List Char} (h : Opens text)
    (hspace : text.head? ≠ some ' ') : Opens (plainChars indent column false text) := by
  cases text with
  | nil => exact h
  | cons x rest =>
    have hx : x ≠ ' ' := by
      rintro rfl
      exact hspace rfl
    have hgraphic : (∀ x ∈ ['-', '-', '-'], IsGraphic x) ∧ ∀ x ∈ ['.', '.', '.'], IsGraphic x := by
      simp [IsGraphic, IsPrintable]
    have hwritten : Writer.plainChars indent column false (x :: rest)
        = x :: Writer.plainChars indent (column + 1) false rest := by simp [Writer.plainChars, hx]
    refine ⟨?_, ?_, ?_, ?_⟩
    · rw [hwritten]
      exact h.leading
    · rw [hwritten]
      rintro y r ⟨⟩ hy
      have halone := h.alone x rest rfl hy
      cases rest with
      | nil => exact halone
      | cons z rest =>
        have hz : z ≠ ' ' := by
          rintro rfl
          simp [isBlankOrEnd, isSpaceOrEnd] at halone
        simpa [Writer.plainChars, hz] using halone
    · intro hdashes
      exact h.marker.1 (isPrefix_of_plainChars hgraphic.1 hdashes)
    · intro hdots
      exact h.marker.2 (isPrefix_of_plainChars hgraphic.2 hdots)

theorem isOrdinary_of_allowsSingle {text : List Char} (h : allowsSingle text = true) :
    ∀ x ∈ text, isOrdinary x = true :=
  (Quoted.allowsSingle_iff.mp h).1

/-- A text in one line has no line feed. -/
theorem printable_of_allowsSingle {text : List Char} (h : allowsSingle text = true)
    (hline : isMultiline text = false) : ∀ x ∈ text, IsPrintable x := by
  intro x hx
  refine (isOrdinary_iff.mp (isOrdinary_of_allowsSingle h x hx)).resolve_left ?_
  rintro rfl
  have := List.any_eq_false.mp hline '\n' hx
  simp [isTextBreak] at this

theorem allowsPlain_iff {tag : Tag} {text : List Char} : allowsPlain tag text = true ↔
    implicitTag standardRules text = tag ∧ allowsSingle text = true ∧ isMultiline text = false
      ∧ hasOuterBlank text = false ∧ hasIndicator text = false := by
  simp [allowsPlain, and_assoc]

theorem phrase_of_not_hasIndicator {text : List Char} (hprint : ∀ x ∈ text, IsPrintable x)
    (h : hasIndicator text = false) (hne : text ≠ []) (hhead : text.head? ≠ some ' ')
    (hlast : text.getLast? ≠ some ' ') : Plain.Phrase text := by
  obtain ⟨x, rest, rfl⟩ := List.exists_cons_of_ne_nil hne
  have halone := (opens_of_not_hasIndicator h).alone x rest rfl
  have hinner : hasInnerIndicator 'x' (x :: rest) = false := by
    simp only [hasIndicator, Bool.or_eq_false_iff] at h
    have hcolon : (decide (x = ':') && isBlankOrEnd (rest.headD '\x00')) = false := by
      rw [Bool.and_eq_false_iff, decide_eq_false_iff_not]
      by_cases hx : x = ':'
      · exact .inr (halone (.inr (.inr hx)))
      · exact .inl hx
    have hletter : isBlankOrEnd 'x' = false := rfl
    rw [hasInnerIndicator, hcolon, hletter, h.1.1.2]
    simp
  exact Plain.phrase_of_not_hasInnerIndicator hprint hinner hne hhead hlast

/-- A text that is written plain is a row of words that can start a plain scalar. -/
theorem phrase_of_allowsPlain {text : List Char} (h : allowsPlain .str text = true) :
    Opens text ∧ Plain.Phrase text := by
  obtain ⟨htag, hsingle, hline, hblank, hindicator⟩ := allowsPlain_iff.mp h
  have hne : text ≠ [] := by
    rintro rfl
    exact absurd htag (by decide +kernel)
  have hhead : text.head? ≠ some ' ' := by
    intro hspace
    simp [hasOuterBlank, hspace] at hblank
  have hlast : text.getLast? ≠ some ' ' := by
    intro hspace
    simp [hasOuterBlank, hspace] at hblank
  exact ⟨opens_of_not_hasIndicator hindicator,
    phrase_of_not_hasIndicator (printable_of_allowsSingle hsingle hline) hindicator hne hhead hlast⟩

end Plain

section Written

theorem style_cases (tag : Tag) (text : List Char) :
    (style tag text = .plain ∧ allowsPlain tag text = true) ∨
    (style tag text = .single ∧ allowsSingle text = true) ∨ style tag text = .double := by
  rw [style]
  split
  case isTrue h => exact .inl ⟨rfl, h⟩
  case isFalse =>
    split
    case isTrue h => exact .inr (.inl ⟨rfl, h⟩)
    case isFalse => exact .inr (.inr rfl)

/-- A text is written in one of its forms. -/
theorem spelled_scalar {indent : Nat} (hindent : 0 < indent ∧ indent < width) (column : Nat)
    (text : List Char) :
    Spelled indent (scalar .str false indent column text) text (style .str text = .plain) := by
  obtain ⟨hstyle, h⟩ | ⟨hstyle, h⟩ | hstyle := style_cases .str text
  · obtain ⟨hopens, hphrase⟩ := phrase_of_allowsPlain h
    obtain ⟨x, rest, rfl, hx⟩ := hphrase.exists_cons
    rw [scalar, hstyle]
    exact .plain (hopens.plainChars (by simp [hx.2])) (hphrase.spells_plainChars indent column)
  · rw [scalar, hstyle]
    exact .quoted false (Quoted.spells_singleChars hindent.1 h nofun)
  · rw [scalar, hstyle]
    exact .quoted true (Quoted.spells_doubleChars (fun _ => hindent) ..)

/-- So is a key without a question mark, at every indentation since it has one line. -/
theorem spelled_simpleKey (n indent column : Nat) {text : List Char}
    (hline : isMultiline text = false) :
    Spelled n (scalar .str true indent column text) text (style .str text = .plain) := by
  obtain ⟨hstyle, h⟩ | ⟨hstyle, h⟩ | hstyle := style_cases .str text
  · obtain ⟨hopens, hphrase⟩ := phrase_of_allowsPlain h
    rw [scalar, hstyle]
    exact .plain hopens (hphrase.spells_self n)
  · rw [scalar, hstyle]
    exact .quoted false (Quoted.spells_doubled (printable_of_allowsSingle h hline))
  · rw [scalar, hstyle]
    exact .quoted true (Quoted.spells_doubleChars (fun h => absurd h (by decide)) ..)

theorem doubleChars_unsplit (indent indent' column column' : Nat) (first first' afterEscape : Bool)
    (text : List Char) : doubleChars indent false column first afterEscape text
      = doubleChars indent' false column' first' afterEscape text := by
  induction text generalizing column column' first first' afterEscape with
  | nil => rfl
  | cons x text ih =>
    simp only [doubleChars, Bool.false_and, Bool.false_eq_true, if_false]
    split
    · rw [ih]
    · rw [ih]

/-- It does not matter where a key without a question mark is written. -/
theorem scalar_simpleKey (tag : Tag) (indent indent' column column' : Nat) (text : List Char) :
    scalar tag true indent column text = scalar tag true indent' column' text := by
  unfold scalar
  split
  · rfl
  · rfl
  · rw [Bool.not_true, doubleChars_unsplit indent indent']

theorem printable_hexDigits (letters : Text.LetterCase) (width n : Nat) :
    ∀ x ∈ Text.hexDigits letters width n, IsPrintable x := by
  have hdigit : ∀ n < 16, IsPrintable (Text.hexDigit letters n) := by cases letters <;> decide
  induction width generalizing n with
  | zero => simp [Text.hexDigits]
  | succ width ih =>
    intro x hx
    rw [Text.hexDigits, List.mem_append, List.mem_singleton] at hx
    obtain hx | rfl := hx
    · exact ih (n / 16) x hx
    · exact hdigit _ (Nat.mod_lt _ (by decide))

theorem printable_escaped (c : Char) : ∀ x ∈ escaped c, IsPrintable x := by
  have hcode (letter : Char) (width : Nat) (hletter : IsPrintable letter) :
      ∀ x ∈ '\\' :: letter :: Text.hexDigits .upper width c.toNat, IsPrintable x := by
    simp only [List.forall_mem_cons]
    exact ⟨by decide, hletter, printable_hexDigits .upper width c.toNat⟩
  rw [escaped]
  split
  case h_1 letter hletter =>
    unfold shortEscape? at hletter
    split at hletter <;> cases hletter <;> simp [IsPrintable]
  case h_2 =>
    split
    · exact hcode 'x' 2 (by decide)
    · split
      · exact hcode 'u' 4 (by decide)
      · exact hcode 'U' 8 (by decide)

theorem ordinary_newLine (indent : Nat) : ∀ x ∈ newLine indent, isOrdinary x = true := by
  rw [newLine, List.forall_mem_cons]
  exact ⟨rfl, fun x hx => isOrdinary_iff.mpr (.inr (Cursor.printable_of_mem_spaces hx))⟩

theorem ordinary_plainChars {indent column : Nat} {afterSpace : Bool} {text : List Char}
    (h : ∀ x ∈ text, isOrdinary x = true) :
    ∀ x ∈ plainChars indent column afterSpace text, isOrdinary x = true := by
  induction text generalizing column afterSpace with
  | nil => simp [plainChars]
  | cons x text ih =>
    rw [List.forall_mem_cons] at h
    rw [plainChars]
    split
    · rw [List.forall_mem_append]
      exact ⟨ordinary_newLine indent, ih h.2⟩
    · rw [List.forall_mem_cons]
      exact ⟨h.1, ih h.2⟩

theorem ordinary_singleChars {indent column : Nat} {previous : Option Char} {text : List Char}
    (h : ∀ x ∈ text, isOrdinary x = true) :
    ∀ x ∈ singleChars indent column previous text, isOrdinary x = true := by
  induction text generalizing column previous with
  | nil => simp [singleChars]
  | cons x text ih =>
    rw [List.forall_mem_cons] at h
    rw [singleChars]
    split
    · have hspaces : ∀ x ∈ spaces indent, isOrdinary x = true :=
        (List.forall_mem_cons.mp (ordinary_newLine indent)).2
      rw [List.forall_mem_append, List.forall_mem_append]
      refine ⟨⟨?_, ?_⟩, ih h.2⟩
      · split <;> simp [isOrdinary]
      · split
        · simp
        · exact hspaces
    · split
      · rw [List.forall_mem_append]
        exact ⟨ordinary_newLine indent, ih h.2⟩
      · split
        · rw [List.forall_mem_cons, List.forall_mem_cons]
          exact ⟨rfl, rfl, ih h.2⟩
        · rw [List.forall_mem_cons]
          exact ⟨h.1, ih h.2⟩

/-- Between double quotes there is a line feed only where lines are broken. -/
theorem printable_or_doubleChars {indent column : Nat} {split first afterEscape : Bool}
    (text : List Char) : ∀ x ∈ doubleChars indent split column first afterEscape text,
      IsPrintable x ∨ split = true ∧ x = '\n' := by
  have hbreak (h : split = true) (next : Option Char) :
      ∀ x ∈ escapedBreak indent next, IsPrintable x ∨ split = true ∧ x = '\n' := by
    simp only [escapedBreak, newLine, List.cons_append, List.forall_mem_cons,
      List.forall_mem_append]
    refine ⟨.inl (by decide), .inr ⟨h, trivial⟩, ?_, ?_⟩
    · intro x hx
      exact .inl (Cursor.printable_of_mem_spaces hx)
    · split <;> simp [IsPrintable]
  induction text generalizing column first afterEscape with
  | nil => simp [doubleChars]
  | cons x text ih =>
    rw [doubleChars]
    split
    case isTrue hx =>
      have hx' : IsPrintable x := by
        simp only [isVerbatim, Bool.and_eq_true, decide_eq_true_eq] at hx
        exact ⟨hx.1.1.1, hx.1.1.2⟩
      split
      case isTrue h =>
        simp only [Bool.and_eq_true] at h
        rw [List.forall_mem_append, List.forall_mem_cons]
        exact ⟨hbreak h.1.1.1.1 _, .inl hx', ih⟩
      case isFalse =>
        rw [List.forall_mem_cons]
        exact ⟨.inl hx', ih⟩
    case isFalse =>
      have hescaped := fun y hy => Or.inl (b := split = true ∧ y = '\n') (printable_escaped x y hy)
      dsimp only
      split
      case isTrue h =>
        simp only [Bool.and_eq_true] at h
        rw [List.forall_mem_append, List.forall_mem_append]
        exact ⟨⟨hescaped, hbreak h.1.1.1 _⟩, ih⟩
      case isFalse =>
        rw [List.forall_mem_append]
        exact ⟨hescaped, ih⟩

theorem mem_of_mem_doubled {x : Char} {text : List Char}
    (h : x ∈ text.flatMap fun c => if c = '\x27' then [c, c] else [c]) : x ∈ text := by
  obtain ⟨y, hy, hxy⟩ := List.mem_flatMap.mp h
  have hx : x = y := by
    split at hxy <;> simpa using hxy
  exact hx ▸ hy

/-- What is written for a text is ASCII in lines. -/
theorem ordinary_scalar (tag : Tag) (simpleKey : Bool) (indent column : Nat) (text : List Char) :
    ∀ x ∈ scalar tag simpleKey indent column text, isOrdinary x = true := by
  obtain ⟨hstyle, h⟩ | ⟨hstyle, h⟩ | hstyle := style_cases tag text
  · have htext := isOrdinary_of_allowsSingle (allowsPlain_iff.mp h).2.1
    rw [scalar, hstyle]
    cases simpleKey with
    | true => exact htext
    | false => exact ordinary_plainChars htext
  · have htext := isOrdinary_of_allowsSingle h
    rw [scalar, hstyle]
    simp only [List.cons_append, List.forall_mem_cons, List.forall_mem_append]
    refine ⟨rfl, ?_, rfl, by simp⟩
    cases simpleKey with
    | true => exact fun x hx => htext x (mem_of_mem_doubled hx)
    | false => exact ordinary_singleChars htext
  · rw [scalar, hstyle]
    simp only [List.cons_append, List.forall_mem_cons, List.forall_mem_append]
    refine ⟨rfl, fun x hx => isOrdinary_iff.mpr ?_, rfl, by simp⟩
    obtain h | ⟨-, h⟩ := printable_or_doubleChars text x hx
    · exact .inr h
    · exact .inl h

/-- A key without a question mark has one line. -/
theorem printable_simpleKey {tag : Tag} {indent column : Nat} {text : List Char}
    (hline : isMultiline text = false) :
    ∀ x ∈ scalar tag true indent column text, IsPrintable x := by
  obtain ⟨hstyle, h⟩ | ⟨hstyle, h⟩ | hstyle := style_cases tag text
  · rw [scalar, hstyle]
    exact printable_of_allowsSingle (allowsPlain_iff.mp h).2.1 hline
  · have htext := printable_of_allowsSingle h hline
    rw [scalar, hstyle]
    simp only [List.cons_append, List.forall_mem_cons, List.forall_mem_append]
    exact ⟨by decide, fun x hx => htext x (mem_of_mem_doubled hx), by decide, by simp⟩
  · rw [scalar, hstyle]
    simp only [List.cons_append, List.forall_mem_cons, List.forall_mem_append]
    refine ⟨by decide, fun x hx => ?_, by decide, by simp⟩
    simpa using printable_or_doubleChars text x hx

theorem length_doubled_le (text : List Char) :
    (text.flatMap fun c => if c = '\x27' then [c, c] else [c]).length ≤ 2 * text.length := by
  induction text with
  | nil => exact Nat.le_refl _
  | cons c text ih =>
    rw [List.flatMap_cons, List.length_append, List.length_cons]
    split
    · rw [List.length_cons, List.length_singleton]
      omega
    · rw [List.length_singleton]
      omega

end Written

end ContextConfig.Yaml
