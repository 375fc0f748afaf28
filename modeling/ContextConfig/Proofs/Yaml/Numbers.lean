import ContextConfig.Proofs.Pattern
import ContextConfig.Proofs.Yaml.Scalar
/-!
# Numbers

The part of the table of rules that is used for reading leaves out the numbers. No other rule has a
text in common with them: most start differently, and a point in time has a dash after its year,
where a number has none unless there is a full stop before it. So a number becomes a text, and all
else keeps the tag that the whole table gives it. A number is one word, with nothing in it that
would have to be quoted.
-/

namespace ContextConfig.Yaml

open Text.Pattern
open Writer (isLeadingIndicator)

namespace Rule

variable {s text : List Char} {r : Rule} {p a b : Text.Pattern}

/-- A rule matches a text up to a line feed at its end. -/
theorem exists_matches_of_applies (h : r.applies text = true) :
    ∃ s, Matches r.pattern s ∧ (text = s ∨ text = s ++ ['\n']) := by
  rw [applies, Bool.and_eq_true, Bool.or_eq_true, Bool.and_eq_true, decide_eq_true_eq] at h
  obtain ⟨-, h | ⟨hlast, h⟩⟩ := h
  · exact ⟨text, accepts_iff.mp h, .inl rfl⟩
  · obtain ⟨s, rfl⟩ := List.getLast?_eq_some_iff.mp hlast
    rw [List.dropLast_concat] at h
    exact ⟨s, accepts_iff.mp h, .inr rfl⟩

theorem head?_mem_of_applies (h : r.applies text = true) : text.head? ∈ r.starts := by
  rw [applies, Bool.and_eq_true] at h
  exact List.contains_iff_mem.mp h.1

section Marks

/-- A dash or a full stop. -/
def isMark (c : Char) : Bool := c = '-' || c = '.'

theorem find?_isMark_of_plain (h : Matches p s) (hp : (p.mentions '-' || p.mentions '.') = false) :
    s.find? isMark = none := by
  rw [Bool.or_eq_false_iff] at hp
  rw [List.find?_eq_none]
  intro c hc hmark
  rw [isMark, Bool.or_eq_true, decide_eq_true_eq, decide_eq_true_eq] at hmark
  obtain rfl | rfl := hmark
  · exact h.not_mem hp.1 hc
  · exact h.not_mem hp.2 hc

theorem find?_isMark_of_seq (h : Matches (seq a b) s)
    (ha : (a.mentions '-' || a.mentions '.') = false) :
    ∃ rest, Matches b rest ∧ s.find? isMark = rest.find? isMark := by
  obtain ⟨t, rest, rfl, ht, hrest⟩ := matches_seq.mp h
  refine ⟨rest, hrest, ?_⟩
  rw [List.find?_append, find?_isMark_of_plain ht ha, Option.none_or]

theorem find?_isMark_of_mark {mark : Char} (h : Matches (seq (char (· = mark)) b) s)
    (hmark : isMark mark = true) : s.find? isMark = some mark := by
  obtain ⟨t, rest, rfl, ht, -⟩ := matches_seq.mp h
  cases ht with
  | char hc =>
    rw [of_decide_eq_true hc]
    simp [hmark]

/-- There is no sign in front of a digit. -/
theorem matches_of_sign (h : Matches (seq sign p) s) (hs : ∀ c ∈ s.head?, c.isDigit = true) :
    Matches p s := by
  obtain ⟨lead, rest, rfl, hlead, hrest⟩ := matches_seq.mp h
  obtain hlead | hlead := matches_alt.mp hlead
  · cases hlead with
    | @char _ c hc =>
      have hsign : c = '-' ∨ c = '+' := by simpa using hc
      obtain rfl | rfl := hsign
      · exact absurd (hs _ rfl) (by decide)
      · exact absurd (hs _ rfl) (by decide)
  · cases hlead
    exact hrest

/-- What follows the sign of an integer. -/
def magnitudes : List Text.Pattern := [
  seqs [literal ['0', 'b'], some1 (oneOf ['0', '1', '_'])],
  seqs [literal ['0'], some1 (char fun c => '0' ≤ c && c ≤ '7' || c = '_')],
  alt (literal ['0']) (seq (char fun c => '1' ≤ c && c ≤ '9') (many digitOrUnderscore)),
  seqs [literal ['0', 'x'], some1 (char fun c =>
    c.isDigit || 'a' ≤ c && c ≤ 'f' || 'A' ≤ c && c ≤ 'F' || c = '_')],
  seqs [char fun c => '1' ≤ c && c ≤ '9', many digitOrUnderscore, sixtieths]]

theorem int_eq : int.pattern = alts (magnitudes.map (seq sign)) := rfl

/-- In a number that starts with a digit, no dash comes before a full stop. -/
theorem find?_isMark_int (h : Matches int.pattern s) (hs : ∀ c ∈ s.head?, c.isDigit = true) :
    s.find? isMark ≠ some '-' := by
  obtain ⟨p, hp, h⟩ := matches_alts (int_eq ▸ h)
  obtain ⟨magnitude, hmagnitude, rfl⟩ := List.mem_map.mp hp
  have hplain : ∀ p ∈ magnitudes, (p.mentions '-' || p.mentions '.') = false := by decide
  rw [find?_isMark_of_plain (matches_of_sign h hs) (hplain magnitude hmagnitude)]
  exact nofun

theorem find?_isMark_float (h : Matches float.pattern s) (hs : ∀ c ∈ s.head?, c.isDigit = true) :
    s.find? isMark ≠ some '-' := by
  have hword {texts : List String} (h : Matches (words texts) s)
      (htexts : ∀ text ∈ texts, text.toList.find? isMark = some '.') :
      s.find? isMark = some '.' := by
    obtain ⟨text, htext, rfl⟩ := matches_words h
    exact htexts text htext
  have hpoint : s.find? isMark = some '.' := by
    obtain ⟨p, hp, h⟩ := matches_alts h
    simp only [List.mem_cons, List.not_mem_nil, or_false] at hp
    obtain rfl | rfl | rfl | rfl | rfl := hp
    · obtain ⟨rest, hrest, heq⟩ := find?_isMark_of_seq (matches_of_sign h hs) rfl
      exact heq.trans (find?_isMark_of_mark hrest rfl)
    · exact find?_isMark_of_mark h rfl
    · obtain ⟨rest, hrest, heq⟩ := find?_isMark_of_seq (matches_of_sign h hs) rfl
      obtain ⟨more, hmore, heq'⟩ := find?_isMark_of_seq hrest rfl
      exact heq.trans (heq'.trans (find?_isMark_of_mark hmore rfl))
    · exact hword (matches_of_sign h hs) (by decide)
    · exact hword h (by decide)
  rw [hpoint]
  decide

/-- A point in time has a dash after its year. -/
theorem find?_isMark_timestamp (h : Matches timestamp.pattern s) : s.find? isMark = some '-' := by
  have hyear {rest : Text.Pattern} {s : List Char}
      (h : Matches (seq digit (seq digit (seq digit (seq digit (seq (char (· = '-')) rest))))) s) :
      s.find? isMark = some '-' := by
    obtain ⟨_, h, h₁⟩ := find?_isMark_of_seq h rfl
    obtain ⟨_, h, h₂⟩ := find?_isMark_of_seq h rfl
    obtain ⟨_, h, h₃⟩ := find?_isMark_of_seq h rfl
    obtain ⟨_, h, h₄⟩ := find?_isMark_of_seq h rfl
    rw [h₁, h₂, h₃, h₄]
    exact find?_isMark_of_mark h rfl
  exact (matches_alt.mp h).elim hyear hyear

/-- No number is a point in time. -/
theorem not_applies_timestamp (hr : r = int ∨ r = float) (h : r.applies text = true) :
    timestamp.applies text = false := by
  rw [Bool.eq_false_iff]
  intro htime
  have hdigit : ∀ c ∈ text.head?, c.isDigit = true := by
    have hstarts : digitStarts.all (Option.all Char.isDigit) = true := by decide
    have hstart := List.all_eq_true.mp hstarts text.head? (head?_mem_of_applies htime)
    exact fun c hc => (Option.all_eq_true _ _).mp hstart c hc
  obtain ⟨s, hs, hend⟩ := exists_matches_of_applies h
  obtain ⟨t, ht, hend'⟩ := exists_matches_of_applies htime
  have hmark {s : List Char} (hend : text = s ∨ text = s ++ ['\n']) :
      text.find? isMark = s.find? isMark := by
    obtain rfl | rfl := hend
    · rfl
    · rw [List.find?_append]
      exact Option.or_none
  have hhead : ∀ c ∈ s.head?, c.isDigit = true := by
    obtain rfl | rfl := hend
    · exact hdigit
    · intro c hc
      apply hdigit c
      rw [List.head?_append, Option.mem_def.mp hc]
      rfl
  have hdash : s.find? isMark = some '-' := by
    rw [← hmark hend, hmark hend', find?_isMark_timestamp ht]
  obtain rfl | rfl := hr
  · exact find?_isMark_int hs hhead hdash
  · exact find?_isMark_float hs hhead hdash

end Marks

theorem eq_of_isNumeric (hr : r ∈ standardRules) (h : r.tag.isNumeric = true) :
    r = int ∨ r = float := by
  simp only [standardRules, List.mem_cons, List.not_mem_nil, or_false] at hr
  obtain rfl | rfl | rfl | rfl | rfl | rfl | rfl | rfl := hr
  all_goals first | exact .inl rfl | exact .inr rfl | cases h

/-- A number is matched by no other rule. -/
theorem not_applies_of_number (hr : r = int ∨ r = float) (h : r.applies text = true) :
    ∀ other ∈ textualRules, other.applies text = false := by
  have hstarts : ∀ other ∈ textualRules, ∀ start ∈ other.starts,
      start ∈ int.starts ++ float.starts → other.tag = .timestamp := by decide
  have htimestamp : ∀ other ∈ textualRules, other.tag = .timestamp → other = timestamp := by
    intro other hother
    simp only [textualRules, standardRules, List.mem_filter, List.mem_cons, List.not_mem_nil,
      or_false] at hother
    obtain ⟨rfl | rfl | rfl | rfl | rfl | rfl | rfl | rfl, -⟩ := hother
    all_goals intro htag; first | rfl | cases htag
  have hstart : text.head? ∈ int.starts ++ float.starts := by
    have hmem := head?_mem_of_applies h
    obtain rfl | rfl := hr
    · exact List.mem_append_left _ hmem
    · exact List.mem_append_right _ hmem
  intro other hother
  rw [Bool.eq_false_iff]
  intro happlies
  have htag := hstarts other hother text.head? (head?_mem_of_applies happlies) hstart
  rw [htimestamp other hother htag, not_applies_timestamp hr h] at happlies
  cases happlies

end Rule

theorem find?_filter_of_some {α : Type} {p q : α → Bool} {l : List α} {x : α}
    (h : l.find? p = some x) (hx : q x = true) : (l.filter q).find? p = some x := by
  obtain ⟨hp, before, after, rfl, hbefore⟩ := List.find?_eq_some_iff_append.mp h
  rw [List.filter_append, List.filter_cons_of_pos hx, List.find?_append, List.find?_cons_of_pos hp,
    List.find?_eq_none.mpr, Option.none_or]
  intro y hy
  simpa using hbefore y (List.mem_filter.mp hy).1

theorem find?_filter_of_none {α : Type} {p q : α → Bool} {l : List α} (h : l.find? p = none) :
    (l.filter q).find? p = none := by
  rw [List.find?_eq_none] at h ⊢
  intro x hx
  exact h x (List.mem_filter.mp hx).1

/-- Without the rules for numbers a number is a text, and all else has the tag that it has with
them. -/
theorem implicitTag_textualRules (text : List Char) : implicitTag textualRules text
    = if (implicitTag standardRules text).isNumeric then .str else implicitTag standardRules text := by
  cases hfind : standardRules.find? (·.applies text) with
  | none =>
    have htag : implicitTag standardRules text = .str := by
      rw [implicitTag, hfind]
      rfl
    rw [htag, implicitTag, textualRules, find?_filter_of_none hfind]
    rfl
  | some r =>
    have happlies : r.applies text = true := by simpa using List.find?_some hfind
    have htag : implicitTag standardRules text = r.tag := by
      rw [implicitTag, hfind]
      rfl
    rw [htag]
    split
    case isTrue hnumeric =>
      have hnumber := Rule.eq_of_isNumeric (List.mem_of_find?_eq_some hfind) hnumeric
      have hnone : textualRules.find? (·.applies text) = none := by
        rw [List.find?_eq_none]
        intro other hother
        rw [Rule.not_applies_of_number hnumber happlies other hother]
        exact Bool.false_ne_true
      rw [implicitTag, hnone]
      rfl
    case isFalse htextual =>
      have hkept : (!r.tag.isNumeric) = true := by simpa using htextual
      rw [implicitTag, textualRules, find?_filter_of_some hfind hkept]
      rfl

/-- Whether a plain scalar is a number under the whole table. -/
def isNumber (text : List Char) : Bool := (implicitTag standardRules text).isNumeric

namespace Rule

/-- What both kinds of number look like. -/
def number : Text.Pattern := alt int.pattern float.pattern

theorem over_between {lo hi : Char} (hlo : '!' ≤ lo) (hhi : hi ≤ '~') :
    (char fun c => lo ≤ c && c ≤ hi).Over IsGraphic := by
  intro c hc
  rw [Bool.and_eq_true, decide_eq_true_eq, decide_eq_true_eq] at hc
  have hspace : '!' ≤ c := Char.le_trans hlo hc.1
  refine ⟨⟨Char.le_trans (by decide) hspace, Char.le_trans hc.2 hhi⟩, ?_⟩
  rintro rfl
  exact absurd hspace (by decide)

theorem over_isDigit : (char Char.isDigit).Over IsGraphic :=
  over_between (show '!' ≤ '0' by decide) (show '9' ≤ '~' by decide)

theorem over_number : number.Over IsGraphic := by
  simp [number, int, float, sign, digits, digit, digitOrUnderscore, sixtieths, point, exponent,
    over_isDigit, over_between, IsGraphic, IsPrintable]

/-- No number starts with two equal marks. -/
theorem not_matches_twice {mark : Char} (hmark : mark = '-' ∨ mark = '.') {rest : List Char} :
    ¬ Matches number (mark :: mark :: rest) := by
  have hnever : (number.derivative mark).derivative mark = never := by
    obtain rfl | rfl := hmark <;> rfl
  intro h
  have hrest := matches_derivative.mpr (matches_derivative.mpr h)
  rw [hnever] at hrest
  cases hrest

theorem not_matches_dash : ¬ Matches number ['-'] := by
  rw [← accepts_iff]
  decide

end Rule

section Words

variable {text : List Char}

theorem exists_rule_of_isNumber (h : isNumber text = true) :
    ∃ r, (r = Rule.int ∨ r = Rule.float) ∧ r.applies text = true := by
  unfold isNumber implicitTag at h
  cases hfind : standardRules.find? (·.applies text) with
  | none =>
    rw [hfind] at h
    cases h
  | some r =>
    rw [hfind] at h
    exact ⟨r, Rule.eq_of_isNumeric (List.mem_of_find?_eq_some hfind) h,
      by simpa using List.find?_some hfind⟩

/-- A number in one line is all that the pattern of its rule describes. -/
theorem matches_number (h : isNumber text = true) (hline : '\n' ∉ text) : Matches Rule.number text := by
  obtain ⟨r, hr, happlies⟩ := exists_rule_of_isNumber h
  obtain ⟨s, hs, rfl | rfl⟩ := Rule.exists_matches_of_applies happlies
  · obtain rfl | rfl := hr
    · exact .left hs
    · exact .right hs
  · exact absurd (List.mem_append_right s (List.mem_singleton_self _)) hline

theorem head?_isNumber (h : isNumber text = true) :
    text.head? ∈ Rule.int.starts ++ Rule.float.starts := by
  obtain ⟨r, rfl | rfl, happlies⟩ := exists_rule_of_isNumber h
  · exact List.mem_append_left _ (Rule.head?_mem_of_applies happlies)
  · exact List.mem_append_right _ (Rule.head?_mem_of_applies happlies)

theorem isWord_of_isNumber (h : isNumber text = true) (hline : '\n' ∉ text) : Plain.IsWord text := by
  have hmatches := matches_number h hline
  refine ⟨?_, hmatches.over Rule.over_number, ?_⟩
  · rintro rfl
    exact absurd (head?_isNumber h) (by decide)
  · intro hlast
    exact absurd (hmatches.canEnd hlast) (by decide)

theorem opens_of_isNumber (h : isNumber text = true) (hline : '\n' ∉ text) : Opens text := by
  have hmatches := matches_number h hline
  have hgraphic := hmatches.over Rule.over_number
  have hstarts : (Rule.int.starts ++ Rule.float.starts).all (Option.all fun c =>
      !isLeadingIndicator c && c ≠ '?' && c ≠ ':') = true := by decide
  have hstart : ∀ c ∈ text.head?, isLeadingIndicator c = false ∧ c ≠ '?' ∧ c ≠ ':' := by
    intro c hc
    have hall := List.all_eq_true.mp hstarts text.head? (head?_isNumber h)
    simpa [and_assoc] using (Option.all_eq_true _ _).mp hall c hc
  have htwice {mark : Char} (hmark : mark = '-' ∨ mark = '.') : ¬ [mark, mark, mark] <+: text := by
    rintro ⟨rest, rfl⟩
    exact Rule.not_matches_twice hmark hmatches
  refine ⟨fun c hc => (hstart c hc).1, ?_, htwice (.inl rfl), htwice (.inr rfl)⟩
  rintro c rest rfl hc
  obtain ⟨-, hquestion, hcolon⟩ := hstart c rfl
  obtain rfl : c = '-' := hc.resolve_right (not_or.mpr ⟨hquestion, hcolon⟩)
  cases rest with
  | nil => exact absurd hmatches Rule.not_matches_dash
  | cons d rest => exact (hgraphic d (by simp)).isBlankOrEnd

end Words

end ContextConfig.Yaml
