import ContextConfig.Text.Pattern
/-!
# What matching texts consist of

The alternatives of a pattern are inspected one by one. Which characters a matching text consists
of, and which one it ends with, can be read off the pattern.
-/

namespace ContextConfig.Text.Pattern

variable {p a b : Pattern} {s text : List Char} {q : Char → Prop}

theorem matches_literal (h : Matches (literal text) s) : s = text := by
  induction text generalizing s with
  | nil =>
    cases h
    rfl
  | cons c text ih =>
    cases h with
    | seq hc htext =>
      cases hc with
      | char hd =>
        rw [ih htext, of_decide_eq_true hd]
        rfl

theorem matches_alts {patterns : List Pattern} (h : Matches (alts patterns) s) :
    ∃ p ∈ patterns, Matches p s := by
  induction patterns with
  | nil => cases h
  | cons p patterns ih =>
    cases patterns with
    | nil => exact ⟨p, List.mem_cons_self, h⟩
    | cons q patterns =>
      obtain h | h := matches_alt.mp h
      · exact ⟨p, List.mem_cons_self, h⟩
      · obtain ⟨r, hr, h⟩ := ih h
        exact ⟨r, List.mem_cons_of_mem _ hr, h⟩

theorem matches_words {texts : List String} (h : Matches (words texts) s) :
    ∃ text ∈ texts, s = text.toList := by
  obtain ⟨p, hp, h⟩ := matches_alts h
  obtain ⟨text, htext, rfl⟩ := List.mem_map.mp hp
  exact ⟨text, htext, matches_literal h⟩

/-- All characters that a pattern asks for have a property. -/
def Over (q : Char → Prop) : Pattern → Prop
  | never | empty => True
  | char p => ∀ c, p c = true → q c
  | seq a b | alt a b => a.Over q ∧ b.Over q
  | many a => a.Over q

@[simp] theorem over_seq : (seq a b).Over q ↔ a.Over q ∧ b.Over q := Iff.rfl

@[simp] theorem over_alt : (alt a b).Over q ↔ a.Over q ∧ b.Over q := Iff.rfl

@[simp] theorem over_many : (many a).Over q ↔ a.Over q := Iff.rfl

@[simp] theorem over_char_eq {c : Char} : (char (· = c)).Over q ↔ q c := by simp [Over]

@[simp] theorem over_char_or {p p' : Char → Bool} :
    (char fun c => p c || p' c).Over q ↔ (char p).Over q ∧ (char p').Over q := by
  simp [Over, or_imp, forall_and]

@[simp] theorem over_oneOf {chars : List Char} : (oneOf chars).Over q ↔ ∀ c ∈ chars, q c := by
  simp [oneOf, Over]

@[simp] theorem over_optional : (optional p).Over q ↔ p.Over q := by simp [optional, Over]

@[simp] theorem over_some1 : (some1 p).Over q ↔ p.Over q := by simp [some1, Over]

@[simp] theorem over_literal : (literal text).Over q ↔ ∀ c ∈ text, q c := by
  induction text with
  | nil => simp [literal, Over]
  | cons c text ih =>
    have hliteral : literal (c :: text) = seq (char (· = c)) (literal text) := rfl
    simp [hliteral, Over, ih]

@[simp] theorem over_seqs {patterns : List Pattern} :
    (seqs patterns).Over q ↔ ∀ p ∈ patterns, p.Over q := by
  induction patterns with
  | nil => simp [seqs, Over]
  | cons p patterns ih => cases patterns <;> simp_all [seqs, Over]

@[simp] theorem over_alts {patterns : List Pattern} :
    (alts patterns).Over q ↔ ∀ p ∈ patterns, p.Over q := by
  induction patterns with
  | nil => simp [alts, Over]
  | cons p patterns ih => cases patterns <;> simp_all [alts, Over]

@[simp] theorem over_words {texts : List String} :
    (words texts).Over q ↔ ∀ text ∈ texts, ∀ c ∈ text.toList, q c := by
  simp [words]

theorem Matches.over (h : Matches p s) (hp : p.Over q) : ∀ c ∈ s, q c := by
  induction h with
  | empty => simp
  | char hc => simpa using hp _ hc
  | seq _ _ iha ihb => exact List.forall_mem_append.mpr ⟨iha hp.1, ihb hp.2⟩
  | left _ ih => exact ih hp.1
  | right _ ih => exact ih hp.2
  | none => simp
  | more _ _ iha ihb => exact List.forall_mem_append.mpr ⟨iha hp, ihb hp⟩

/-- Whether a pattern asks for a character anywhere. -/
def mentions (c : Char) : Pattern → Bool
  | never | empty => false
  | char p => p c
  | seq a b | alt a b => a.mentions c || b.mentions c
  | many a => a.mentions c

theorem over_of_mentions {c : Char} (h : p.mentions c = false) : p.Over (· ≠ c) := by
  induction p with
  | never => trivial
  | empty => trivial
  | char p =>
    rintro d hd rfl
    exact absurd (hd.symm.trans h) (by decide)
  | seq a b iha ihb =>
    rw [mentions, Bool.or_eq_false_iff] at h
    exact ⟨iha h.1, ihb h.2⟩
  | alt a b iha ihb =>
    rw [mentions, Bool.or_eq_false_iff] at h
    exact ⟨iha h.1, ihb h.2⟩
  | many a ih => exact ih h

theorem Matches.not_mem {c : Char} (h : Matches p s) (hp : p.mentions c = false) : c ∉ s :=
  fun hc => h.over (over_of_mentions hp) c hc rfl

/-- Whether a matching text can end with a character. -/
def canEnd (c : Char) : Pattern → Bool
  | never | empty => false
  | char p => p c
  | seq a b => b.canEnd c || b.nullable && a.canEnd c
  | alt a b => a.canEnd c || b.canEnd c
  | many a => a.canEnd c

theorem Matches.canEnd {c : Char} (h : Matches p s) (hlast : s.getLast? = some c) :
    p.canEnd c = true := by
  induction h with
  | empty => cases hlast
  | char hc =>
    cases hlast
    exact hc
  | @seq a b s t _ hb iha ihb =>
    rw [Pattern.canEnd, Bool.or_eq_true, Bool.and_eq_true]
    cases t with
    | nil => exact .inr ⟨nullable_iff.mpr hb, iha (by simpa using hlast)⟩
    | cons d t => exact .inl (ihb (by simpa [List.getLast?_append] using hlast))
  | left _ ih => exact Bool.or_eq_true_iff.mpr (.inl (ih hlast))
  | right _ ih => exact Bool.or_eq_true_iff.mpr (.inr (ih hlast))
  | none => cases hlast
  | @more a s t _ _ iha ihb =>
    cases t with
    | nil => exact iha (by simpa using hlast)
    | cons d t => exact ihb (by simpa [List.getLast?_append] using hlast)

end ContextConfig.Text.Pattern
