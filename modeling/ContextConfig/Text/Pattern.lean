/-!
# Patterns

Regular expressions over characters. A text is matched by taking the derivative of the pattern
with respect to each of its characters and asking at the end whether the empty text is left to be
matched. `Matches` says declaratively which texts a pattern stands for.
-/

namespace ContextConfig.Text

inductive Pattern where
  | never
  | empty
  | char (p : Char → Bool)
  | seq (first second : Pattern)
  | alt (first second : Pattern)
  | many (p : Pattern)

namespace Pattern

/-- The texts that a pattern stands for. -/
inductive Matches : Pattern → List Char → Prop where
  | empty : Matches .empty []
  | char {p : Char → Bool} {c : Char} : p c = true → Matches (.char p) [c]
  | seq {a b : Pattern} {s t : List Char} : Matches a s → Matches b t → Matches (.seq a b) (s ++ t)
  | left {a b : Pattern} {s : List Char} : Matches a s → Matches (.alt a b) s
  | right {a b : Pattern} {s : List Char} : Matches b s → Matches (.alt a b) s
  | none {a : Pattern} : Matches (.many a) []
  | more {a : Pattern} {s t : List Char} :
    Matches a s → Matches (.many a) t → Matches (.many a) (s ++ t)

/-- Whether the empty text matches. -/
def nullable : Pattern → Bool
  | never => false
  | empty => true
  | char _ => false
  | seq a b => a.nullable && b.nullable
  | alt a b => a.nullable || b.nullable
  | many _ => true

/-- A sequence, simplified where one side is trivial. -/
def andThen : Pattern → Pattern → Pattern
  | never, _ => never
  | empty, b => b
  | a, b => seq a b

/-- An alternative, simplified where one side is trivial. -/
def orElse : Pattern → Pattern → Pattern
  | never, b => b
  | a, never => a
  | a, b => alt a b

/-- What is left to be matched after a character. -/
def derivative (c : Char) : Pattern → Pattern
  | never => never
  | empty => never
  | char p => if p c then empty else never
  | seq a b =>
    let first := (a.derivative c).andThen b
    if a.nullable then first.orElse (b.derivative c) else first
  | alt a b => (a.derivative c).orElse (b.derivative c)
  | many a => (a.derivative c).andThen (many a)

/-- Whether a text matches as a whole. -/
def accepts : Pattern → List Char → Bool
  | p, [] => p.nullable
  | p, c :: rest => (p.derivative c).accepts rest

def literal (text : List Char) : Pattern :=
  text.foldr (fun c rest => seq (char (· = c)) rest) empty

def oneOf (chars : List Char) : Pattern := char chars.contains

def optional (p : Pattern) : Pattern := alt p empty

def some1 (p : Pattern) : Pattern := seq p (many p)

def seqs : List Pattern → Pattern
  | [] => empty
  | [p] => p
  | p :: rest => seq p (seqs rest)

def alts : List Pattern → Pattern
  | [] => never
  | [p] => p
  | p :: rest => alt p (alts rest)

/-- The alternative of some fixed texts. -/
def words (texts : List String) : Pattern := alts (texts.map fun text => literal text.toList)

theorem nullable_iff {p : Pattern} : p.nullable = true ↔ Matches p [] := by
  constructor
  · intro h
    induction p with
    | never => cases h
    | empty => exact .empty
    | char p => cases h
    | seq a b iha ihb =>
      simp only [nullable, Bool.and_eq_true] at h
      exact .seq (s := []) (t := []) (iha h.1) (ihb h.2)
    | alt a b iha ihb =>
      simp only [nullable, Bool.or_eq_true] at h
      exact h.elim (fun ha => .left (iha ha)) (fun hb => .right (ihb hb))
    | many p => exact .none
  · intro h
    generalize hs : ([] : List Char) = s at h
    induction h with
    | empty | none => rfl
    | char => cases hs
    | seq _ _ iha ihb =>
      obtain ⟨rfl, rfl⟩ := List.append_eq_nil_iff.mp hs.symm
      simp [nullable, iha rfl, ihb rfl]
    | left _ ih => simp [nullable, ih hs]
    | right _ ih => simp [nullable, ih hs]
    | more => rfl

theorem matches_andThen {a b : Pattern} {s : List Char} :
    Matches (a.andThen b) s ↔ Matches (.seq a b) s := by
  cases a <;> simp only [andThen]
  · constructor <;> intro h
    · cases h
    · cases h with | seq ha _ => cases ha
  · constructor <;> intro h
    · exact .seq .empty h
    · cases h with | seq ha hb => cases ha; exact hb

theorem matches_alt {a b : Pattern} {s : List Char} :
    Matches (.alt a b) s ↔ Matches a s ∨ Matches b s := by
  constructor
  · rintro (_ | _ | _ | h | h)
    · exact .inl h
    · exact .inr h
  · rintro (h | h)
    · exact .left h
    · exact .right h

theorem matches_orElse {a b : Pattern} {s : List Char} :
    Matches (a.orElse b) s ↔ Matches a s ∨ Matches b s := by
  have hnever {s : List Char} : ¬ Matches never s := by intro h; cases h
  cases a <;> cases b <;> simp only [orElse, matches_alt, hnever, false_or, or_false]

theorem matches_seq {a b : Pattern} {s : List Char} :
    Matches (.seq a b) s ↔ ∃ t u, s = t ++ u ∧ Matches a t ∧ Matches b u := by
  constructor
  · intro h
    cases h with | seq ha hb => exact ⟨_, _, rfl, ha, hb⟩
  · rintro ⟨t, u, rfl, ha, hb⟩
    exact .seq ha hb

/-- The first character of a sequence stands in its first part, unless that may be empty. -/
theorem matches_seq_cons {a b : Pattern} {c : Char} {s : List Char} :
    Matches (.seq a b) (c :: s) ↔
      (∃ t u, s = t ++ u ∧ Matches a (c :: t) ∧ Matches b u) ∨ Matches a [] ∧ Matches b (c :: s) := by
  rw [matches_seq]
  constructor
  · rintro ⟨t, u, hs, ha, hb⟩
    cases t with
    | nil =>
      obtain rfl : c :: s = u := hs
      exact .inr ⟨ha, hb⟩
    | cons d t =>
      obtain ⟨rfl, rfl⟩ := List.cons.inj hs
      exact .inl ⟨t, u, rfl, ha, hb⟩
  · rintro (⟨t, u, rfl, ha, hb⟩ | ⟨ha, hb⟩)
    · exact ⟨c :: t, u, rfl, ha, hb⟩
    · exact ⟨[], c :: s, rfl, ha, hb⟩

/-- The first character of a repetition stands in its first part that is not empty. -/
theorem matches_many_cons {a : Pattern} {c : Char} {s : List Char} :
    Matches (.many a) (c :: s) ↔ ∃ t u, s = t ++ u ∧ Matches a (c :: t) ∧ Matches (.many a) u := by
  constructor
  · intro h
    generalize hp : many a = p at h
    generalize hs : c :: s = whole at h
    induction h with
    | empty | char | seq | left | right => cases hp
    | none => cases hs
    | @more a' t u ha hb _ ihb =>
      cases hp
      cases t with
      | nil => exact ihb rfl hs
      | cons d t =>
        obtain ⟨rfl, rfl⟩ := List.cons.inj hs
        exact ⟨t, u, rfl, ha, hb⟩
  · rintro ⟨t, u, rfl, ha, hb⟩
    exact .more ha hb

/-- What is left after a character matches exactly the rests of the matching texts. -/
theorem matches_derivative {p : Pattern} {c : Char} {s : List Char} :
    Matches (p.derivative c) s ↔ Matches p (c :: s) := by
  induction p generalizing s with
  | never => constructor <;> (intro h; cases h)
  | empty => constructor <;> (intro h; cases h)
  | char p =>
    by_cases hp : p c = true
    · simp only [derivative, hp, if_true]
      constructor
      · intro h; cases h; exact .char hp
      · intro h; cases h; exact .empty
    · simp only [derivative, hp]
      constructor
      · intro h; cases h
      · intro h
        cases h with | char h' => exact absurd h' hp
  | seq a b iha ihb =>
    have hfirst : Matches ((a.derivative c).andThen b) s ↔
        ∃ t u, s = t ++ u ∧ Matches a (c :: t) ∧ Matches b u := by
      simp only [matches_andThen, matches_seq, iha]
    rw [derivative, matches_seq_cons]
    by_cases hn : a.nullable = true
    · simp only [hn, if_true, matches_orElse, hfirst, ihb, nullable_iff.mp hn, true_and]
    · have hno : ¬ Matches a [] := fun h => hn (nullable_iff.mpr h)
      simp only [hn, hno, false_and, or_false]
      exact hfirst
  | alt a b iha ihb => rw [derivative, matches_orElse, matches_alt, iha, ihb]
  | many a ih => simp only [derivative, matches_andThen, matches_seq, ih, matches_many_cons]

/-- Matching by derivatives decides which texts a pattern stands for. -/
theorem accepts_iff {p : Pattern} {s : List Char} : p.accepts s = true ↔ Matches p s := by
  induction s generalizing p with
  | nil => exact nullable_iff
  | cons c s ih => rw [accepts, ih, matches_derivative]

end Pattern
end ContextConfig.Text
