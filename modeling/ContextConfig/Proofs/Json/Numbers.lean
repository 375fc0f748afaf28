import ContextConfig.Json.Reader
import ContextConfig.Text.Split
import Mathlib.Data.List.TakeWhile
/-!
# How much of a text a number takes

A number has to be told from what follows it: it ends where no digit, point or exponent comes next.
-/

namespace ContextConfig.Json

/-- A text that does not go on with a number that was begun before it. -/
def EndsNumber (text : List Char) : Prop :=
  ∀ c ∈ text.head?, c.isDigit = false ∧ c ≠ '.' ∧ c ≠ 'e' ∧ c ≠ 'E'

variable {text rest digits : List Char}

theorem readWhole_eq_some (h : readWhole text = some (digits, rest)) :
    text = digits ++ rest ∧ digits ≠ [] ∧ (∀ c ∈ digits, c.isDigit = true) ∧
      (digits = ['0'] ∨ digits.head? ≠ some '0' ∧ ∀ c ∈ rest.head?, c.isDigit = false) := by
  unfold readWhole at h
  split at h
  · cases h
    exact ⟨rfl, by simp, by simp, .inl rfl⟩
  · rename_i hzero
    split at h
    · cases h
    · rename_i hdigits
      cases h
      refine ⟨(List.takeWhile_append_dropWhile ..).symm, hdigits, ?_, .inr ⟨?_, Text.head?_dropWhile text⟩⟩
      · exact fun c hc => List.mem_takeWhile_imp hc
      · rw [List.head?_takeWhile]
        intro hfilter
        obtain ⟨hhead, -⟩ := Option.filter_eq_some_iff.mp hfilter
        obtain ⟨text, rfl⟩ := List.head?_eq_some_iff.mp hhead
        exact hzero _ rfl

theorem readWhole_append (hne : digits ≠ []) (hdigits : ∀ c ∈ digits, c.isDigit = true)
    (hzero : digits = ['0'] ∨ digits.head? ≠ some '0')
    (hrest : ∀ c ∈ rest.head?, c.isDigit = false) :
    readWhole (digits ++ rest) = some (digits, rest) := by
  obtain ⟨htake, hdrop⟩ := Text.takeWhile_run hdigits hrest
  unfold readWhole
  split
  · rename_i more hmore
    obtain ⟨c, digits, rfl⟩ := List.exists_cons_of_ne_nil hne
    cases hmore
    obtain hzero | hzero := hzero
    · cases hzero
      rfl
    · exact absurd rfl hzero
  · rw [htake, hdrop]
    obtain ⟨c, digits, rfl⟩ := List.exists_cons_of_ne_nil hne
    rfl

/-- A row of digits that goes as far as it can. -/
structure Digits (digits rest : List Char) : Prop where
  ne_nil : digits ≠ []
  isDigit : ∀ c ∈ digits, c.isDigit = true
  ends : ∀ c ∈ rest.head?, c.isDigit = false

theorem Digits.of_takeWhile (h : text.takeWhile Char.isDigit ≠ []) :
    Digits (text.takeWhile Char.isDigit) (text.dropWhile Char.isDigit) :=
  ⟨h, fun _ hc => List.mem_takeWhile_imp hc, Text.head?_dropWhile text⟩

theorem Digits.span (h : Digits digits rest) :
    (digits ++ rest).takeWhile Char.isDigit = digits ∧
      (digits ++ rest).dropWhile Char.isDigit = rest := Text.takeWhile_run h.isDigit h.ends

theorem readFraction_of_digits (h : Digits digits rest) :
    readFraction ('.' :: (digits ++ rest)) = ('.' :: digits, rest) := by
  obtain ⟨htake, hdrop⟩ := h.span
  rw [readFraction, htake, hdrop]
  obtain ⟨c, digits, rfl⟩ := List.exists_cons_of_ne_nil h.ne_nil
  rfl

theorem readFraction_of_head (h : ∀ c ∈ rest.head?, c ≠ '.') : readFraction rest = ([], rest) := by
  unfold readFraction
  split
  · exact absurd rfl (h '.' rfl)
  · rfl

theorem readFraction_cases (text : List Char) :
    readFraction text = ([], text) ∨
      ∃ digits rest, Digits digits rest ∧ text = '.' :: (digits ++ rest) := by
  unfold readFraction
  split
  · rename_i rest
    split
    · exact .inl rfl
    · rename_i hdigits
      refine .inr ⟨_, _, .of_takeWhile hdigits, ?_⟩
      rw [List.takeWhile_append_dropWhile]
  · exact .inl rfl

/-- What stands in front of the digits of an exponent. -/
inductive ExponentMark : List Char → Prop where
  | mk {letter : Char} {sign : List Char} (hletter : letter = 'e' ∨ letter = 'E')
    (hsign : sign = [] ∨ sign = ['-'] ∨ sign = ['+']) : ExponentMark (letter :: sign)

theorem readExponent_of_digits {mark : List Char} (hmark : ExponentMark mark)
    (h : Digits digits rest) : readExponent (mark ++ (digits ++ rest)) = (mark ++ digits, rest) := by
  obtain ⟨hletter, hsign⟩ := hmark
  obtain ⟨htake, hdrop⟩ := h.span
  obtain ⟨c, more, rfl⟩ := List.exists_cons_of_ne_nil h.ne_nil
  have hc : c ≠ '-' ∧ c ≠ '+' := by
    have hdigit := h.isDigit c List.mem_cons_self
    constructor <;> rintro rfl <;> cases hdigit
  obtain rfl | rfl | rfl := hsign
  · simp [readExponent, hletter, hc, htake, hdrop] at *
  · simp [readExponent, hletter, htake, hdrop] at *
  · simp [readExponent, hletter, htake, hdrop] at *

theorem readExponent_of_head (h : ∀ c ∈ rest.head?, c ≠ 'e' ∧ c ≠ 'E') :
    readExponent rest = ([], rest) := by
  match rest with
  | [] => rfl
  | letter :: rest => simp [readExponent, h letter rfl]

theorem readExponent_cases (text : List Char) :
    readExponent text = ([], text) ∨
      ∃ mark digits rest, ExponentMark mark ∧ Digits digits rest ∧
        text = mark ++ (digits ++ rest) := by
  match text with
  | [] => exact .inl rfl
  | letter :: text =>
    by_cases hletter : letter = 'e' ∨ letter = 'E'
    case neg =>
      exact .inl (readExponent_of_head fun c hc => by
        cases hc
        exact not_or.mp hletter)
    have hmark : ∀ sign rest, (sign = [] ∨ sign = ['-'] ∨ sign = ['+']) → text = sign ++ rest →
        rest.takeWhile Char.isDigit ≠ [] →
        ∃ mark digits rest, ExponentMark mark ∧ Digits digits rest ∧
          letter :: text = mark ++ (digits ++ rest) := by
      rintro sign rest hsign rfl hdigits
      refine ⟨letter :: sign, _, _, ⟨hletter, hsign⟩, .of_takeWhile hdigits, ?_⟩
      rw [List.takeWhile_append_dropWhile, List.cons_append]
    unfold readExponent
    dsimp only
    rw [if_pos (by simpa using hletter)]
    split
    · exact .inl rfl
    · rename_i hdigits
      right
      split at hdigits
      · exact hmark ['-'] _ (by simp) rfl hdigits
      · exact hmark ['+'] _ (by simp) rfl hdigits
      · exact hmark [] _ (by simp) rfl hdigits

/-- The fraction and the exponent behind the whole part of a number, and what follows them. -/
def readParts (text : List Char) : (List Char × List Char) × List Char :=
  let (fraction, rest) := readFraction text
  let (exponent, rest) := readExponent rest
  ((fraction, exponent), rest)

theorem readExponent_local (text : List Char) :
    ∃ taken, text = taken ++ (readExponent text).2 ∧ (∀ c ∈ taken.head?, c.isDigit = false ∧ c ≠ '.') ∧
      ∀ rest', EndsNumber rest' → readExponent (taken ++ rest') = ((readExponent text).1, rest') := by
  obtain h | ⟨mark, digits, rest, hmark, hdigits, rfl⟩ := readExponent_cases text
  · rw [h]
    exact ⟨[], rfl, nofun, fun rest' hrest' => readExponent_of_head fun c hc => (hrest' c hc).2.2⟩
  · rw [readExponent_of_digits hmark hdigits]
    refine ⟨mark ++ digits, (List.append_assoc ..).symm, ?_, fun rest' hrest' => ?_⟩
    · obtain ⟨rfl | rfl, -⟩ := hmark <;> (intro c hc; cases hc; decide)
    · rw [List.append_assoc]
      exact readExponent_of_digits hmark
        ⟨hdigits.ne_nil, hdigits.isDigit, fun c hc => (hrest' c hc).1⟩

/-- The parts behind the whole one end where no digit, point or exponent follows. -/
theorem readParts_local (text : List Char) :
    ∃ taken, text = taken ++ (readParts text).2 ∧ (∀ c ∈ taken.head?, c.isDigit = false) ∧
      ∀ rest', EndsNumber rest' → readParts (taken ++ rest') = ((readParts text).1, rest') := by
  obtain h | ⟨digits, rest, hdigits, rfl⟩ := readFraction_cases text
  · obtain ⟨taken, htext, hhead, hlocal⟩ := readExponent_local text
    rw [readParts, h]
    refine ⟨taken, htext, fun c hc => (hhead c hc).1, fun rest' hrest' => ?_⟩
    have hfraction : readFraction (taken ++ rest') = ([], taken ++ rest') := by
      refine readFraction_of_head fun c hc => ?_
      rw [List.head?_append] at hc
      obtain hc | ⟨-, hc⟩ := Option.or_eq_some_iff.mp hc
      · exact (hhead c hc).2
      · exact (hrest' c hc).2.1
    rw [readParts, hfraction]
    dsimp only
    rw [hlocal rest' hrest']
  · obtain ⟨taken, htext, hhead, hlocal⟩ := readExponent_local rest
    rw [readParts, readFraction_of_digits hdigits]
    refine ⟨'.' :: (digits ++ taken), ?_, ?_, fun rest' hrest' => ?_⟩
    · dsimp only
      rw [List.cons_append, List.append_assoc, ← htext]
    · intro c hc
      cases hc
      rfl
    · have hdigits' : Digits digits (taken ++ rest') := by
        refine ⟨hdigits.ne_nil, hdigits.isDigit, fun c hc => ?_⟩
        rw [List.head?_append] at hc
        obtain hc | ⟨-, hc⟩ := Option.or_eq_some_iff.mp hc
        · exact (hhead c hc).1
        · exact (hrest' c hc).1
      rw [List.cons_append, List.append_assoc, readParts, readFraction_of_digits hdigits']
      dsimp only
      rw [hlocal rest' hrest']

/-- A number without its sign. -/
def readUnsigned (sign unsigned : List Char) : Step Json :=
  match readWhole unsigned with
  | none => .error (.flaw .value (sign ++ unsigned))
  | some (digits, rest) =>
    if (readParts rest).1 = ([], []) ∧ maxDigits < digits.length then .error .tooManyDigits
    else .ok (.number (String.ofList
        (sign ++ digits ++ (readParts rest).1.1 ++ (readParts rest).1.2)), (readParts rest).2)

theorem readNumber_minus (unsigned : List Char) :
    readNumber ('-' :: unsigned) = readUnsigned ['-'] unsigned := by
  unfold readNumber readUnsigned
  split
  rename_i sign unsigned' hsign
  cases hsign
  cases readWhole unsigned with
  | none => rfl
  | some parts => simp only [readParts, Prod.mk.injEq, Bool.and_eq_true, decide_eq_true_eq]

theorem readNumber_unsigned {unsigned : List Char} (h : unsigned.head? ≠ some '-') :
    readNumber unsigned = readUnsigned [] unsigned := by
  unfold readNumber readUnsigned
  split
  rename_i sign unsigned' hsign
  split at hsign
  · exact absurd rfl h
  · cases hsign
    cases readWhole unsigned with
    | none => rfl
    | some parts => simp only [readParts, Prod.mk.injEq, Bool.and_eq_true, decide_eq_true_eq]

/-- The sign of a number, in front of what is read without it. -/
inductive Sign : List Char → List Char → Prop where
  | minus (unsigned : List Char) : Sign ['-'] unsigned
  | none {unsigned : List Char} (h : unsigned.head? ≠ some '-') : Sign [] unsigned

theorem Sign.cases {sign unsigned : List Char} (h : Sign sign unsigned) : sign = [] ∨ sign = ['-'] := by
  cases h with
  | minus => exact .inr rfl
  | none => exact .inl rfl

theorem exists_sign (text : List Char) : ∃ sign unsigned, Sign sign unsigned ∧ text = sign ++ unsigned := by
  by_cases h : text.head? = some '-'
  · obtain ⟨unsigned, rfl⟩ := List.head?_eq_some_iff.mp h
    exact ⟨['-'], unsigned, .minus _, rfl⟩
  · exact ⟨[], text, .none h, rfl⟩

theorem Sign.readNumber {sign unsigned : List Char} (h : Sign sign unsigned) :
    readNumber (sign ++ unsigned) = readUnsigned sign unsigned := by
  cases h with
  | minus => exact readNumber_minus unsigned
  | none h => exact readNumber_unsigned h

/-- The sign stays one whatever follows the first digit. -/
theorem Sign.of_digits {sign unsigned : List Char} (h : Sign sign unsigned)
    (hwhole : readWhole unsigned = some (digits, rest)) (rest' : List Char) :
    Sign sign (digits ++ rest') := by
  cases h with
  | minus => exact .minus _
  | none _ =>
    obtain ⟨-, hne, hdigits, -⟩ := readWhole_eq_some hwhole
    obtain ⟨c, digits, rfl⟩ := List.exists_cons_of_ne_nil hne
    refine .none fun hminus => ?_
    cases hminus
    exact absurd (hdigits '-' List.mem_cons_self) (by decide)

/-- How a number starts. -/
def StartsNumber (text : List Char) : Prop :=
  ∃ sign digits, (sign = [] ∨ sign = ['-']) ∧ (∃ c ∈ digits.head?, c.isDigit = true) ∧ text = sign ++ digits

theorem StartsNumber.ne_nil (h : StartsNumber text) : text ≠ [] := by
  obtain ⟨sign, digits, -, ⟨c, hc, -⟩, rfl⟩ := h
  obtain ⟨digits, rfl⟩ := List.head?_eq_some_iff.mp hc
  simp

/-- A number does not depend on what follows it, as long as it ends there. -/
theorem readNumber_local {value : Json} (h : readNumber text = .ok (value, rest)) :
    ∃ taken, text = taken ++ rest ∧ (∀ rest', StartsNumber (taken ++ rest')) ∧
      ∀ rest', EndsNumber rest' → readNumber (taken ++ rest') = .ok (value, rest') := by
  obtain ⟨sign, unsigned, hsign, rfl⟩ := exists_sign text
  rw [hsign.readNumber, readUnsigned] at h
  cases hwhole : readWhole unsigned with
  | none =>
    rw [hwhole] at h
    cases h
  | some parts =>
    obtain ⟨digits, after⟩ := parts
    rw [hwhole] at h
    dsimp only at h
    split at h
    · cases h
    rename_i hshort
    cases h
    obtain ⟨rfl, hne, hdigits, hzero⟩ := readWhole_eq_some hwhole
    obtain ⟨taken, hafter, hhead, hlocal⟩ := readParts_local after
    have hassoc : ∀ rest', sign ++ (digits ++ taken) ++ rest' = sign ++ (digits ++ (taken ++ rest')) := by
      intro rest'
      rw [List.append_assoc, List.append_assoc]
    refine ⟨sign ++ (digits ++ taken), ?_, fun rest' => ?_, fun rest' hrest' => ?_⟩
    · rw [hassoc, ← hafter]
    · rw [hassoc]
      refine ⟨sign, _, hsign.cases, ?_, rfl⟩
      obtain ⟨c, more, rfl⟩ := List.exists_cons_of_ne_nil hne
      exact ⟨c, rfl, hdigits c List.mem_cons_self⟩
    · have hends : ∀ c ∈ (taken ++ rest').head?, c.isDigit = false := by
        intro c hc
        rw [List.head?_append] at hc
        obtain hc | ⟨-, hc⟩ := Option.or_eq_some_iff.mp hc
        · exact hhead c hc
        · exact (hrest' c hc).1
      rw [hassoc, (hsign.of_digits hwhole _).readNumber, readUnsigned,
        readWhole_append hne hdigits (hzero.imp_right And.left) hends]
      dsimp only
      rw [hlocal rest' hrest', if_neg hshort]

end ContextConfig.Json
