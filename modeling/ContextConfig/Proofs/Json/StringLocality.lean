import ContextConfig.Proofs.Json.Strings
/-!
# How much of a text a string takes

A string that is closed takes the text up to its closing quote, and its content does not depend on
what follows. A code escape looks ahead for a second one, but inside a closed string there is enough
left to look at.
-/

namespace ContextConfig.Json

/-- What may follow an escape in a string that is read to its end: at least the closing quote, and
all of a further escape. -/
structure Continues (rest : List Char) : Prop where
  ne_nil : rest ≠ []
  ne_backslash : rest ≠ ['\\']
  code : ∀ more, rest = '\\' :: 'u' :: more → 5 ≤ more.length

theorem readCode?_eq_some {digits rest : List Char} {code : Nat} :
    readCode? digits = some (code, rest) ↔
      ∃ a b c d, digits = a :: b :: c :: d :: rest ∧ rest ≠ [] ∧
        Text.hexNumber? [a, b, c, d] = some code := by
  constructor
  · intro h
    unfold readCode? at h
    split at h
    · obtain ⟨code, hcode, hparts⟩ := Option.map_eq_some_iff.mp h
      cases hparts
      exact ⟨_, _, _, _, rfl, List.cons_ne_nil _ _, hcode⟩
    · cases h
  · rintro ⟨a, b, c, d, rfl, hrest, hcode⟩
    obtain ⟨next, more, rfl⟩ := List.exists_cons_of_ne_nil hrest
    rw [readCode?, hcode]
    rfl

/-- Whether another escape follows depends on what is read with certainty. -/
theorem Continues.backslash {middle rest more : List Char} (h : Continues middle)
    (hrest : middle ++ rest = '\\' :: 'u' :: more) :
    ∃ a b c d e m, middle = '\\' :: 'u' :: a :: b :: c :: d :: e :: m ∧
      more = a :: b :: c :: d :: e :: (m ++ rest) := by
  obtain ⟨hnil, hbackslash, hcode⟩ := h
  match middle with
  | [] => exact absurd rfl hnil
  | [_] =>
    cases hrest
    exact absurd rfl hbackslash
  | _ :: _ :: tail =>
    cases hrest
    match tail, hcode tail rfl with
    | a :: b :: c :: d :: e :: m, _ => exact ⟨a, b, c, d, e, m, rfl, rfl⟩

section Codes

variable {digits more rest : List Char} {code low : Nat}

theorem readCodeEscape_of_not_high (hcode : readCode? digits = some (code, rest))
    (hhigh : ¬ isHighSurrogate code = true) : readCodeEscape digits = .ok (charOfCode code, rest) := by
  rw [readCodeEscape, hcode]
  dsimp only
  rw [if_neg hhigh]

theorem readCodeEscape_of_alone (hcode : readCode? digits = some (code, rest))
    (hhigh : isHighSurrogate code = true) (hrest : ∀ more, rest ≠ '\\' :: 'u' :: more) :
    readCodeEscape digits = .ok (Encoding.replacement, rest) := by
  rw [readCodeEscape, hcode]
  dsimp only
  rw [if_pos hhigh]
  split
  · exact absurd rfl (hrest _)
  · rfl

theorem readCodeEscape_of_code (hcode : readCode? digits = some (code, '\\' :: 'u' :: more))
    (hhigh : isHighSurrogate code = true) (hlow : readCode? more = some (low, rest)) :
    readCodeEscape digits = if isLowSurrogate low = true
      then .ok (Encoding.joinSurrogates code low, rest)
      else .ok (Encoding.replacement, '\\' :: 'u' :: more) := by
  have hlength : ¬ more.length < 5 := by
    obtain ⟨a, b, c, d, rfl, hrest, -⟩ := readCode?_eq_some.mp hlow
    have hpos := List.length_pos_iff.mpr hrest
    simp only [List.length_cons]
    omega
  simp only [readCodeEscape, hcode, hhigh, hlength, hlow, if_true, if_false]

/-- What a code escape is read from: one code, or two that belong together. -/
inductive CodeStep (digits : List Char) : Except Stop (Char × List Char) → Prop where
  | bad {rest : List Char} : CodeStep digits (.error (.flaw .unicodeEscape rest))
  | single {code : Nat} {rest : List Char} (hcode : readCode? digits = some (code, rest))
    (hhigh : ¬ isHighSurrogate code = true) : CodeStep digits (.ok (charOfCode code, rest))
  | alone {code : Nat} {rest : List Char} (hcode : readCode? digits = some (code, rest))
    (hhigh : isHighSurrogate code = true) (hrest : ∀ more, rest ≠ '\\' :: 'u' :: more) :
    CodeStep digits (.ok (Encoding.replacement, rest))
  | short {more : List Char} (hshort : more.length < 5) :
    CodeStep digits (.ok (Encoding.replacement, '\\' :: 'u' :: more))
  | joined {code low : Nat} {more rest : List Char}
    (hcode : readCode? digits = some (code, '\\' :: 'u' :: more))
    (hhigh : isHighSurrogate code = true) (hlow : readCode? more = some (low, rest))
    (hjoin : isLowSurrogate low = true) :
    CodeStep digits (.ok (Encoding.joinSurrogates code low, rest))
  | parted {code low : Nat} {more rest : List Char}
    (hcode : readCode? digits = some (code, '\\' :: 'u' :: more))
    (hhigh : isHighSurrogate code = true) (hlow : readCode? more = some (low, rest))
    (hjoin : ¬ isLowSurrogate low = true) :
    CodeStep digits (.ok (Encoding.replacement, '\\' :: 'u' :: more))

theorem codeStep (digits : List Char) : CodeStep digits (readCodeEscape digits) := by
  unfold readCodeEscape
  split
  case h_1 => exact .bad
  case h_2 code rest hcode =>
    split
    case isFalse hhigh => exact .single hcode hhigh
    case isTrue hhigh =>
      split
      case h_2 hrest => exact .alone hcode hhigh hrest
      case h_1 more =>
        split
        case isTrue hshort => exact .short hshort
        case isFalse =>
          split
          case h_1 => exact .bad
          case h_2 low rest hlow =>
            split
            case isTrue hjoin => exact .joined hcode hhigh hlow hjoin
            case isFalse hjoin => exact .parted hcode hhigh hlow hjoin

/-- The digits of a code do not depend on what follows them. -/
theorem readCode?_local (hcode : readCode? digits = some (code, rest)) :
    ∃ taken, taken.length = 4 ∧ digits = taken ++ rest ∧
      ∀ rest', rest' ≠ [] → readCode? (taken ++ rest') = some (code, rest') := by
  obtain ⟨a, b, c, d, rfl, -, hnumber⟩ := readCode?_eq_some.mp hcode
  exact ⟨[a, b, c, d], rfl, rfl,
    fun rest' hrest' => readCode?_eq_some.mpr ⟨a, b, c, d, rfl, hrest', hnumber⟩⟩

/-- A code escape does not depend on what follows it in a string. -/
theorem readCodeEscape_local {middle : List Char} {x : Char} (hmiddle : Continues middle)
    (h : readCodeEscape digits = .ok (x, middle ++ rest)) :
    ∃ taken, 4 ≤ taken.length ∧ digits = taken ++ (middle ++ rest) ∧
      ∀ rest', readCodeEscape (taken ++ (middle ++ rest')) = .ok (x, middle ++ rest') := by
  have hne : ∀ rest', middle ++ rest' ≠ [] := fun rest' h =>
    hmiddle.ne_nil (List.append_eq_nil_iff.mp h).1
  have hstep := codeStep digits
  rw [h] at hstep
  generalize hresult : Except.ok (x, middle ++ rest) = result at hstep
  cases hstep with
  | bad => cases hresult
  | single hcode hhigh =>
    cases hresult
    obtain ⟨taken, hfour, rfl, hread⟩ := readCode?_local hcode
    exact ⟨taken, Nat.le_of_eq hfour.symm, rfl,
      fun rest' => readCodeEscape_of_not_high (hread _ (hne rest')) hhigh⟩
  | alone hcode hhigh hrest =>
    cases hresult
    obtain ⟨taken, hfour, rfl, hread⟩ := readCode?_local hcode
    refine ⟨taken, Nat.le_of_eq hfour.symm, rfl,
      fun rest' => readCodeEscape_of_alone (hread _ (hne rest')) hhigh fun more hmore => ?_⟩
    obtain ⟨_, _, _, _, _, _, rfl, -⟩ := hmiddle.backslash hmore
    exact hrest _ rfl
  | short hshort =>
    -- Only a text that ends within the second escape leaves it to be read on its own.
    obtain ⟨-, hafter⟩ := Prod.mk.inj (Except.ok.inj hresult)
    obtain ⟨_, _, _, _, _, _, -, rfl⟩ := hmiddle.backslash hafter
    simp only [List.length_cons] at hshort
    omega
  | joined hcode hhigh hlow hjoin =>
    obtain ⟨rfl, rfl⟩ := Prod.mk.inj (Except.ok.inj hresult.symm)
    obtain ⟨taken, hfour, rfl, hread⟩ := readCode?_local hcode
    obtain ⟨taken', -, rfl, hread'⟩ := readCode?_local hlow
    refine ⟨taken ++ '\\' :: 'u' :: taken', by simp [hfour], by simp, fun rest' => ?_⟩
    have hcode' := hread ('\\' :: 'u' :: (taken' ++ (middle ++ rest'))) (List.cons_ne_nil _ _)
    rw [List.append_assoc, List.cons_append, List.cons_append,
      readCodeEscape_of_code hcode' hhigh (hread' _ (hne rest')), if_pos hjoin]
  | parted hcode hhigh hlow hjoin =>
    obtain ⟨rfl, hafter⟩ := Prod.mk.inj (Except.ok.inj hresult)
    obtain ⟨a, b, c, d, e, m, rfl, rfl⟩ := hmiddle.backslash hafter
    obtain ⟨taken, hfour, rfl, hread⟩ := readCode?_local hcode
    obtain ⟨_, _, _, _, hdigits, -, hnumber⟩ := readCode?_eq_some.mp hlow
    cases hdigits
    refine ⟨taken, Nat.le_of_eq hfour.symm, rfl, fun rest' => ?_⟩
    have hcode' := hread ('\\' :: 'u' :: a :: b :: c :: d :: e :: (m ++ rest')) (List.cons_ne_nil _ _)
    have hlow' := readCode?_eq_some.mpr ⟨a, b, c, d, rfl, List.cons_ne_nil e (m ++ rest'), hnumber⟩
    exact (readCodeEscape_of_code hcode' hhigh hlow').trans (if_neg hjoin)

theorem readCodeEscape_error {stop : Stop} (h : readCodeEscape digits = .error stop) :
    ∃ rest, stop = .flaw .unicodeEscape rest := by
  have hstep := codeStep digits
  rw [h] at hstep
  cases hstep with
  | bad => exact ⟨_, rfl⟩

end Codes

/-- A character of a string does not depend on what follows it in the string. -/
theorem readChar_local {opening text middle rest : List Char} {x : Char}
    (hmiddle : Continues middle) (h : readChar opening text = .ok (x, middle ++ rest)) :
    ∃ taken, Continues (taken ++ middle) ∧ text = taken ++ (middle ++ rest) ∧
      taken.head? = text.head? ∧ taken ≠ [] ∧
      ∀ opening' rest', readChar opening' (taken ++ (middle ++ rest')) = .ok (x, middle ++ rest') := by
  have hlength : 1 ≤ middle.length := List.length_pos_iff.mpr hmiddle.ne_nil
  cases text with
  | nil => cases h
  | cons c text =>
    by_cases hc : c = '\\'
    case neg =>
      by_cases hspace : c < ' '
      · simp [readChar, hspace] at h
      · rw [readChar_verbatim opening hc hspace] at h
        cases h
        refine ⟨[x], ⟨by simp, ?_, ?_⟩, rfl, rfl, by simp,
          fun opening' rest' => readChar_verbatim opening' hc hspace _⟩
        · simp [hc]
        · intro more hmore
          cases hmore
          exact absurd rfl hc
    subst hc
    cases text with
    | nil => cases h
    | cons letter text =>
      by_cases hletter : letter = 'u'
      case pos =>
        subst hletter
        obtain ⟨taken, hfour, rfl, hread⟩ := readCodeEscape_local hmiddle h
        refine ⟨'\\' :: 'u' :: taken, ⟨by simp, by simp, ?_⟩, rfl, rfl, by simp, fun _ => hread⟩
        intro more hmore
        cases hmore
        rw [List.append_eq, List.length_append]
        omega
      case neg =>
        cases hshort : shortEscape? letter with
        | none =>
          simp only [readChar, hshort] at h
          cases h
        | some c =>
          rw [readChar_short opening hshort] at h
          cases h
          refine ⟨['\\', letter], ⟨by simp, by simp, ?_⟩, rfl, rfl, by simp,
            fun opening' rest' => readChar_short opening' hshort _⟩
          intro more hmore
          cases hmore
          exact absurd rfl hletter

theorem readString_cons {opening text : List Char} (hquote : text.head? ≠ some '\x22') (fuel : Nat) :
    readString opening (fuel + 1) text =
      match readChar opening text with
      | .error stop => .error stop
      | .ok (c, rest) => (readString opening fuel rest).map fun (s, rest) => (c :: s, rest) := by
  rewrite [readString]
  · rfl
  · rintro rest rfl
    exact hquote rfl

/-- A string that is closed does not depend on what follows its closing quote. -/
theorem readString_local {fuel : Nat} {opening text rest content : List Char}
    (h : readString opening fuel text = .ok (content, rest)) :
    ∃ taken, Continues taken ∧ text = taken ++ rest ∧
      ∀ opening' rest' fuel', taken.length ≤ fuel' →
        readString opening' fuel' (taken ++ rest') = .ok (content, rest') := by
  induction fuel generalizing text content with
  | zero => cases h
  | succ fuel ih =>
    by_cases hquote : text.head? = some '\x22'
    · obtain ⟨text, rfl⟩ := List.head?_eq_some_iff.mp hquote
      cases h
      refine ⟨['\x22'], ⟨by simp, by simp, nofun⟩, rfl, fun opening' rest' fuel' hfuel => ?_⟩
      obtain ⟨fuel', rfl⟩ := Nat.exists_eq_add_one.mpr (Nat.lt_of_lt_of_le Nat.zero_lt_one hfuel)
      rfl
    rw [readString_cons hquote] at h
    cases hchar : readChar opening text with
    | error stop =>
      rw [hchar] at h
      cases h
    | ok step =>
      obtain ⟨x, after⟩ := step
      rw [hchar] at h
      dsimp only at h
      cases hmore : readString opening fuel after with
      | error stop =>
        rw [hmore] at h
        cases h
      | ok step =>
        obtain ⟨content', rest'⟩ := step
        rw [hmore] at h
        cases h
        obtain ⟨middle, hmiddle, rfl, hread⟩ := ih hmore
        obtain ⟨taken, hcontinues, rfl, hhead, hne, hfirst⟩ := readChar_local hmiddle hchar
        refine ⟨taken ++ middle, hcontinues, (List.append_assoc ..).symm, ?_⟩
        intro opening' rest' fuel' hfuel
        have htaken : 0 < taken.length := List.length_pos_iff.mpr hne
        rw [List.length_append] at hfuel
        obtain ⟨fuel', rfl⟩ := Nat.exists_eq_add_one.mpr (show 0 < fuel' by omega)
        have hquote' : (taken ++ (middle ++ rest')).head? ≠ some '\x22' := by
          obtain ⟨c, taken, rfl⟩ := List.exists_cons_of_ne_nil hne
          exact fun h => hquote (hhead.symm.trans h)
        rw [List.append_assoc, readString_cons hquote', hfirst]
        dsimp only
        rw [hread opening' rest' fuel' (by omega)]
        rfl

theorem readChar_error {opening text : List Char} {stop : Stop}
    (h : readChar opening text = .error stop) :
    ∃ flaw rest, stop = .flaw flaw rest ∧ flaw ≠ .value := by
  unfold readChar at h
  split at h
  · cases h
    exact ⟨_, _, rfl, by decide⟩
  · split at h
    · cases h
      exact ⟨_, _, rfl, by decide⟩
    · obtain ⟨rest, rfl⟩ := readCodeEscape_error h
      exact ⟨_, rest, rfl, by decide⟩
    · split at h
      · cases h
      · cases h
        exact ⟨_, _, rfl, by decide⟩
  · split at h
    · cases h
      exact ⟨_, _, rfl, by decide⟩
    · cases h

/-- What is wrong with a string is no value that is missing. -/
theorem readString_error {fuel : Nat} {opening text : List Char} {stop : Stop}
    (h : readString opening fuel text = .error stop) :
    ∃ flaw rest, stop = .flaw flaw rest ∧ flaw ≠ .value := by
  induction fuel generalizing text with
  | zero =>
    cases h
    exact ⟨_, _, rfl, by decide⟩
  | succ fuel ih =>
    by_cases hquote : text.head? = some '\x22'
    · obtain ⟨text, rfl⟩ := List.head?_eq_some_iff.mp hquote
      cases h
    rw [readString_cons hquote] at h
    cases hchar : readChar opening text with
    | error stop' =>
      rw [hchar] at h
      cases h
      exact readChar_error hchar
    | ok step =>
      rw [hchar] at h
      dsimp only at h
      cases hmore : readString opening fuel step.2 with
      | error stop' =>
        rw [hmore] at h
        cases h
        exact ih hmore
      | ok step' =>
        rw [hmore] at h
        cases h

theorem readQuoted_local {text rest : List Char} {content : String}
    (h : readQuoted ('\x22' :: text) = .ok (content, rest)) :
    ∃ taken, text = taken ++ rest ∧
      ∀ rest', readQuoted ('\x22' :: (taken ++ rest')) = .ok (content, rest') := by
  rw [readQuoted] at h
  cases hread : readString ('\x22' :: text) ('\x22' :: text).length text with
  | error stop =>
    rw [List.drop_one, List.tail_cons, hread] at h
    cases h
  | ok step =>
    rw [List.drop_one, List.tail_cons, hread] at h
    cases h
    obtain ⟨taken, -, rfl, hlocal⟩ := readString_local hread
    refine ⟨taken, rfl, fun rest' => ?_⟩
    have hlength : taken.length ≤ ('\x22' :: (taken ++ rest')).length := by
      rw [List.length_cons, List.length_append]
      omega
    rw [readQuoted, List.drop_one, List.tail_cons, hlocal _ _ _ hlength]
    rfl

theorem readQuoted_error {opening : List Char} {stop : Stop}
    (h : readQuoted opening = .error stop) : ∃ flaw rest, stop = .flaw flaw rest ∧ flaw ≠ .value := by
  rw [readQuoted] at h
  cases hread : readString opening opening.length (opening.drop 1) with
  | error stop' =>
    rw [hread] at h
    cases h
    exact readString_error hread
  | ok step =>
    rw [hread] at h
    cases h

end ContextConfig.Json
