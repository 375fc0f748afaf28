import ContextConfig.Json.Printer
import ContextConfig.Json.Reader
import ContextConfig.Proofs.Encoding
/-!
# Reading back JSON strings

A printed string is read as the text it was printed from, for every text. Characters beyond U+FFFF
are the reason why this is not a matter of single escapes: they are printed as two surrogates, and
the reader joins a high surrogate with the escape that follows it.
-/

namespace ContextConfig.Json

/-- Four digits are read as the code they were printed from, as long as something follows. -/
theorem readCode?_hexDigits {code : Nat} (h : code < 0x10000) {rest : List Char} (hrest : rest ≠ []) :
    readCode? (Text.hexDigits .lower 4 code ++ rest) = some (code, rest) := by
  obtain ⟨next, more, rfl⟩ := List.exists_cons_of_ne_nil hrest
  have hcode : code % Nat.pow 16 4 = code := Nat.mod_eq_of_lt h
  have hdigits := Text.hexNumber?_hexDigits .lower 4 code
  rw [hcode] at hdigits
  match hcode : Text.hexDigits .lower 4 code, Text.length_hexDigits .lower 4 code with
  | [a, b, c, d], _ =>
    rw [hcode] at hdigits
    simp [readCode?, hdigits]

/-- The escape of a code that is no surrogate is the character of that code. -/
theorem readCodeEscape_character (c : Char) (hc : c.toNat < 0x10000) {rest : List Char}
    (hrest : rest ≠ []) :
    readCodeEscape (Text.hexDigits .lower 4 c.toNat ++ rest) = .ok (c, rest) := by
  have hvalid := Encoding.toNat_valid c
  have hhigh : isHighSurrogate c.toNat = false := by
    simp only [isHighSurrogate, Bool.and_eq_false_iff, decide_eq_false_iff_not]
    omega
  have hsurrogate : Encoding.isSurrogate c.toNat = false := by
    simp only [Encoding.isSurrogate, Bool.and_eq_false_iff, decide_eq_false_iff_not]
    omega
  rw [readCodeEscape, readCode?_hexDigits hc hrest]
  simp [hhigh, charOfCode, hsurrogate, Char.ofNat_toNat]

/-- The escapes of two surrogates are the one character that they spell. -/
theorem readCodeEscape_surrogates (c : Char) (hc : 0x10000 ≤ c.toNat) {rest : List Char}
    (hrest : rest ≠ []) :
    readCodeEscape (Text.hexDigits .lower 4 (0xD800 + (c.toNat - 0x10000) / 1024)
      ++ codeEscape (0xDC00 + (c.toNat - 0x10000) % 1024) ++ rest) = .ok (c, rest) := by
  have hvalid := Encoding.toNat_valid c
  have hhigh : isHighSurrogate (0xD800 + (c.toNat - 0x10000) / 1024) = true := by
    simp only [isHighSurrogate, Bool.and_eq_true, decide_eq_true_eq]
    omega
  have hlow : isLowSurrogate (0xDC00 + (c.toNat - 0x10000) % 1024) = true := by
    simp only [isLowSurrogate, Bool.and_eq_true, decide_eq_true_eq]
    omega
  have hjoin : Encoding.joinSurrogates (0xD800 + (c.toNat - 0x10000) / 1024)
      (0xDC00 + (c.toNat - 0x10000) % 1024) = c := by
    have hcode : 0x10000 + (0xD800 + (c.toNat - 0x10000) / 1024 - 0xD800) * 1024
        + (0xDC00 + (c.toNat - 0x10000) % 1024 - 0xDC00) = c.toNat := by omega
    rw [Encoding.joinSurrogates, hcode, Char.ofNat_toNat]
  have hlength : ¬ (Text.hexDigits .lower 4 (0xDC00 + (c.toNat - 0x10000) % 1024)
      ++ rest).length < 5 := by
    have := List.length_pos_iff.mpr hrest
    rw [List.length_append, Text.length_hexDigits]
    omega
  rw [readCodeEscape, List.append_assoc, readCode?_hexDigits (by omega) (by simp [codeEscape])]
  simp only [hhigh, if_true, codeEscape, List.cons_append]
  rw [if_neg hlength, readCode?_hexDigits (by omega) hrest]
  simp [hlow, hjoin]

theorem readChar_short (opening : List Char) {letter c : Char}
    (h : shortEscape? letter = some c) (rest : List Char) :
    readChar opening ('\\' :: letter :: rest) = .ok (c, rest) := by
  have hletter : letter ≠ 'u' := by
    rintro rfl
    cases h
  simp [readChar, h]

theorem readChar_code (opening digits : List Char) :
    readChar opening ('\\' :: 'u' :: digits) = readCodeEscape digits := rfl

theorem readChar_verbatim (opening : List Char) {c : Char} (hbackslash : c ≠ '\\')
    (hspace : ¬ c < ' ') (rest : List Char) : readChar opening (c :: rest) = .ok (c, rest) := by
  simp [readChar, hspace]

/-- Whatever follows a printed character, reading takes that character alone. -/
theorem readChar_escapedChar (opening : List Char) (c : Char) {rest : List Char}
    (hrest : rest ≠ []) : readChar opening (escapedChar c ++ rest) = .ok (c, rest) := by
  rw [escapedChar]
  iterate 7
    split
    next h => exact readChar_short opening (by rw [h]; rfl) rest
  split
  case isTrue hbackslash _ _ _ _ _ h =>
    rw [Bool.and_eq_true, decide_eq_true_eq] at h
    exact readChar_verbatim opening hbackslash (Char.not_lt.mpr h.1) rest
  split
  case isTrue h =>
    rw [codeEscape, List.cons_append, List.cons_append, readChar_code]
    exact readCodeEscape_character c h hrest
  case isFalse h =>
    rw [codeEscape, List.cons_append, List.cons_append, List.cons_append, List.cons_append,
      readChar_code]
    exact readCodeEscape_surrogates c (Nat.not_lt.mp h) hrest

theorem escapedChar_ne_nil (c : Char) : escapedChar c ≠ [] := by
  fun_cases escapedChar c <;> simp [codeEscape]

/-- No printed character can be taken for the closing quote. -/
theorem head?_escapedChar (c : Char) : (escapedChar c).head? ≠ some '\x22' := by
  fun_cases escapedChar c <;> simp_all [codeEscape]

/-- Every character takes one step of fuel and a character at least. -/
theorem readString_flatMap (opening text rest : List Char) {fuel : Nat} (hfuel : text.length < fuel) :
    readString opening fuel (text.flatMap escapedChar ++ '\x22' :: rest) = .ok (text, rest) := by
  induction text generalizing fuel with
  | nil =>
    obtain ⟨fuel, rfl⟩ := Nat.exists_eq_add_one.mpr hfuel
    rfl
  | cons c text ih =>
    obtain ⟨fuel, rfl⟩ := Nat.exists_eq_add_one.mpr (Nat.zero_lt_of_lt hfuel)
    have hrest : text.flatMap escapedChar ++ '\x22' :: rest ≠ [] := by simp
    have hread := readChar_escapedChar opening c hrest
    have hquote := head?_escapedChar c
    obtain ⟨x, more, hx⟩ := List.exists_cons_of_ne_nil (escapedChar_ne_nil c)
    rw [hx] at hread hquote
    rw [List.flatMap_cons, List.append_assoc, hx, readString]
    · rw [hread]
      dsimp only
      rw [ih (Nat.lt_of_succ_lt_succ hfuel)]
      rfl
    · rintro r h
      injection h with h
      simp [h] at hquote

theorem length_le_flatMap_escapedChar (text : List Char) :
    text.length ≤ (text.flatMap escapedChar).length := by
  induction text with
  | nil => exact Nat.le_refl 0
  | cons c text ih =>
    have := List.length_pos_iff.mpr (escapedChar_ne_nil c)
    rw [List.flatMap_cons, List.length_append, List.length_cons]
    omega

/-- A printed string is read from its opening quote on. -/
theorem readQuoted_printString (text : String) (rest : List Char) :
    readQuoted (printString text.toList ++ rest) = .ok (text, rest) := by
  have hlength := length_le_flatMap_escapedChar text.toList
  have hopening : printString text.toList ++ rest
      = '\x22' :: (text.toList.flatMap escapedChar ++ '\x22' :: rest) := by
    simp [printString]
  rw [hopening, readQuoted, List.drop_one, List.tail_cons, readString_flatMap]
  · simp [Except.map]
  · rw [List.length_cons, List.length_append]
    omega

end ContextConfig.Json
