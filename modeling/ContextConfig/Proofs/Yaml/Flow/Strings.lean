import ContextConfig.Json.Printer
import ContextConfig.Proofs.Yaml.Scalar
/-!
# JSON strings as quoted scalars

A string that is printed as JSON is a quoted scalar of one line, and every escape in it is one of
YAML's. Only the two halves of a surrogate pair are read differently: each stands for itself there,
and is replaced.
-/

namespace ContextConfig.Yaml.Flow

open Json (escapedChar codeEscape printString)
open Quoted (Spells Escape)

/-- A text as it comes back from a JSON string that knows of no surrogate pairs. -/
def unpaired (text : List Char) : List Char :=
  text.flatMap fun x => if x.toNat < 0x10000 then [x] else ['\uFFFD', '\uFFFD']

theorem unpaired_cons (x : Char) (text : List Char) :
    unpaired (x :: text) = unpaired [x] ++ unpaired text := by
  simp [unpaired]

variable {x y : Char} {written text : List Char}

theorem printable_codeEscape (code : Nat) : ∀ y ∈ codeEscape code, IsPrintable y := by
  simp only [codeEscape, List.forall_mem_cons]
  exact ⟨by decide, by decide, printable_hexDigits .lower 4 code⟩

theorem printable_escapedChar (x : Char) : ∀ y ∈ escapedChar x, IsPrintable y := by
  rw [escapedChar]
  iterate 7
    split
    next => simp [IsPrintable]
  split
  case isTrue h =>
    rw [Bool.and_eq_true, decide_eq_true_eq, decide_eq_true_eq] at h
    rw [List.forall_mem_singleton]
    exact h
  split
  · exact printable_codeEscape _
  · rw [List.forall_mem_append]
    exact ⟨printable_codeEscape _, printable_codeEscape _⟩

theorem printable_flatMap_escapedChar (text : List Char) :
    ∀ y ∈ text.flatMap escapedChar, IsPrintable y := by
  simp only [List.mem_flatMap, forall_exists_index, and_imp]
  exact fun y x _ hy => printable_escapedChar x y hy

theorem printable_printString (text : List Char) : ∀ y ∈ printString text, IsPrintable y := by
  rw [printString, List.cons_append, List.forall_mem_cons, List.forall_mem_append,
    List.forall_mem_singleton]
  exact ⟨by decide, printable_flatMap_escapedChar text, by decide⟩

/-- An escape of four digits is read as the character that its code stands for. -/
theorem spells_codeEscape {code : Nat} (hcode : code < 0x10000)
    (hstands : Quoted.charOfCode code = .ok y) (h : Spells true written text) :
    Spells true (codeEscape code ++ written) (y :: text) := by
  have hvalue : Text.hexNumber? (Text.hexDigits .lower 4 code) = some code := by
    rw [Text.hexNumber?_hexDigits, Nat.mod_eq_of_lt hcode]
  have hescape : Escape ('u' :: Text.hexDigits .lower 4 code) y := by
    refine .code ?_ hvalue hstands
    rw [Text.length_hexDigits]
    rfl
  exact .escape rfl hescape h

theorem charOfCode_surrogate {code : Nat} (h : 0xD800 ≤ code ∧ code ≤ 0xDFFF) :
    Quoted.charOfCode code = .ok '\uFFFD' := by
  have hhuge : ¬ 0x80000000 ≤ code := by omega
  have hlarge : ¬ 0x110000 ≤ code := by omega
  simp [Quoted.charOfCode, hhuge, hlarge, h]

/-- What is printed for a character is read as that character, or as two that replace it. -/
theorem spells_escapedChar (x : Char) (hline : written.head? ≠ some '\n')
    (h : Spells true written text) :
    Spells true (escapedChar x ++ written) (unpaired [x] ++ text) := by
  have hshort {letter : Char} (hletter : Quoted.shortEscape? letter = some x)
      (hx : unpaired [x] = [x]) :
      Spells true (['\\', letter] ++ written) (unpaired [x] ++ text) := by
    rw [hx]
    exact .escape rfl (.short hletter) h
  have hvalid := Encoding.toNat_valid x
  rw [escapedChar]
  iterate 7
    split
    next hx => exact hshort (by rw [hx]; rfl) (by rw [hx]; rfl)
  split
  case isTrue hquote hbackslash _ _ _ _ _ hx =>
    rw [Bool.and_eq_true, decide_eq_true_eq, decide_eq_true_eq] at hx
    have hcode : x.toNat < 0x10000 := Nat.lt_of_le_of_lt hx.2 (by decide)
    simp only [unpaired, List.flatMap_cons, List.flatMap_nil, List.append_nil, if_pos hcode]
    by_cases hspace : x = ' '
    · subst hspace
      exact h.blank hline
    · exact .char ⟨hx, hspace⟩ hquote (fun _ => hbackslash) h
  split
  case isTrue hcode =>
    simp only [unpaired, List.flatMap_cons, List.flatMap_nil, List.append_nil, if_pos hcode]
    exact spells_codeEscape hcode (Quoted.charOfCode_toNat x) h
  case isFalse hcode =>
    simp only [unpaired, List.flatMap_cons, List.flatMap_nil, List.append_nil, if_neg hcode]
    rw [List.append_assoc]
    have hlow : Spells true (codeEscape (0xDC00 + (x.toNat - 0x10000) % 1024) ++ written)
        ('\uFFFD' :: text) := spells_codeEscape (by omega) (charOfCode_surrogate (by omega)) h
    exact spells_codeEscape (by omega) (charOfCode_surrogate (by omega)) hlow

/-- A printed string is a quoted scalar. -/
theorem spells_flatMap_escapedChar (text : List Char) :
    Spells true (text.flatMap escapedChar ++ [Quoted.quote true]) (unpaired text) := by
  induction text with
  | nil => exact .close
  | cons x text ih =>
    have hline : (text.flatMap escapedChar ++ [Quoted.quote true]).head? ≠ some '\n' := by
      intro hhead
      have hmem := List.mem_of_head? hhead
      rw [List.mem_append, List.mem_singleton] at hmem
      obtain hmem | hmem := hmem
      · exact absurd (printable_flatMap_escapedChar text _ hmem) (by decide)
      · exact absurd hmem (by decide)
    rw [List.flatMap_cons, List.append_assoc, unpaired_cons]
    exact spells_escapedChar x hline ih

/-- A printed string is read as its text, up to the surrogates, in front of anything. -/
theorem read_printString {c : Cursor} {rest : List Char} (h : c.rest = printString text ++ rest) :
    Quoted.read true c = .ok (unpaired text, c.skip (printString text).length) := by
  have hc : c.rest = Quoted.quote true
      :: ((text.flatMap escapedChar ++ [Quoted.quote true]) ++ rest) := h
  have hread := Quoted.read_of_spells (spells_flatMap_escapedChar text) hc nofun
  exact hread

end ContextConfig.Yaml.Flow
