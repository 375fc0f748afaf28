import ContextConfig.Proofs.Json.Values
/-!
# The steps of the reader

What one step of the reader does is said once, with an inductive for each of its three functions:
what a value, the items of an array and the fields of an object are read from, or what was wrong
with them.
-/

namespace ContextConfig.Json

variable {room : Nat}

/-- A text that starts with no quote and no bracket. -/
def IsPlain (text : List Char) : Prop :=
  ∀ c ∈ text.head?, c ≠ '\x22' ∧ c ≠ '\x7b' ∧ c ≠ '['

/-- What a value is read from: one of its parts, or what was wrong with it. -/
inductive ValueStep (fuel : Nat) : Nat → List Char → Except Stop (Json × List Char) → Prop where
  | string {room : Nat} {text rest : List Char} {content : String}
    (h : readQuoted ('\x22' :: text) = .ok (content, rest)) :
    ValueStep fuel room ('\x22' :: text) (.ok (.string content, rest))
  | badString {room : Nat} {text : List Char} {stop : Stop}
    (h : readQuoted ('\x22' :: text) = .error stop) :
    ValueStep fuel room ('\x22' :: text) (.error stop)
  | deepObject {text : List Char} : ValueStep fuel 0 ('\x7b' :: text) (.error .tooNested)
  | deepArray {text : List Char} : ValueStep fuel 0 ('[' :: text) (.error .tooNested)
  | emptyObject {room : Nat} {text rest : List Char} (h : skip text = '\x7d' :: rest) :
    ValueStep fuel (room + 1) ('\x7b' :: text) (.ok (.object [], rest))
  | object {room : Nat} {text rest : List Char} {fields : List (String × Json)}
    (hopen : (skip text).head? ≠ some '\x7d')
    (h : readFields room fuel [] (skip text) = .ok (fields, rest)) :
    ValueStep fuel (room + 1) ('\x7b' :: text) (.ok (.object fields, rest))
  | badObject {room : Nat} {text : List Char} {stop : Stop} (hopen : (skip text).head? ≠ some '\x7d')
    (h : readFields room fuel [] (skip text) = .error stop) :
    ValueStep fuel (room + 1) ('\x7b' :: text) (.error stop)
  | emptyArray {room : Nat} {text rest : List Char} (h : skip text = ']' :: rest) :
    ValueStep fuel (room + 1) ('[' :: text) (.ok (.array [], rest))
  | array {room : Nat} {text rest : List Char} {items : List Json}
    (hopen : (skip text).head? ≠ some ']') (h : readItems room fuel (skip text) = .ok (items, rest)) :
    ValueStep fuel (room + 1) ('[' :: text) (.ok (.array items, rest))
  | badArray {room : Nat} {text : List Char} {stop : Stop} (hopen : (skip text).head? ≠ some ']')
    (h : readItems room fuel (skip text) = .error stop) :
    ValueStep fuel (room + 1) ('[' :: text) (.error stop)
  | word {room : Nat} {text rest : List Char} {value : Json} (hplain : IsPlain text)
    (h : readWord text = some (value, rest)) : ValueStep fuel room text (.ok (value, rest))
  | number {room : Nat} {text : List Char} (hplain : IsPlain text) (hword : readWord text = none) :
    ValueStep fuel room text (readNumber text)

theorem readValue_plain {text : List Char} (hplain : IsPlain text) (fuel : Nat) :
    readValue room (fuel + 1) text =
      match readWord text with
      | some step => .ok step
      | none => readNumber text := by
  rewrite [readValue]
  · rfl
  · rintro rest rfl
    exact (hplain _ rfl).1 rfl
  · rintro rest rfl
    exact (hplain _ rfl).2.1 rfl
  · rintro rest rfl
    exact (hplain _ rfl).2.2 rfl

theorem valueStep (fuel room : Nat) (text : List Char) :
    ValueStep fuel room text (readValue room (fuel + 1) text) := by
  by_cases hquote : text.head? = some '\x22'
  · obtain ⟨text, rfl⟩ := List.head?_eq_some_iff.mp hquote
    rw [readValue]
    cases h : readQuoted ('\x22' :: text) with
    | ok step => exact .string h
    | error stop => exact .badString h
  by_cases hbrace : text.head? = some '\x7b'
  · obtain ⟨text, rfl⟩ := List.head?_eq_some_iff.mp hbrace
    cases room with
    | zero => exact .deepObject
    | succ room =>
      by_cases hopen : (skip text).head? = some '\x7d'
      · obtain ⟨rest, hskip⟩ := List.head?_eq_some_iff.mp hopen
        rw [readValue, hskip]
        exact .emptyObject hskip
      · rw [readValue_object hopen]
        cases h : readFields room fuel [] (skip text) with
        | ok step => exact .object hopen h
        | error stop => exact .badObject hopen h
  by_cases hbracket : text.head? = some '['
  · obtain ⟨text, rfl⟩ := List.head?_eq_some_iff.mp hbracket
    cases room with
    | zero => exact .deepArray
    | succ room =>
      by_cases hopen : (skip text).head? = some ']'
      · obtain ⟨rest, hskip⟩ := List.head?_eq_some_iff.mp hopen
        rw [readValue, hskip]
        exact .emptyArray hskip
      · rw [readValue_array hopen]
        cases h : readItems room fuel (skip text) with
        | ok step => exact .array hopen h
        | error stop => exact .badArray hopen h
  have hplain : IsPlain text := by
    intro c hc
    refine ⟨?_, ?_, ?_⟩ <;> (rintro rfl; first | exact hquote hc | exact hbrace hc | exact hbracket hc)
  rw [readValue_plain hplain]
  cases h : readWord text with
  | some step => exact .word hplain h
  | none => exact .number hplain h

theorem ValueStep.readValue {fuel : Nat} {text : List Char} {result : Except Stop (Json × List Char)}
    (h : ValueStep fuel room text result) : readValue room (fuel + 1) text = result := by
  cases h with
  | string h => rw [Json.readValue, h]; rfl
  | badString h => rw [Json.readValue, h]; rfl
  | deepObject => rfl
  | deepArray => rfl
  | emptyObject h => rw [Json.readValue, h]; rfl
  | object hopen h => rw [readValue_object hopen, h]; rfl
  | badObject hopen h => rw [readValue_object hopen, h]; rfl
  | emptyArray h => rw [Json.readValue, h]; rfl
  | array hopen h => rw [readValue_array hopen, h]; rfl
  | badArray hopen h => rw [readValue_array hopen, h]; rfl
  | word hplain h => rw [readValue_plain hplain, h]
  | number hplain hword => rw [readValue_plain hplain, hword]

/-- What the items of an array are read from, up to a closing bracket. -/
inductive ItemsStep (room fuel : Nat) (text : List Char) : Except Stop (List Json × List Char) → Prop where
  | badItem {stop : Stop} (h : readValue room fuel text = .error stop) :
    ItemsStep room fuel text (.error stop)
  | last {item : Json} {rest more : List Char} (hitem : readValue room fuel text = .ok (item, rest))
    (hclose : skip rest = ']' :: more) : ItemsStep room fuel text (.ok ([item], more))
  | next {item : Json} {items : List Json} {rest more after : List Char}
    (hitem : readValue room fuel text = .ok (item, rest)) (hcomma : skip rest = ',' :: more)
    (h : readItems room fuel (skip more) = .ok (items, after)) :
    ItemsStep room fuel text (.ok (item :: items, after))
  | badNext {item : Json} {rest more : List Char} {stop : Stop}
    (hitem : readValue room fuel text = .ok (item, rest)) (hcomma : skip rest = ',' :: more)
    (h : readItems room fuel (skip more) = .error stop) : ItemsStep room fuel text (.error stop)
  | noComma {item : Json} {rest : List Char} (hitem : readValue room fuel text = .ok (item, rest)) :
    ItemsStep room fuel text (.error (.flaw .comma (skip rest)))

theorem itemsStep (room fuel : Nat) (text : List Char) :
    ItemsStep room fuel text (readItems room (fuel + 1) text) := by
  rw [readItems]
  cases hitem : readValue room fuel text with
  | error stop => exact .badItem hitem
  | ok step =>
    obtain ⟨item, rest⟩ := step
    simp only [bind, Except.bind]
    split
    · rename_i hclose
      exact .last hitem hclose
    · rename_i more hcomma
      cases h : readItems room fuel (skip more) with
      | ok step => exact .next hitem hcomma h
      | error stop => exact .badNext hitem hcomma h
    · exact .noComma hitem

/-- What the fields of an object are read from, up to a closing brace. -/
inductive FieldsStep (room fuel : Nat) (fields : List (String × Json)) :
    List Char → Except Stop (List (String × Json) × List Char) → Prop where
  | noName {text : List Char} : FieldsStep room fuel fields text (.error (.flaw .fieldName text))
  | badName {text : List Char} {stop : Stop} (h : readQuoted ('\x22' :: text) = .error stop) :
    FieldsStep room fuel fields ('\x22' :: text) (.error stop)
  | noColon {text rest : List Char} : FieldsStep room fuel fields text (.error (.flaw .colon rest))
  | badValue {text rest more : List Char} {name : String} {stop : Stop}
    (hname : readQuoted ('\x22' :: text) = .ok (name, rest)) (hcolon : skip rest = ':' :: more)
    (h : readValue room fuel (skip more) = .error stop) :
    FieldsStep room fuel fields ('\x22' :: text) (.error stop)
  | last {text rest more after last : List Char} {name : String} {value : Json}
    (hname : readQuoted ('\x22' :: text) = .ok (name, rest)) (hcolon : skip rest = ':' :: more)
    (hvalue : readValue room fuel (skip more) = .ok (value, after)) (hclose : skip after = '\x7d' :: last) :
    FieldsStep room fuel fields ('\x22' :: text) (.ok (setField name value fields, last))
  | next {text rest more after next : List Char} {name : String} {value : Json}
    {result : Except Stop (List (String × Json) × List Char)}
    (hname : readQuoted ('\x22' :: text) = .ok (name, rest)) (hcolon : skip rest = ':' :: more)
    (hvalue : readValue room fuel (skip more) = .ok (value, after)) (hcomma : skip after = ',' :: next)
    (h : readFields room fuel (setField name value fields) (skip next) = result) :
    FieldsStep room fuel fields ('\x22' :: text) result
  | noComma {text rest : List Char} : FieldsStep room fuel fields text (.error (.flaw .comma rest))

theorem readFields_of_head {text : List Char} (hquote : text.head? ≠ some '\x22') (fuel : Nat)
    (fields : List (String × Json)) :
    readFields room (fuel + 1) fields text = .error (.flaw .fieldName text) := by
  rw [readFields]
  rintro rest rfl
  exact hquote rfl

theorem fieldsStep (room fuel : Nat) (fields : List (String × Json)) (text : List Char) :
    FieldsStep room fuel fields text (readFields room (fuel + 1) fields text) := by
  by_cases hquote : text.head? = some '\x22'
  case neg =>
    rw [readFields_of_head hquote]
    exact .noName
  obtain ⟨text, rfl⟩ := List.head?_eq_some_iff.mp hquote
  cases hname : readQuoted ('\x22' :: text) with
  | error stop =>
    rw [readFields, hname]
    exact .badName hname
  | ok step =>
    obtain ⟨name, rest⟩ := step
    by_cases hcolon : (skip rest).head? = some ':'
    case neg =>
      rw [readFields, hname]
      simp only [bind, Except.bind]
      split
      · rename_i hskip
        rw [hskip] at hcolon
        exact absurd rfl hcolon
      · exact .noColon
    obtain ⟨more, hcolon⟩ := List.head?_eq_some_iff.mp hcolon
    cases hvalue : readValue room fuel (skip more) with
    | error stop =>
      rw [readFields_stop hname hcolon hvalue]
      exact .badValue hname hcolon hvalue
    | ok step =>
      obtain ⟨value, after⟩ := step
      rw [readFields_of_value hname hcolon hvalue, readOn]
      split
      · rename_i hclose
        exact .last hname hcolon hvalue hclose
      · rename_i hcomma
        exact .next hname hcolon hvalue hcomma rfl
      · exact .noComma

end ContextConfig.Json
