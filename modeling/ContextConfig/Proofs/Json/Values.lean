import ContextConfig.Proofs.Json.Strings
/-!
# Reading back JSON values

Printing a value in any layout and reading the result gives the value back, provided that no object
names a field twice and that there are no numbers, which are kept as they are written. The reader's
fuel is a bound on its depth: twice the length of what is left is always enough.
-/

namespace ContextConfig.Json

variable {room : Nat}

/-- The values that reading gives back as they were printed, with room for so many brackets inside
one another. -/
inductive Legible : Nat → Json → Prop where
  | null {room : Nat} : Legible room .null
  | bool {room : Nat} (value : Bool) : Legible room (.bool value)
  | string {room : Nat} (text : String) : Legible room (.string text)
  | array {room : Nat} {items : List Json} (each : ∀ item ∈ items, Legible room item) :
    Legible (room + 1) (.array items)
  | object {room : Nat} {fields : List (String × Json)} (distinct : (fields.map Prod.fst).Nodup)
    (each : ∀ field ∈ fields, Legible room field.2) : Legible (room + 1) (.object fields)

theorem Legible.mono {v : Json} {room room' : Nat} (h : Legible room v) (hroom : room ≤ room') :
    Legible room' v := by
  induction h generalizing room' with
  | null => exact .null
  | bool value => exact .bool value
  | string text => exact .string text
  | array _ ih =>
    obtain ⟨room', rfl⟩ := Nat.exists_eq_add_one.mpr (Nat.zero_lt_of_lt hroom)
    exact .array fun item hitem => ih item hitem (Nat.le_of_succ_le_succ hroom)
  | object distinct _ ih =>
    obtain ⟨room', rfl⟩ := Nat.exists_eq_add_one.mpr (Nat.zero_lt_of_lt hroom)
    exact .object distinct fun field hfield => ih field hfield (Nat.le_of_succ_le_succ hroom)

theorem skip_cons {c : Char} (h : isSpace c = false) (rest : List Char) :
    skip (c :: rest) = c :: rest := by
  simp [skip, h]

theorem skip_space (rest : List Char) : skip (' ' :: rest) = skip rest := by
  simp [skip, isSpace]

/-- White space in front of an item does not matter in any layout. -/
theorem skip_lineBreak (layout : Layout) (depth : Nat) (rest : List Char) :
    skip (layout.lineBreak depth ++ rest) = skip rest := by
  cases layout with
  | compact => rfl
  | indented width =>
    rw [Layout.lineBreak, List.cons_append, skip, List.dropWhile_cons_of_pos (by decide)]
    induction width * depth with
    | zero => rfl
    | succ n ih => rwa [List.replicate_succ, List.cons_append, List.dropWhile_cons_of_pos (by decide)]

/-- A new field goes to the end. -/
theorem setField_of_not_mem {name : String} {value : Json} {fields : List (String × Json)}
    (h : name ∉ fields.map Prod.fst) : setField name value fields = fields ++ [(name, value)] := by
  induction fields with
  | nil => rfl
  | cons field rest ih =>
    rw [List.map_cons, List.mem_cons, not_or] at h
    simp [setField, Ne.symm h.1, ih h.2]

/-- A printed value starts with a character that is neither white space nor a closing bracket. -/
theorem exists_print {v : Json} (h : Legible room v) (layout : Layout) (depth : Nat) :
    ∃ c rest, print layout depth v = c :: rest ∧ isSpace c = false ∧ c ≠ ']' := by
  cases h with
  | null => exact ⟨'n', _, by rw [print]; rfl, by decide, by decide⟩
  | bool value =>
    cases value with
    | true => exact ⟨'t', _, by rw [print]; rfl, by decide, by decide⟩
    | false => exact ⟨'f', _, by rw [print]; rfl, by decide, by decide⟩
  | string text => exact ⟨'\x22', _, by rw [print, printString]; rfl, by decide, by decide⟩
  | @array _ items _ =>
    cases items with
    | nil => exact ⟨'[', _, by rw [print]; rfl, by decide, by decide⟩
    | cons item items => exact ⟨'[', _, by rw [print]; rfl, by decide, by decide⟩
  | @object _ fields _ _ =>
    cases fields with
    | nil => exact ⟨'\x7b', _, by rw [print], by decide, by decide⟩
    | cons field fields => exact ⟨'\x7b', _, by rw [print]; rfl, by decide, by decide⟩

/-- A value is read from its printed form at any depth, whatever follows. -/
def ReadsBack (room : Nat) (layout : Layout) (v : Json) : Prop :=
  ∀ (depth fuel : Nat) (rest : List Char), 2 * (print layout depth v).length ≤ fuel →
    readValue room fuel (print layout depth v ++ rest) = .ok (v, rest)

/-- What follows a comma is skipped up to the next item. -/
theorem exists_comma (layout : Layout) :
    ∃ tail, layout.comma = ',' :: tail ∧ ∀ rest, skip (tail ++ rest) = skip rest := by
  cases layout with
  | compact => exact ⟨[' '], rfl, skip_space⟩
  | indented => exact ⟨[], rfl, fun _ => rfl⟩

theorem skip_printString (text rest : List Char) :
    skip (printString text ++ rest) = printString text ++ rest := skip_cons (by decide) _

theorem readItems_close {fuel : Nat} {text rest more : List Char} {item : Json}
    (hitem : readValue room fuel text = .ok (item, rest)) (hclose : skip rest = ']' :: more) :
    readItems room (fuel + 1) text = .ok ([item], more) := by
  simp only [readItems, hitem, hclose, bind, Except.bind]

theorem readItems_comma {fuel : Nat} {text rest more : List Char} {item : Json}
    (hitem : readValue room fuel text = .ok (item, rest)) (hcomma : skip rest = ',' :: more) :
    readItems room (fuel + 1) text
      = (readItems room fuel (skip more)).map fun (items, rest) => (item :: items, rest) := by
  simp only [readItems, hitem, hcomma, bind, Except.bind]
  cases readItems room fuel (skip more) <;> rfl

theorem readItems_stop {fuel : Nat} {text : List Char} {stop : Stop}
    (hitem : readValue room fuel text = .error stop) : readItems room (fuel + 1) text = .error stop := by
  rw [readItems, hitem]
  rfl

/-- Items are read up to the closing bracket. -/
theorem readItems_print {layout : Layout} (depth outer : Nat) (rest : List Char)
    {items : List Json} (hitems : ∀ item ∈ items, Legible room item ∧ ReadsBack room layout item) :
    ∀ {item : Json} (fuel : Nat), ReadsBack room layout item →
      2 * (print layout depth item).length + 2 * (printItems layout depth items).length < fuel →
      readItems room fuel (print layout depth item
          ++ (printItems layout depth items ++ (layout.lineBreak outer ++ ']' :: rest)))
        = .ok (item :: items, rest) := by
  induction items with
  | nil =>
    intro item fuel hitem hfuel
    obtain ⟨fuel, rfl⟩ := Nat.exists_eq_add_one.mpr (Nat.zero_lt_of_lt hfuel)
    apply readItems_close (hitem depth fuel _ (by omega))
    rw [printItems, List.nil_append, skip_lineBreak, skip_cons (by decide)]
  | cons next items ih =>
    intro item fuel hitem hfuel
    obtain ⟨fuel, rfl⟩ := Nat.exists_eq_add_one.mpr (Nat.zero_lt_of_lt hfuel)
    obtain ⟨hlegible, hnext⟩ := hitems next List.mem_cons_self
    obtain ⟨tail, hcomma, hskip⟩ := exists_comma layout
    obtain ⟨c, more, hprint, hspace, -⟩ := exists_print hlegible layout depth
    have hlength : (printItems layout depth (next :: items)).length
        = layout.comma.length + (layout.lineBreak depth).length + (print layout depth next).length
          + (printItems layout depth items).length := by
      simp only [printItems, List.length_append]
    have hrest := ih (fun item h => hitems item (List.mem_cons_of_mem _ h)) fuel hnext
      (by simp only [hlength, hcomma, List.length_cons] at hfuel; omega)
    have hnextComma : printItems layout depth (next :: items) ++ (layout.lineBreak outer ++ ']' :: rest)
        = ',' :: (tail ++ (layout.lineBreak depth ++ (print layout depth next
          ++ (printItems layout depth items ++ (layout.lineBreak outer ++ ']' :: rest))))) := by
      simp only [printItems, hcomma, List.append_assoc, List.cons_append]
    rw [hnextComma, readItems_comma (hitem depth fuel _ (by omega)) (skip_cons (by decide) _), hskip,
      skip_lineBreak]
    rw [hprint, List.cons_append] at hrest ⊢
    rw [skip_cons hspace, hrest]
    rfl

/-- A value may stand right after the colon or after a space. -/
theorem skip_print {v : Json} (h : Legible room v) (layout : Layout) (depth : Nat) (rest : List Char) :
    skip (print layout depth v ++ rest) = print layout depth v ++ rest := by
  obtain ⟨c, more, hprint, hspace, -⟩ := exists_print h layout depth
  rw [hprint, List.cons_append, skip_cons hspace]

theorem head?_print {v : Json} (h : Legible room v) (layout : Layout) (depth : Nat) (rest : List Char) :
    (print layout depth v ++ rest).head? ≠ some ']' := by
  obtain ⟨c, more, hprint, -, hc⟩ := exists_print h layout depth
  rw [hprint]
  exact fun hhead => hc (Option.some.inj hhead)

/-- What is read behind the value of a field: the closing brace, or a comma and more fields. -/
def readOn (room fuel : Nat) (fields : List (String × Json)) (text : List Char) :
    Except Stop (List (String × Json) × List Char) :=
  match skip text with
  | '\x7d' :: rest => .ok (fields, rest)
  | ',' :: rest => readFields room fuel fields (skip rest)
  | rest => .error (.flaw .comma rest)

section Fields

variable {fuel : Nat} {text rest more after : List Char} {name : String} {value : Json}

theorem readOn_close (hclose : skip text = '\x7d' :: rest) (fuel : Nat)
    (fields : List (String × Json)) : readOn room fuel fields text = .ok (fields, rest) := by
  simp only [readOn, hclose]

theorem readOn_comma (hcomma : skip text = ',' :: rest) (fuel : Nat)
    (fields : List (String × Json)) :
    readOn room fuel fields text = readFields room fuel fields (skip rest) := by
  simp only [readOn, hcomma]

theorem readFields_of_value (hname : readQuoted ('\x22' :: text) = .ok (name, rest))
    (hcolon : skip rest = ':' :: more) (hvalue : readValue room fuel (skip more) = .ok (value, after))
    (fields : List (String × Json)) :
    readFields room (fuel + 1) fields ('\x22' :: text)
      = readOn room fuel (setField name value fields) after := by
  rw [readFields, hname]
  simp only [bind, Except.bind, hcolon, hvalue]
  rfl

theorem readFields_stop {stop : Stop} (hname : readQuoted ('\x22' :: text) = .ok (name, rest))
    (hcolon : skip rest = ':' :: more) (hvalue : readValue room fuel (skip more) = .error stop)
    (fields : List (String × Json)) :
    readFields room (fuel + 1) fields ('\x22' :: text) = .error stop := by
  rw [readFields, hname]
  simp only [bind, Except.bind, hcolon, hvalue]

theorem readFields_printString (hvalue : readValue room fuel (skip text) = .ok (value, after))
    (fields : List (String × Json)) (name : String) :
    readFields room (fuel + 1) fields (printString name.toList ++ ':' :: text)
      = readOn room fuel (setField name value fields) after :=
  readFields_of_value (readQuoted_printString name (':' :: text)) (skip_cons (by decide) _) hvalue fields

end Fields

/-- A field that is named once is new to the fields before it. -/
theorem name_not_mem {before after : List (String × Json)} {name : String} {value : Json}
    (h : ((before ++ (name, value) :: after).map Prod.fst).Nodup) : name ∉ before.map Prod.fst := by
  rw [List.map_append, List.nodup_append] at h
  exact fun hname => h.2.2 name hname name (by simp) rfl

/-- Fields are read up to the closing brace and come after those read before. -/
theorem readFields_print {layout : Layout} (depth outer : Nat) (rest : List Char)
    {fields : List (String × Json)}
    (hfields : ∀ field ∈ fields, Legible room field.2 ∧ ReadsBack room layout field.2) :
    ∀ {name : String} {value : Json} (acc : List (String × Json)) (fuel : Nat),
      Legible room value → ReadsBack room layout value →
      ((acc ++ (name, value) :: fields).map Prod.fst).Nodup →
      2 * (print layout depth value).length + 2 * (printFields layout depth fields).length < fuel →
      readFields room fuel acc (printString name.toList ++ ':' :: ' ' :: (print layout depth value
          ++ (printFields layout depth fields ++ (layout.lineBreak outer ++ '\x7d' :: rest))))
        = .ok (acc ++ (name, value) :: fields, rest) := by
  induction fields with
  | nil =>
    intro name value acc fuel hlegible hvalue hdistinct hfuel
    obtain ⟨fuel, rfl⟩ := Nat.exists_eq_add_one.mpr (Nat.zero_lt_of_lt hfuel)
    have hname := name_not_mem hdistinct
    have hread := hvalue depth fuel (printFields layout depth []
      ++ (layout.lineBreak outer ++ '\x7d' :: rest)) (by omega)
    rw [← skip_print hlegible, ← skip_space] at hread
    rw [readFields_printString hread, setField_of_not_mem hname]
    apply readOn_close
    rw [printFields, List.nil_append, skip_lineBreak, skip_cons (by decide)]
  | cons field fields ih =>
    intro name value acc fuel hlegible hvalue hdistinct hfuel
    obtain ⟨fuel, rfl⟩ := Nat.exists_eq_add_one.mpr (Nat.zero_lt_of_lt hfuel)
    obtain ⟨next, nextValue⟩ := field
    obtain ⟨hnextLegible, hnext⟩ : Legible room nextValue ∧ ReadsBack room layout nextValue :=
      hfields _ List.mem_cons_self
    obtain ⟨tail, hcomma, hskip⟩ := exists_comma layout
    have hname := name_not_mem hdistinct
    have hlength : (printFields layout depth ((next, nextValue) :: fields)).length
        = layout.comma.length + (layout.lineBreak depth).length + (printString next.toList).length
          + 2 + (print layout depth nextValue).length + (printFields layout depth fields).length := by
      simp only [printFields, List.length_append, List.length_cons]
      omega
    have hrest := ih (fun field h => hfields field (List.mem_cons_of_mem _ h))
      (acc ++ [(name, value)]) fuel hnextLegible hnext (by simpa using hdistinct)
      (by simp only [hlength, hcomma, List.length_cons] at hfuel; omega)
    have hread := hvalue depth fuel (printFields layout depth ((next, nextValue) :: fields)
      ++ (layout.lineBreak outer ++ '\x7d' :: rest)) (by omega)
    rw [← skip_print hlegible, ← skip_space] at hread
    have hnextComma : printFields layout depth ((next, nextValue) :: fields)
          ++ (layout.lineBreak outer ++ '\x7d' :: rest)
        = ',' :: (tail ++ (layout.lineBreak depth ++ (printString next.toList ++ ':' :: ' ' ::
          (print layout depth nextValue ++ (printFields layout depth fields
            ++ (layout.lineBreak outer ++ '\x7d' :: rest)))))) := by
      simp only [printFields, hcomma, List.append_assoc, List.cons_append]
    rw [hnextComma] at hread ⊢
    rw [readFields_printString hread, setField_of_not_mem hname,
      readOn_comma (skip_cons (by decide) _), hskip, skip_lineBreak, skip_printString, hrest,
      List.append_assoc, List.singleton_append]

theorem length_print_pos {v : Json} (h : Legible room v) (layout : Layout) (depth : Nat) :
    0 < (print layout depth v).length := by
  obtain ⟨c, rest, hprint, -⟩ := exists_print h layout depth
  rw [hprint]
  exact Nat.zero_lt_succ _

theorem readsBack_of_word {v : Json} (h : Legible room v) {layout : Layout} {word : List Char}
    (hprint : ∀ depth, print layout depth v = word)
    (hread : ∀ fuel rest, readValue room (fuel + 1) (word ++ rest) = .ok (v, rest)) :
    ReadsBack room layout v := by
  intro depth fuel rest hfuel
  have := length_print_pos h layout depth
  obtain ⟨fuel, rfl⟩ := Nat.exists_eq_add_one.mpr (show 0 < fuel by omega)
  rw [hprint, hread]

theorem readValue_array {text : List Char} (hopen : (skip text).head? ≠ some ']') (fuel : Nat) :
    readValue (room + 1) (fuel + 1) ('[' :: text)
      = (readItems room fuel (skip text)).map fun (items, rest) => (.array items, rest) := by
  rw [readValue]
  split
  · rename_i hskip
    rw [hskip] at hopen
    exact absurd rfl hopen
  · rfl

theorem readValue_object {text : List Char} (hopen : (skip text).head? ≠ some '\x7d') (fuel : Nat) :
    readValue (room + 1) (fuel + 1) ('\x7b' :: text)
      = (readFields room fuel [] (skip text)).map fun (fields, rest) => (.object fields, rest) := by
  rw [readValue]
  split
  · rename_i hskip
    rw [hskip] at hopen
    exact absurd rfl hopen
  · rfl

/-- An array is read back once its items are. -/
theorem readsBack_array {layout : Layout} {item : Json} {items : List Json}
    (hitem : Legible room item ∧ ReadsBack room layout item)
    (hitems : ∀ next ∈ items, Legible room next ∧ ReadsBack room layout next) :
    ReadsBack (room + 1) layout (.array (item :: items)) := by
  intro depth fuel rest hfuel
  have htext : print layout depth (.array (item :: items)) ++ rest
      = '[' :: (layout.lineBreak (depth + 1) ++ (print layout (depth + 1) item
        ++ (printItems layout (depth + 1) items ++ (layout.lineBreak depth ++ ']' :: rest)))) := by
    simp [print]
  have hlength : 2 * (print layout (depth + 1) item).length
      + 2 * (printItems layout (depth + 1) items).length + 1 < fuel := by
    simp [print] at hfuel
    omega
  obtain ⟨fuel, rfl⟩ := Nat.exists_eq_add_one.mpr (Nat.zero_lt_of_lt hlength)
  have hread := readItems_print (depth + 1) depth rest hitems fuel hitem.2
    (Nat.lt_of_succ_lt_succ hlength)
  have hskip := (skip_lineBreak layout (depth + 1) _).trans (skip_print hitem.1 layout (depth + 1)
    (printItems layout (depth + 1) items ++ (layout.lineBreak depth ++ ']' :: rest)))
  rw [htext, readValue_array (by rw [hskip]; exact head?_print hitem.1 _ _ _), hskip, hread]
  rfl

/-- An object is read back once the values of its fields are. -/
theorem readsBack_object {layout : Layout} {name : String} {value : Json}
    {fields : List (String × Json)} (hvalue : Legible room value ∧ ReadsBack room layout value)
    (hfields : ∀ field ∈ fields, Legible room field.2 ∧ ReadsBack room layout field.2)
    (hdistinct : (((name, value) :: fields).map Prod.fst).Nodup) :
    ReadsBack (room + 1) layout (.object ((name, value) :: fields)) := by
  intro depth fuel rest hfuel
  have htext : print layout depth (.object ((name, value) :: fields)) ++ rest
      = '\x7b' :: (layout.lineBreak (depth + 1) ++ (printString name.toList ++ ':' :: ' ' ::
        (print layout (depth + 1) value ++ (printFields layout (depth + 1) fields
          ++ (layout.lineBreak depth ++ '\x7d' :: rest))))) := by
    simp [print]
  have hlength : 2 * (print layout (depth + 1) value).length
      + 2 * (printFields layout (depth + 1) fields).length + 1 < fuel := by
    simp [print] at hfuel
    omega
  obtain ⟨fuel, rfl⟩ := Nat.exists_eq_add_one.mpr (Nat.zero_lt_of_lt hlength)
  have hread := readFields_print (depth + 1) depth rest hfields [] fuel hvalue.1 hvalue.2 hdistinct
    (Nat.lt_of_succ_lt_succ hlength)
  have hskip := (skip_lineBreak layout (depth + 1) _).trans (skip_printString name.toList
    (':' :: ' ' :: (print layout (depth + 1) value ++ (printFields layout (depth + 1) fields
      ++ (layout.lineBreak depth ++ '\x7d' :: rest)))))
  rw [htext, readValue_object (by rw [hskip]; nofun), hskip, hread]
  rfl

/-- Reading a printed value gives it back. -/
theorem Legible.readsBack {v : Json} (h : Legible room v) (layout : Layout) : ReadsBack room layout v := by
  induction h with
  | null =>
    exact readsBack_of_word .null (fun _ => by rw [print]) fun fuel rest => by
      simp [readValue, readWord, words, Text.after?]
  | bool value =>
    cases value with
    | true =>
      exact readsBack_of_word (.bool true) (fun _ => by rw [print]) fun fuel rest => by
        simp [readValue, readWord, words, Text.after?]
    | false =>
      exact readsBack_of_word (.bool false) (fun _ => by rw [print]) fun fuel rest => by
        simp [readValue, readWord, words, Text.after?]
  | string text =>
    refine readsBack_of_word (.string text) (fun _ => by rw [print]) fun fuel rest => ?_
    have hquote : printString text.toList ++ rest
        = '\x22' :: ((text.toList.flatMap escapedChar ++ ['\x22']) ++ rest) := rfl
    rw [hquote, readValue, ← hquote, readQuoted_printString]
    rfl
  | @array room items each ih =>
    cases items with
    | nil =>
      exact readsBack_of_word (.array each) (fun _ => by rw [print]) fun fuel rest => by
        simp [readValue, skip_cons (c := ']') rfl]
    | cons item items =>
      obtain ⟨hitem, hitems⟩ := List.forall_mem_cons.mp fun next hnext =>
        (⟨each next hnext, ih next hnext⟩ : Legible room next ∧ ReadsBack room layout next)
      exact readsBack_array hitem hitems
  | @object room fields distinct each ih =>
    cases fields with
    | nil =>
      exact readsBack_of_word (.object distinct each) (fun _ => by rw [print]) fun fuel rest => by
        simp [readValue, skip_cons (c := '\x7d') rfl]
    | cons field fields =>
      obtain ⟨hvalue, hfields⟩ := List.forall_mem_cons.mp fun next hnext =>
        (⟨each next hnext, ih next hnext⟩ : Legible room next.2 ∧ ReadsBack room layout next.2)
      exact readsBack_object hvalue hfields distinct

/-- Reading a printed document gives its value back; a line feed may end it. -/
theorem readWithin_print {v : Json} (h : Legible room v) (layout : Layout) {tail : List Char}
    (htail : skip tail = []) : readWithin room (print layout 0 v ++ tail) = .ok v := by
  rw [readWithin, skip_print h, h.readsBack layout 0 _ _ (by rw [List.length_append]; omega)]
  simp only [bind, Except.bind, htail]

end ContextConfig.Json
