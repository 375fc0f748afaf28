import ContextConfig.Proofs.Json.Steps
import ContextConfig.Proofs.Json.StringLocality
import ContextConfig.Proofs.Json.Numbers
import Mathlib.Data.List.Basic
/-!
# What readers take

A reader that succeeds takes an initial part of its text, and what it makes of that part does not
depend on what follows, as long as a number ends there.
-/

namespace ContextConfig.Json

variable {room : Nat}

theorem skip_spaces {spaces : List Char} (h : ∀ c ∈ spaces, isSpace c = true) (rest : List Char) :
    skip (spaces ++ rest) = skip rest := List.dropWhile_append_of_pos h

theorem skip_of_head {text : List Char} (h : ∀ c ∈ text.head?, isSpace c = false) :
    skip text = text := by
  match text with
  | [] => rfl
  | c :: rest => exact skip_cons (h c rfl) rest

theorem skip_suffix (text : List Char) : skip text <:+ text := List.dropWhile_suffix _

theorem suffix_of_skip {text rest : List Char} {c : Char} (h : skip text = c :: rest) : rest <:+ text :=
  (List.suffix_cons c rest).trans (h ▸ skip_suffix text)

/-- White space in front of what is read goes with it, whatever comes after. -/
theorem exists_skip {text taken rest : List Char} (h : skip text = taken ++ rest) :
    ∃ whole, text = whole ++ rest ∧ taken.length ≤ whole.length ∧ skip whole = taken ∧
      (taken ≠ [] → ∀ rest', skip (whole ++ rest') = taken ++ rest') := by
  have hspaces : ∀ c ∈ text.takeWhile isSpace, isSpace c = true := fun _ hc => List.mem_takeWhile_imp hc
  have hhead : ∀ c ∈ (taken ++ rest).head?, isSpace c = false := by
    rw [← h]
    exact Text.head?_dropWhile text
  refine ⟨text.takeWhile isSpace ++ taken, ?_, ?_, ?_, fun hne rest' => ?_⟩
  · rw [List.append_assoc, ← h]
    exact (List.takeWhile_append_dropWhile ..).symm
  · rw [List.length_append]
    exact Nat.le_add_left ..
  · rw [skip_spaces hspaces]
    refine skip_of_head fun c hc => hhead c ?_
    rw [List.head?_append, hc]
    rfl
  · rw [List.append_assoc, skip_spaces hspaces]
    rw [List.head?_append_of_ne_nil _ hne] at hhead
    exact skip_of_head (by rwa [List.head?_append_of_ne_nil _ hne])

/-- A number ends in front of a delimiter, with or without white space between them. -/
theorem endsNumber_of_skip {text rest : List Char} {c : Char} (h : skip text = c :: rest)
    (hc : c = ',' ∨ c = ']' ∨ c = '\x7d') : EndsNumber text := by
  intro d hd
  obtain ⟨text, rfl⟩ := List.head?_eq_some_iff.mp hd
  by_cases hspace : isSpace d = true
  · simp only [isSpace, Bool.or_eq_true, decide_eq_true_eq] at hspace
    obtain ((rfl | rfl) | rfl) | rfl := hspace <;> decide
  · rw [skip_cons (Bool.eq_false_iff.mpr hspace)] at h
    cases h
    obtain rfl | rfl | rfl := hc <;> decide

theorem exists_skip_cons {text rest : List Char} {c : Char} (h : skip text = c :: rest) :
    ∃ front, text = front ++ rest ∧ front ≠ [] ∧ ∀ rest', skip (front ++ rest') = c :: rest' := by
  have hcons : skip text = [c] ++ rest := h
  obtain ⟨front, rfl, hlength, -, hskip⟩ := exists_skip hcons
  exact ⟨front, rfl, List.length_pos_iff.mp hlength, hskip (List.cons_ne_nil c [])⟩

/-- Behind an opening bracket the same is read whatever follows, and it is not closed at once. -/
theorem exists_opened {text taken rest : List Char} {close : Char} (h : skip text = taken ++ rest)
    (hne : taken ≠ []) (hopen : (skip text).head? ≠ some close) :
    ∃ whole, text = whole ++ rest ∧ taken.length ≤ whole.length ∧ ∀ rest',
      skip (whole ++ rest') = taken ++ rest' ∧ (skip (whole ++ rest')).head? ≠ some close := by
  obtain ⟨whole, htext, hlength, -, hskip⟩ := exists_skip h
  refine ⟨whole, htext, hlength, fun rest' => ⟨hskip hne rest', ?_⟩⟩
  rw [h, List.head?_append_of_ne_nil _ hne] at hopen
  rwa [hskip hne, List.head?_append_of_ne_nil _ hne]

theorem readWord_local {text rest : List Char} {value : Json}
    (h : readWord text = some (value, rest)) :
    ∃ taken, taken ≠ [] ∧ text = taken ++ rest ∧
      ∀ rest', IsPlain (taken ++ rest') ∧ readWord (taken ++ rest') = some (value, rest') := by
  obtain ⟨⟨word, value'⟩, hmem, hafter⟩ := List.exists_of_findSome?_eq_some h
  obtain ⟨rest, hrest, hparts⟩ := Option.map_eq_some_iff.mp hafter
  cases hparts
  obtain rfl := Text.after?_eq_some_iff.mp hrest
  have hall : ∀ entry ∈ words, entry.1 ≠ [] ∧ ∀ rest', IsPlain (entry.1 ++ rest') ∧
      readWord (entry.1 ++ rest') = some (entry.2, rest') := by
    intro entry hentry
    simp only [words, List.mem_cons, List.not_mem_nil, or_false] at hentry
    obtain rfl | rfl | rfl | rfl | rfl | rfl := hentry
    all_goals
      refine ⟨by decide, fun rest' => ⟨fun c hc => ?_, rfl⟩⟩
      cases hc
      decide
  obtain ⟨hne, hread⟩ := hall _ hmem
  exact ⟨word, hne, rfl, hread⟩

/-- A number starts neither a word nor anything else. -/
theorem StartsNumber.plain {text : List Char} (h : StartsNumber text) :
    IsPlain text ∧ readWord text = none := by
  obtain ⟨sign, digits, hsign, ⟨c, hc, hdigit⟩, rfl⟩ := h
  obtain ⟨digits, rfl⟩ := List.head?_eq_some_iff.mp hc
  have hnot : ∀ d : Char, d.isDigit = false → c ≠ d := by
    rintro d hd rfl
    rw [hd] at hdigit
    cases hdigit
  obtain rfl | rfl := hsign
  · refine ⟨fun d hd => ?_, ?_⟩
    · cases hd
      exact ⟨hnot _ rfl, hnot _ rfl, hnot _ rfl⟩
    · simp [readWord, words, Text.after?, Ne.symm (hnot 'n' rfl), Ne.symm (hnot 't' rfl),
        Ne.symm (hnot 'f' rfl), Ne.symm (hnot 'N' rfl), Ne.symm (hnot 'I' rfl), Ne.symm (hnot '-' rfl)]
  · refine ⟨fun d hd => ?_, ?_⟩
    · cases hd
      decide
    · simp [readWord, words, Text.after?, Ne.symm (hnot 'I' rfl)]

/-- A value that is read does not depend on what follows it, as long as numbers end there. -/
def LocalValue (room fuel : Nat) : Prop :=
  ∀ {text rest : List Char} {value : Json}, readValue room fuel text = .ok (value, rest) →
    ∃ taken, taken ≠ [] ∧ text = taken ++ rest ∧ ∀ rest' fuel', EndsNumber rest' →
      2 * taken.length ≤ fuel' → readValue room fuel' (taken ++ rest') = .ok (value, rest')

def LocalItems (room fuel : Nat) : Prop :=
  ∀ {text rest : List Char} {items : List Json}, readItems room fuel text = .ok (items, rest) →
    ∃ taken, taken ≠ [] ∧ text = taken ++ rest ∧ ∀ rest' fuel',
      2 * taken.length ≤ fuel' → readItems room fuel' (taken ++ rest') = .ok (items, rest')

def LocalFields (room fuel : Nat) : Prop :=
  ∀ {text rest : List Char} {old fields : List (String × Json)},
    readFields room fuel old text = .ok (fields, rest) →
    ∃ taken, taken ≠ [] ∧ text = taken ++ rest ∧ ∀ rest' fuel',
      2 * taken.length ≤ fuel' → readFields room fuel' old (taken ++ rest') = .ok (fields, rest')

theorem localItems_succ {fuel : Nat} (hvalue : LocalValue room fuel) (hitems : LocalItems room fuel) :
    LocalItems room (fuel + 1) := by
  intro text rest items h
  have hstep := itemsStep room fuel text
  rw [h] at hstep
  cases hstep with
  | @last item after _ hitem hclose =>
    obtain ⟨taken, hne, rfl, hlocal⟩ := hvalue hitem
    obtain ⟨front, rfl, hfront, hskip⟩ := exists_skip_cons hclose
    refine ⟨taken ++ front, by simp [hne], by simp, fun rest' fuel' hfuel => ?_⟩
    have hpos := List.length_pos_iff.mpr hfront
    rw [List.length_append] at hfuel
    obtain ⟨fuel', rfl⟩ := Nat.exists_eq_add_one.mpr (show 0 < fuel' by omega)
    have hread := hlocal (front ++ rest') fuel' (endsNumber_of_skip (hskip _) (by simp)) (by omega)
    rw [List.append_assoc]
    exact readItems_close hread (hskip rest')
  | @next item items' after more _ hitem hcomma hmore =>
    obtain ⟨taken, hne, rfl, hlocal⟩ := hvalue hitem
    obtain ⟨front, rfl, hfront, hskip⟩ := exists_skip_cons hcomma
    obtain ⟨taken', hne', htaken', hlocal'⟩ := hitems hmore
    obtain ⟨whole, rfl, hlength, -, hskip'⟩ := exists_skip htaken'
    refine ⟨taken ++ (front ++ whole), by simp [hne], by simp, fun rest' fuel' hfuel => ?_⟩
    have hpos := List.length_pos_iff.mpr hfront
    simp only [List.length_append] at hfuel
    obtain ⟨fuel', rfl⟩ := Nat.exists_eq_add_one.mpr (show 0 < fuel' by omega)
    have hread := hlocal (front ++ (whole ++ rest')) fuel'
      (endsNumber_of_skip (hskip _) (by simp)) (by omega)
    rw [List.append_assoc, List.append_assoc, readItems_comma hread (hskip _), hskip' hne',
      hlocal' rest' fuel' (by omega)]
    rfl

/-- A field does not depend on what follows its value. -/
theorem readFields_local {text rest more after : List Char} {name : String} {value : Json} {fuel : Nat}
    (hname : readQuoted ('\x22' :: text) = .ok (name, rest)) (hcolon : skip rest = ':' :: more)
    (hvalue : LocalValue room fuel) (hread : readValue room fuel (skip more) = .ok (value, after)) :
    ∃ taken, taken ≠ [] ∧ '\x22' :: text = taken ++ after ∧ ∀ after' fuel' fields,
      EndsNumber after' → 2 * taken.length ≤ fuel' + 1 →
      readFields room (fuel' + 1) fields (taken ++ after')
        = readOn room fuel' (setField name value fields) after' := by
  obtain ⟨quoted, rfl, hquoted⟩ := readQuoted_local hname
  obtain ⟨front, rfl, hfront, hskip⟩ := exists_skip_cons hcolon
  obtain ⟨taken, hne, htaken, hlocal⟩ := hvalue hread
  obtain ⟨whole, rfl, hlength, -, hskip'⟩ := exists_skip htaken
  refine ⟨'\x22' :: (quoted ++ (front ++ whole)), by simp, by simp, ?_⟩
  intro after' fuel' fields hafter' hfuel
  simp only [List.length_append, List.length_cons] at hfuel
  have htext : '\x22' :: (quoted ++ (front ++ whole)) ++ after'
      = '\x22' :: (quoted ++ (front ++ (whole ++ after'))) := by simp
  have hvalue' : readValue room fuel' (skip (whole ++ after')) = .ok (value, after') := by
    rw [hskip' hne, hlocal after' fuel' hafter' (by omega)]
  rw [htext, readFields_of_value (hquoted _) (hskip _) hvalue']

theorem localFields_succ {fuel : Nat} (hvalue : LocalValue room fuel) (hfields : LocalFields room fuel) :
    LocalFields room (fuel + 1) := by
  intro text rest old fields h
  have hstep := fieldsStep room fuel old text
  rw [h] at hstep
  cases hstep with
  | @last text after more _ _ name value hname hcolon hread hclose =>
    obtain ⟨taken, hne, htext, hlocal⟩ := readFields_local hname hcolon hvalue hread
    obtain ⟨front, rfl, hfront, hskip⟩ := exists_skip_cons hclose
    refine ⟨taken ++ front, by simp [hne], by simp [htext], fun rest' fuel' hfuel => ?_⟩
    have hpos := List.length_pos_iff.mpr hne
    rw [List.length_append] at hfuel
    obtain ⟨fuel', rfl⟩ := Nat.exists_eq_add_one.mpr (show 0 < fuel' by omega)
    rw [List.append_assoc, hlocal _ _ _ (endsNumber_of_skip (hskip _) (by simp)) (by omega),
      readOn_close (hskip _)]
  | @next text after more _ _ name value _ hname hcolon hread hcomma hmore =>
    obtain ⟨taken, hne, htext, hlocal⟩ := readFields_local hname hcolon hvalue hread
    obtain ⟨front, rfl, hfront, hskip⟩ := exists_skip_cons hcomma
    obtain ⟨taken', hne', htaken', hlocal'⟩ := hfields hmore
    obtain ⟨whole, rfl, hlength, -, hskip'⟩ := exists_skip htaken'
    refine ⟨taken ++ (front ++ whole), by simp [hne], by simp [htext], fun rest' fuel' hfuel => ?_⟩
    have hpos := List.length_pos_iff.mpr hne
    simp only [List.length_append] at hfuel
    obtain ⟨fuel', rfl⟩ := Nat.exists_eq_add_one.mpr (show 0 < fuel' by omega)
    rw [List.append_assoc, List.append_assoc,
      hlocal _ _ _ (endsNumber_of_skip (hskip _) (by simp)) (by omega), readOn_comma (hskip _),
      hskip' hne', hlocal' rest' fuel' (by omega)]

theorem localValue_succ {fuel : Nat} (hitems : ∀ room, LocalItems room fuel)
    (hfields : ∀ room, LocalFields room fuel) : LocalValue room (fuel + 1) := by
  intro text rest value h
  have hstep := valueStep fuel room text
  rw [h] at hstep
  generalize hresult : Except.ok (value, rest) = result at hstep
  -- Every value takes a character, and with it a step of fuel.
  have hfuel_pos : ∀ {taken : List Char} {fuel' : Nat}, taken ≠ [] → 2 * taken.length ≤ fuel' →
      ∃ n, fuel' = n + 1 := by
    intro taken fuel' hne hfuel
    have hpos := List.length_pos_iff.mpr hne
    exact Nat.exists_eq_add_one.mpr (by omega)
  cases hstep with
  | @string _ text _ content hread =>
    cases hresult
    obtain ⟨taken, rfl, hlocal⟩ := readQuoted_local hread
    refine ⟨'\x22' :: taken, by simp, rfl, fun rest' fuel' _ hfuel => ?_⟩
    obtain ⟨fuel', rfl⟩ := hfuel_pos (List.cons_ne_nil _ _) hfuel
    exact (ValueStep.string (hlocal rest')).readValue
  | @emptyObject _ text _ hclose =>
    cases hresult
    obtain ⟨front, rfl, -, hskip⟩ := exists_skip_cons hclose
    refine ⟨'\x7b' :: front, by simp, rfl, fun rest' fuel' _ hfuel => ?_⟩
    obtain ⟨fuel', rfl⟩ := hfuel_pos (List.cons_ne_nil _ _) hfuel
    exact (ValueStep.emptyObject (hskip rest')).readValue
  | @emptyArray _ text _ hclose =>
    cases hresult
    obtain ⟨front, rfl, -, hskip⟩ := exists_skip_cons hclose
    refine ⟨'[' :: front, by simp, rfl, fun rest' fuel' _ hfuel => ?_⟩
    obtain ⟨fuel', rfl⟩ := hfuel_pos (List.cons_ne_nil _ _) hfuel
    exact (ValueStep.emptyArray (hskip rest')).readValue
  | @object room text _ fields hopen hread =>
    cases hresult
    obtain ⟨taken, hne, htaken, hlocal⟩ := hfields room hread
    obtain ⟨whole, rfl, hlength, hopened⟩ := exists_opened htaken hne hopen
    refine ⟨'\x7b' :: whole, by simp, rfl, fun rest' fuel' _ hfuel => ?_⟩
    obtain ⟨fuel', rfl⟩ := hfuel_pos (List.cons_ne_nil _ _) hfuel
    rw [List.length_cons] at hfuel
    obtain ⟨hskip, hopen'⟩ := hopened rest'
    have hread' : readFields room fuel' [] (skip (whole ++ rest')) = .ok (fields, rest') := by
      rw [hskip, hlocal rest' fuel' (by omega)]
    exact (ValueStep.object hopen' hread').readValue
  | @array room text _ items hopen hread =>
    cases hresult
    obtain ⟨taken, hne, htaken, hlocal⟩ := hitems room hread
    obtain ⟨whole, rfl, hlength, hopened⟩ := exists_opened htaken hne hopen
    refine ⟨'[' :: whole, by simp, rfl, fun rest' fuel' _ hfuel => ?_⟩
    obtain ⟨fuel', rfl⟩ := hfuel_pos (List.cons_ne_nil _ _) hfuel
    rw [List.length_cons] at hfuel
    obtain ⟨hskip, hopen'⟩ := hopened rest'
    have hread' : readItems room fuel' (skip (whole ++ rest')) = .ok (items, rest') := by
      rw [hskip, hlocal rest' fuel' (by omega)]
    exact (ValueStep.array hopen' hread').readValue
  | word hplain hword =>
    cases hresult
    obtain ⟨taken, hne, rfl, hlocal⟩ := readWord_local hword
    refine ⟨taken, hne, rfl, fun rest' fuel' _ hfuel => ?_⟩
    obtain ⟨fuel', rfl⟩ := hfuel_pos hne hfuel
    exact (ValueStep.word (hlocal rest').1 (hlocal rest').2).readValue
  | number hplain hword =>
    obtain ⟨taken, rfl, hstarts, hlocal⟩ := readNumber_local hresult.symm
    have hne : taken ≠ [] := by
      have hempty := (hstarts []).ne_nil
      rwa [List.append_nil] at hempty
    refine ⟨taken, hne, rfl, fun rest' fuel' hrest' hfuel => ?_⟩
    obtain ⟨fuel', rfl⟩ := hfuel_pos hne hfuel
    obtain ⟨hplain, hword⟩ := (hstarts rest').plain
    rw [(ValueStep.number hplain hword).readValue, hlocal rest' hrest']
  | _ => cases hresult

/-- A value is read the same whatever follows the part of the text that it was read from. -/
theorem locality (room fuel : Nat) :
    LocalValue room fuel ∧ LocalItems room fuel ∧ LocalFields room fuel := by
  induction fuel generalizing room with
  | zero => exact ⟨nofun, nofun, nofun⟩
  | succ fuel ih =>
    obtain ⟨hvalue, hitems, hfields⟩ := ih room
    exact ⟨localValue_succ (fun room => (ih room).2.1) fun room => (ih room).2.2,
      localItems_succ hvalue hitems, localFields_succ hvalue hfields⟩

theorem readWithin_error {text : List Char} {stop : Stop}
    (hstop : ∀ rest, stop ≠ .flaw .extraData rest) :
    readWithin room text = .error stop ↔
      readValue room (2 * text.length + 1) (skip text) = .error stop := by
  rw [readWithin]
  cases readValue room (2 * text.length + 1) (skip text) with
  | error stop' => simp only [bind, Except.bind, Except.error.injEq]
  | ok step =>
    simp only [bind, Except.bind, reduceCtorEq, iff_false]
    split
    · intro h
      cases h
    · intro h
      exact hstop _ (Except.error.inj h).symm

end ContextConfig.Json
