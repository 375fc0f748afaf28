import ContextConfig.Proofs.Json.Reading
import ContextConfig.Proofs.Room
/-!
# Brackets inside one another

With more room for open brackets a text is read as with less, unless it was nested too deeply for
that. A text is only nested too deeply if it opens more brackets than there is room for, and it is if
it opens them right at its start.
-/

namespace ContextConfig.Json

/-- With more room the three readers come to the same. -/
structure Roomier (fuel : Nat) : Prop where
  value (room more : Nat) (text : List Char) :
    Extends .tooNested (readValue room fuel text) (readValue (room + more) fuel text)
  items (room more : Nat) (text : List Char) :
    Extends .tooNested (readItems room fuel text) (readItems (room + more) fuel text)
  fields (room more : Nat) (fields : List (String × Json)) (text : List Char) :
    Extends .tooNested (readFields room fuel fields text) (readFields (room + more) fuel fields text)

namespace Roomier

variable {fuel : Nat}

theorem value_succ (h : Roomier fuel) (room more : Nat) (text : List Char) :
    Extends .tooNested (readValue room (fuel + 1) text) (readValue (room + more) (fuel + 1) text) := by
  have hstep := valueStep fuel room text
  generalize readValue room (fuel + 1) text = result at hstep ⊢
  cases hstep with
  | string h => exact fun _ => (ValueStep.string h).readValue
  | badString h => exact fun _ => (ValueStep.badString h).readValue
  | deepObject => exact extends_full
  | deepArray => exact extends_full
  | @emptyObject room _ _ h =>
    rw [Nat.add_right_comm]
    exact fun _ => (ValueStep.emptyObject h).readValue
  | @object room _ _ _ hopen hfields =>
    rw [Nat.add_right_comm]
    have hsame := h.fields room more [] _ (by rw [hfields]; nofun)
    exact fun _ => (ValueStep.object hopen (hsame.trans hfields)).readValue
  | @badObject room _ stop hopen hfields =>
    rw [Nat.add_right_comm]
    intro hne
    have hstop : stop ≠ .tooNested := fun heq => hne (by rw [heq])
    have hsame := h.fields room more [] _ (by rw [hfields]; exact fun heq => hstop (Except.error.inj heq))
    exact (ValueStep.badObject hopen (hsame.trans hfields)).readValue
  | @emptyArray room _ _ h =>
    rw [Nat.add_right_comm]
    exact fun _ => (ValueStep.emptyArray h).readValue
  | @array room _ _ _ hopen hitems =>
    rw [Nat.add_right_comm]
    have hsame := h.items room more _ (by rw [hitems]; nofun)
    exact fun _ => (ValueStep.array hopen (hsame.trans hitems)).readValue
  | @badArray room _ stop hopen hitems =>
    rw [Nat.add_right_comm]
    intro hne
    have hstop : stop ≠ .tooNested := fun heq => hne (by rw [heq])
    have hsame := h.items room more _ (by rw [hitems]; exact fun heq => hstop (Except.error.inj heq))
    exact (ValueStep.badArray hopen (hsame.trans hitems)).readValue
  | word hplain h => exact fun _ => (ValueStep.word hplain h).readValue
  | number hplain hword => exact fun _ => (ValueStep.number hplain hword).readValue

theorem items_succ (h : Roomier fuel) (room more : Nat) (text : List Char) :
    Extends .tooNested (readItems room (fuel + 1) text) (readItems (room + more) (fuel + 1) text) := by
  rw [readItems, readItems]
  refine (h.value room more text).bind fun step => ?_
  obtain ⟨item, rest⟩ := step
  dsimp only
  split
  · exact extends_refl _
  · exact (h.items room more _).bind fun _ => extends_refl _
  · exact extends_refl _

theorem fields_succ (h : Roomier fuel) (room more : Nat) (fields : List (String × Json))
    (text : List Char) : Extends .tooNested (readFields room (fuel + 1) fields text)
      (readFields (room + more) (fuel + 1) fields text) := by
  by_cases hquote : text.head? = some '\x22'
  case neg =>
    rw [readFields_of_head hquote, readFields_of_head hquote]
    exact extends_refl _
  obtain ⟨text, rfl⟩ := List.head?_eq_some_iff.mp hquote
  rw [readFields, readFields]
  refine (extends_refl _).bind fun step => ?_
  obtain ⟨name, rest⟩ := step
  dsimp only
  split
  · refine (h.value room more _).bind fun step => ?_
    obtain ⟨value, rest⟩ := step
    dsimp only
    split
    · exact extends_refl _
    · exact h.fields room more _ _
    · exact extends_refl _
  · exact extends_refl _

end Roomier

theorem roomier (fuel : Nat) : Roomier fuel := by
  induction fuel with
  | zero => exact ⟨fun _ _ _ => extends_refl _, fun _ _ _ => extends_refl _, fun _ _ _ _ => extends_refl _⟩
  | succ fuel ih => exact ⟨ih.value_succ, ih.items_succ, ih.fields_succ⟩

/-- A text that is not nested too deeply is read the same with more room. -/
theorem readWithin_more {room : Nat} {text : List Char} (h : readWithin room text ≠ .error .tooNested)
    (more : Nat) : readWithin (room + more) text = readWithin room text := by
  have hread : Extends .tooNested (readWithin room text) (readWithin (room + more) text) :=
    ((roomier _).value room more (skip text)).bind fun _ => extends_refl _
  exact hread h

/-- A text that is nested too deeply is so with as little room as is safe. -/
theorem tooNested_safe {text : List Char} (h : readText text = .error .tooNested) :
    readWithin safeCalls text = .error .tooNested := by
  by_cases hsafe : readWithin safeCalls text = .error .tooNested
  · exact hsafe
  · rw [readText, maxCalls_eq, readWithin_more hsafe] at h
    exact h

/-- How many brackets a text opens, those within strings included. -/
def brackets (text : List Char) : Nat := text.countP fun c => c = '[' || c = '\x7b'

theorem brackets_cons {c : Char} (h : c = '[' ∨ c = '\x7b') (text : List Char) :
    brackets (c :: text) = brackets text + 1 := by
  rw [brackets, List.countP_cons_of_pos (by simpa using h), brackets]

theorem brackets_le {text rest : List Char} (h : rest <:+ text) : brackets rest ≤ brackets text :=
  h.sublist.countP_le

theorem readNumber_ne_tooNested (text : List Char) : readNumber text ≠ .error .tooNested := by
  intro h
  obtain ⟨sign, unsigned, hsign, rfl⟩ := exists_sign text
  rw [hsign.readNumber, readUnsigned] at h
  split at h
  · cases h
  · split at h <;> cases h

/-- The three readers need no more room than there are brackets. -/
structure Bracketed (fuel : Nat) : Prop where
  value {room : Nat} {text : List Char} (h : readValue room fuel text = .error .tooNested) :
    room < brackets text
  items {room : Nat} {text : List Char} (h : readItems room fuel text = .error .tooNested) :
    room < brackets text
  fields {room : Nat} {fields : List (String × Json)} {text : List Char}
    (h : readFields room fuel fields text = .error .tooNested) : room < brackets text

namespace Bracketed

variable {fuel room : Nat} {text : List Char}

theorem value_succ (ih : Bracketed fuel) (h : readValue room (fuel + 1) text = .error .tooNested) :
    room < brackets text := by
  have hstep := valueStep fuel room text
  rw [h] at hstep
  generalize hresult : Except.error Stop.tooNested = result at hstep
  cases hstep with
  | badString hbad =>
    cases hresult
    obtain ⟨_, _, hflaw, -⟩ := readQuoted_error hbad
    cases hflaw
  | deepObject =>
    rw [brackets_cons (.inr rfl)]
    exact Nat.succ_pos _
  | deepArray =>
    rw [brackets_cons (.inl rfl)]
    exact Nat.succ_pos _
  | badObject hopen hbad =>
    cases hresult
    rw [brackets_cons (.inr rfl)]
    exact Nat.succ_lt_succ (Nat.lt_of_lt_of_le (ih.fields hbad) (brackets_le (skip_suffix _)))
  | badArray hopen hbad =>
    cases hresult
    rw [brackets_cons (.inl rfl)]
    exact Nat.succ_lt_succ (Nat.lt_of_lt_of_le (ih.items hbad) (brackets_le (skip_suffix _)))
  | number hplain hword => exact absurd hresult.symm (readNumber_ne_tooNested _)
  | _ => cases hresult

theorem items_succ (ih : Bracketed fuel) (h : readItems room (fuel + 1) text = .error .tooNested) :
    room < brackets text := by
  have hstep := itemsStep room fuel text
  rw [h] at hstep
  cases hstep with
  | badItem hbad => exact ih.value hbad
  | badNext hitem hcomma hbad =>
    obtain ⟨taken, -, rfl, -⟩ := (locality room fuel).1 hitem
    have hrest := (skip_suffix _).trans ((suffix_of_skip hcomma).trans (List.suffix_append taken _))
    exact Nat.lt_of_lt_of_le (ih.items hbad) (brackets_le hrest)

theorem fields_succ (ih : Bracketed fuel) {fields : List (String × Json)}
    (h : readFields room (fuel + 1) fields text = .error .tooNested) : room < brackets text := by
  have hstep := fieldsStep room fuel fields text
  rw [h] at hstep
  generalize hresult : Except.error Stop.tooNested = result at hstep
  cases hstep with
  | badName hbad =>
    cases hresult
    obtain ⟨_, _, hflaw, -⟩ := readQuoted_error hbad
    cases hflaw
  | badValue hname hcolon hbad =>
    cases hresult
    obtain ⟨quoted, htext, -⟩ := readQuoted_local hname
    have hrest := (skip_suffix _).trans ((suffix_of_skip hcolon).trans (List.suffix_append quoted _))
    exact Nat.lt_of_lt_of_le (ih.value hbad) (brackets_le (hrest.trans (htext ▸ List.suffix_cons _ _)))
  | next hname hcolon hread hcomma hbad =>
    subst hresult
    obtain ⟨taken, -, htaken, -⟩ := readFields_local hname hcolon (locality room fuel).1 hread
    rw [htaken]
    have hrest := (skip_suffix _).trans ((suffix_of_skip hcomma).trans (List.suffix_append taken _))
    exact Nat.lt_of_lt_of_le (ih.fields hbad) (brackets_le hrest)
  | _ => cases hresult

end Bracketed

theorem bracketed (fuel : Nat) : Bracketed fuel := by
  induction fuel with
  | zero => exact ⟨nofun, nofun, nofun⟩
  | succ fuel ih => exact ⟨ih.value_succ, ih.items_succ, ih.fields_succ⟩

/-- A text is only nested too deeply if it opens more brackets than there is room for. -/
theorem lt_brackets {room : Nat} {text : List Char} (h : readWithin room text = .error .tooNested) :
    room < brackets text := by
  rw [readWithin_error (by simp)] at h
  exact Nat.lt_of_lt_of_le ((bracketed _).value h) (brackets_le (skip_suffix text))

theorem readValue_replicate (room extra : Nat) (rest : List Char) :
    readValue room (2 * room + 1 + extra) (List.replicate (room + 1) '[' ++ rest) = .error .tooNested := by
  induction room with
  | zero =>
    rw [Nat.mul_zero, Nat.zero_add, Nat.add_comm]
    exact ValueStep.deepArray.readValue
  | succ room ih =>
    have hfuel : 2 * (room + 1) + 1 + extra = (2 * room + 1 + extra + 1) + 1 := by omega
    rw [hfuel]
    refine (ValueStep.badArray ?_ ?_).readValue
    · change some '[' ≠ some ']'
      decide
    · exact readItems_stop ih

/-- A text that starts with more brackets than there is room for is nested too deeply. -/
theorem readWithin_replicate (room : Nat) (rest : List Char) :
    readWithin room (List.replicate (room + 1) '[' ++ rest) = .error .tooNested := by
  have hfuel : 2 * (List.replicate (room + 1) '[' ++ rest).length + 1
      = 2 * room + 1 + (2 * rest.length + 2) := by
    rw [List.length_append, List.length_replicate]
    omega
  rw [readWithin_error (by simp), hfuel]
  exact readValue_replicate room _ rest

end ContextConfig.Json
