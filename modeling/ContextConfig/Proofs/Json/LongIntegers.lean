import ContextConfig.Proofs.Json.Reading
/-!
# Integers that are too long

Reading faults on a text exactly where a value is expected and an integer with too many digits is
found. That a value is expected there can be told from the text before it alone: reading that text
stops at its end for want of a value.
-/

namespace ContextConfig.Json

variable {room : Nat}

/-- Whether a number goes on behind its whole part, with a fraction or a power of ten. -/
def GoesOn (text : List Char) : Prop :=
  ∃ mark digits rest, (mark = ['.'] ∨ ExponentMark mark) ∧ Digits digits rest ∧
    text = mark ++ (digits ++ rest)

/-- A text that starts with an integer of more digits than can be converted. -/
def StartsLongInteger (text : List Char) : Prop :=
  ∃ sign digits rest, (sign = [] ∨ sign = ['-']) ∧ Digits digits rest ∧ digits.head? ≠ some '0' ∧
    maxDigits < digits.length ∧ ¬ GoesOn rest ∧ text = sign ++ (digits ++ rest)

/-- A text with such an integer at a place where a value is expected. -/
def AsksLongInteger (text : List Char) : Prop :=
  ∃ before rest, text = before ++ rest ∧ readText before = .error (.flaw .value []) ∧
    StartsLongInteger rest

section Numbers

variable {text rest : List Char}

theorem readParts_eq_nil : (readParts rest).1 = ([], []) ↔ ¬ GoesOn rest := by
  constructor
  · rintro h ⟨mark, digits, more, hmark, hdigits, rfl⟩
    obtain rfl | hmark := hmark
    · rw [List.singleton_append, readParts, readFraction_of_digits hdigits] at h
      cases congrArg Prod.fst h
    · have hhead : ∀ c ∈ (mark ++ (digits ++ more)).head?, c ≠ '.' := by
        obtain ⟨rfl | rfl, -⟩ := hmark <;> (intro c hc; cases hc; decide)
      rw [readParts, readFraction_of_head hhead] at h
      dsimp only at h
      rw [readExponent_of_digits hmark hdigits] at h
      obtain ⟨rfl, -⟩ := List.append_eq_nil_iff.mp (congrArg Prod.snd h)
      cases hmark
  · intro h
    obtain hfraction | ⟨digits, more, hdigits, rfl⟩ := readFraction_cases rest
    · obtain hexponent | ⟨mark, digits, more, hmark, hdigits, rfl⟩ := readExponent_cases rest
      · rw [readParts, hfraction]
        dsimp only
        rw [hexponent]
      · exact absurd ⟨mark, digits, more, .inr hmark, hdigits, rfl⟩ h
    · exact absurd ⟨['.'], digits, more, .inl rfl, hdigits, rfl⟩ h

theorem Digits.head_isDigit {digits : List Char} (h : Digits digits rest) (more : List Char) :
    ∃ c ∈ (digits ++ more).head?, c.isDigit = true := by
  obtain ⟨c, digits, rfl⟩ := List.exists_cons_of_ne_nil h.ne_nil
  exact ⟨c, rfl, h.isDigit c List.mem_cons_self⟩

theorem StartsLongInteger.startsNumber (h : StartsLongInteger text) : StartsNumber text := by
  obtain ⟨sign, digits, rest, hsign, hdigits, -, -, -, rfl⟩ := h
  exact ⟨sign, digits ++ rest, hsign, hdigits.head_isDigit rest, rfl⟩

theorem readNumber_eq_tooManyDigits :
    readNumber text = .error .tooManyDigits ↔ StartsLongInteger text := by
  constructor
  · intro h
    obtain ⟨sign, unsigned, hsign, rfl⟩ := exists_sign text
    rw [hsign.readNumber, readUnsigned] at h
    split at h
    · cases h
    rename_i digits rest hwhole
    split at h
    case isFalse => cases h
    rename_i hlong
    obtain ⟨rfl, hne, hdigits, hzero⟩ := readWhole_eq_some hwhole
    obtain rfl | ⟨hzero, hends⟩ := hzero
    · exact absurd hlong.2 (by decide)
    · exact ⟨sign, digits, rest, hsign.cases, ⟨hne, hdigits, hends⟩, hzero, hlong.2,
        readParts_eq_nil.mp hlong.1, rfl⟩
  · rintro ⟨sign, digits, rest, hsign, hdigits, hzero, hlong, hends, rfl⟩
    have hread : readUnsigned sign (digits ++ rest) = .error .tooManyDigits := by
      rw [readUnsigned, readWhole_append hdigits.ne_nil hdigits.isDigit (.inr hzero) hdigits.ends]
      dsimp only
      rw [if_pos ⟨readParts_eq_nil.mpr hends, hlong⟩]
    obtain rfl | rfl := hsign
    · rw [List.nil_append, readNumber_unsigned, hread]
      intro hminus
      obtain ⟨c, hc, hdigit⟩ := hdigits.head_isDigit rest
      cases hminus.symm.trans hc
      cases hdigit
    · rw [List.singleton_append, readNumber_minus, hread]

theorem readNumber_eq_value_nil (h : readNumber text = .error (.flaw .value [])) : text = [] := by
  obtain ⟨sign, unsigned, hsign, rfl⟩ := exists_sign text
  rw [hsign.readNumber, readUnsigned] at h
  split at h
  · injection h with hstop
    injection hstop
  · split at h <;> cases h

/-- White space in front of a number is skipped. -/
theorem StartsNumber.head {text : List Char} (h : StartsNumber text) :
    ∃ c ∈ text.head?, isSpace c = false ∧ c ≠ ']' ∧ c ≠ '\x7d' := by
  obtain ⟨sign, digits, rfl | rfl, ⟨c, hc, hdigit⟩, rfl⟩ := h
  · refine ⟨c, hc, ?_, ?_, ?_⟩
    · by_contra hspace
      simp only [isSpace, Bool.not_eq_false, Bool.or_eq_true, decide_eq_true_eq] at hspace
      obtain ((rfl | rfl) | rfl) | rfl := hspace <;> cases hdigit
    · rintro rfl
      cases hdigit
    · rintro rfl
      cases hdigit
  · exact ⟨'-', rfl, by decide⟩

end Numbers

section Places

/-- In front of a number only the white space before it is skipped. -/
theorem skip_append {text more : List Char} (h : StartsNumber more) :
    skip (text ++ more) = skip text ++ more := by
  obtain ⟨c, hc, hspace, -⟩ := h.head
  have hmore : skip more = more := skip_of_head fun d hd => by
    cases hc.symm.trans hd
    exact hspace
  rw [skip, skip, List.dropWhile_append]
  split
  · rename_i hempty
    rw [List.isEmpty_iff.mp hempty, List.nil_append]
    exact hmore
  · rfl

theorem head?_skip_append {text more : List Char} (h : StartsNumber more) {c : Char}
    (hc : c = ']' ∨ c = '\x7d') (hopen : (skip text).head? ≠ some c) :
    (skip text ++ more).head? ≠ some c := by
  rw [List.head?_append]
  cases hskip : (skip text).head? with
  | some d =>
    rw [hskip] at hopen
    exact hopen
  | none =>
    obtain ⟨d, hd, -, hbracket, hbrace⟩ := h.head
    rw [Option.none_or, hd]
    obtain rfl | rfl := hc
    · exact fun h => hbracket (Option.some.inj h)
    · exact fun h => hbrace (Option.some.inj h)

/-- A text that ends where a value is expected. -/
def Wanting {α : Type} (result : Except Stop α) : Prop := result = .error (.flaw .value [])

def TooLong {α : Type} (result : Except Stop α) : Prop := result = .error .tooManyDigits

/-- Reading the text before an integer that is too long ends for want of a value. -/
def FoundValue (room fuel : Nat) : Prop :=
  ∀ {text : List Char}, TooLong (readValue room fuel text) →
    ∃ before rest, text = before ++ rest ∧ StartsLongInteger rest ∧
      ∀ fuel', 2 * before.length ≤ fuel' → Wanting (readValue room fuel' before)

def FoundItems (room fuel : Nat) : Prop :=
  ∀ {text : List Char}, TooLong (readItems room fuel text) →
    ∃ before rest, text = before ++ rest ∧ StartsLongInteger rest ∧
      ∀ fuel', 2 * before.length < fuel' → Wanting (readItems room fuel' before)

def FoundFields (room fuel : Nat) : Prop :=
  ∀ {text : List Char} {fields : List (String × Json)}, TooLong (readFields room fuel fields text) →
    ∃ before rest, text = before ++ rest ∧ StartsLongInteger rest ∧
      ∀ fuel', 2 * before.length < fuel' → Wanting (readFields room fuel' fields before)

theorem wanting_nil (fuel : Nat) : Wanting (readValue room fuel []) := by
  cases fuel with
  | zero => rfl
  | succ fuel => rfl

theorem foundValue_succ {fuel : Nat} (hitems : ∀ room, FoundItems room fuel)
    (hfields : ∀ room, FoundFields room fuel) : FoundValue room (fuel + 1) := by
  intro text h
  have hstep := valueStep fuel room text
  rw [h] at hstep
  generalize hresult : Except.error Stop.tooManyDigits = result at hstep
  cases hstep with
  | badString hbad =>
    cases hresult
    obtain ⟨_, _, hflaw, -⟩ := readQuoted_error hbad
    cases hflaw
  | @badObject room text _ hopen hbad =>
    cases hresult
    obtain ⟨before, rest, hbefore, hrest, hread⟩ := hfields room hbad
    obtain ⟨whole, rfl, hlength, hskip, -⟩ := exists_skip hbefore
    refine ⟨'\x7b' :: whole, rest, rfl, hrest, fun fuel' hfuel => ?_⟩
    rw [List.length_cons] at hfuel
    obtain ⟨fuel', rfl⟩ := Nat.exists_eq_add_one.mpr (show 0 < fuel' by omega)
    refine (ValueStep.badObject ?_ ?_).readValue
    · rw [hskip]
      intro hhead
      rw [hbefore, List.head?_append, hhead] at hopen
      exact hopen rfl
    · rw [hskip]
      exact hread fuel' (by omega)
  | @badArray room text _ hopen hbad =>
    cases hresult
    obtain ⟨before, rest, hbefore, hrest, hread⟩ := hitems room hbad
    obtain ⟨whole, rfl, hlength, hskip, -⟩ := exists_skip hbefore
    refine ⟨'[' :: whole, rest, rfl, hrest, fun fuel' hfuel => ?_⟩
    rw [List.length_cons] at hfuel
    obtain ⟨fuel', rfl⟩ := Nat.exists_eq_add_one.mpr (show 0 < fuel' by omega)
    refine (ValueStep.badArray ?_ ?_).readValue
    · rw [hskip]
      intro hhead
      rw [hbefore, List.head?_append, hhead] at hopen
      exact hopen rfl
    · rw [hskip]
      exact hread fuel' (by omega)
  | number hplain hword =>
    exact ⟨[], text, rfl, readNumber_eq_tooManyDigits.mp hresult.symm, fun fuel' _ => wanting_nil fuel'⟩
  | _ => cases hresult

theorem foundItems_succ {fuel : Nat} (hvalue : FoundValue room fuel) (hitems : FoundItems room fuel) :
    FoundItems room (fuel + 1) := by
  intro text h
  have hstep := itemsStep room fuel text
  rw [h] at hstep
  cases hstep with
  | badItem hbad =>
    obtain ⟨before, rest, rfl, hrest, hread⟩ := hvalue hbad
    refine ⟨before, rest, rfl, hrest, fun fuel' hfuel => ?_⟩
    obtain ⟨fuel', rfl⟩ := Nat.exists_eq_add_one.mpr (show 0 < fuel' by omega)
    exact readItems_stop (hread fuel' (by omega))
  | @badNext _ _ more _ hitem hcomma hbad =>
    obtain ⟨before, rest, hbefore, hrest, hread⟩ := hitems hbad
    obtain ⟨taken, -, rfl, hlocal⟩ := (locality room fuel).1 hitem
    obtain ⟨front, rfl, hfront, hskip⟩ := exists_skip_cons hcomma
    obtain ⟨whole, rfl, hlength, hskip', -⟩ := exists_skip hbefore
    refine ⟨taken ++ (front ++ whole), rest, by simp, hrest, fun fuel' hfuel => ?_⟩
    have hpos := List.length_pos_iff.mpr hfront
    simp only [List.length_append] at hfuel
    obtain ⟨fuel', rfl⟩ := Nat.exists_eq_add_one.mpr (show 0 < fuel' by omega)
    have hfirst := hlocal (front ++ whole) fuel' (endsNumber_of_skip (hskip _) (by simp)) (by omega)
    rw [Wanting, readItems_comma hfirst (hskip _), hskip', hread fuel' (by omega)]
    rfl

theorem foundFields_succ {fuel : Nat} (hvalue : FoundValue room fuel) (hfields : FoundFields room fuel) :
    FoundFields room (fuel + 1) := by
  intro text fields h
  have hstep := fieldsStep room fuel fields text
  rw [h] at hstep
  generalize hresult : Except.error Stop.tooManyDigits = result at hstep
  cases hstep with
  | badName hbad =>
    cases hresult
    obtain ⟨_, _, hflaw, -⟩ := readQuoted_error hbad
    cases hflaw
  | @badValue _ _ more _ _ hname hcolon hbad =>
    cases hresult
    obtain ⟨before, rest, hbefore, hrest, hread⟩ := hvalue hbad
    obtain ⟨quoted, rfl, hquoted⟩ := readQuoted_local hname
    obtain ⟨front, rfl, -, hskip⟩ := exists_skip_cons hcolon
    obtain ⟨whole, rfl, hlength, hskip', -⟩ := exists_skip hbefore
    refine ⟨'\x22' :: (quoted ++ (front ++ whole)), rest, by simp, hrest, fun fuel' hfuel => ?_⟩
    simp only [List.length_cons, List.length_append] at hfuel
    obtain ⟨fuel', rfl⟩ := Nat.exists_eq_add_one.mpr (show 0 < fuel' by omega)
    refine readFields_stop (hquoted _) (hskip _) ?_ fields
    rw [hskip', hread fuel' (by omega)]
  | @next _ _ _ _ more _ _ _ hname hcolon hread hcomma hbad =>
    subst hresult
    obtain ⟨before, rest, hbefore, hrest, hwanting⟩ := hfields hbad
    obtain ⟨taken, -, htaken, hlocal⟩ := readFields_local hname hcolon (locality room fuel).1 hread
    obtain ⟨front, rfl, hfront, hskip⟩ := exists_skip_cons hcomma
    obtain ⟨whole, rfl, hlength, hskip', -⟩ := exists_skip hbefore
    refine ⟨taken ++ (front ++ whole), rest, by simp [htaken], hrest, fun fuel' hfuel => ?_⟩
    have hpos := List.length_pos_iff.mpr hfront
    simp only [List.length_append] at hfuel
    obtain ⟨fuel', rfl⟩ := Nat.exists_eq_add_one.mpr (show 0 < fuel' by omega)
    rw [Wanting, hlocal _ _ _ (endsNumber_of_skip (hskip _) (by simp)) (by omega),
      readOn_comma (hskip _), hskip', hwanting fuel' (by omega)]
  | _ => cases hresult

theorem found (room fuel : Nat) :
    FoundValue room fuel ∧ FoundItems room fuel ∧ FoundFields room fuel := by
  induction fuel generalizing room with
  | zero => exact ⟨nofun, nofun, nofun⟩
  | succ fuel ih =>
    obtain ⟨hvalue, hitems, hfields⟩ := ih room
    exact ⟨foundValue_succ (fun room => (ih room).2.1) (fun room => (ih room).2.2),
      foundItems_succ hvalue hitems, foundFields_succ hvalue hfields⟩

theorem StartsLongInteger.readValue {more : List Char} (h : StartsLongInteger more) (fuel : Nat) :
    TooLong (readValue room (fuel + 1) more) := by
  obtain ⟨hplain, hword⟩ := h.startsNumber.plain
  rw [TooLong, (ValueStep.number hplain hword).readValue]
  exact readNumber_eq_tooManyDigits.mpr h

/-- Where a value is wanting, an integer that is too long is found. -/
def FindsValue (more : List Char) (room fuel : Nat) : Prop :=
  ∀ {before : List Char}, 2 * before.length ≤ fuel → Wanting (readValue room fuel before) →
    ∀ fuel', 2 * before.length < fuel' → TooLong (readValue room fuel' (before ++ more))

def FindsItems (more : List Char) (room fuel : Nat) : Prop :=
  ∀ {before : List Char}, 2 * before.length < fuel → Wanting (readItems room fuel before) →
    ∀ fuel', 2 * before.length + 1 < fuel' → TooLong (readItems room fuel' (before ++ more))

def FindsFields (more : List Char) (room fuel : Nat) : Prop :=
  ∀ {before : List Char} {fields : List (String × Json)}, 2 * before.length < fuel →
    Wanting (readFields room fuel fields before) →
    ∀ fuel', 2 * before.length + 1 < fuel' → TooLong (readFields room fuel' fields (before ++ more))

theorem length_skip (text : List Char) : (skip text).length ≤ text.length := (skip_suffix text).length_le

variable {more : List Char}

theorem findsValue_succ (hmore : StartsLongInteger more) {fuel : Nat}
    (hitems : ∀ room, FindsItems more room fuel) (hfields : ∀ room, FindsFields more room fuel) :
    FindsValue more room (fuel + 1) := by
  intro before hfuel h fuel' hfuel'
  obtain ⟨fuel', rfl⟩ := Nat.exists_eq_add_one.mpr (show 0 < fuel' by omega)
  have hstep := valueStep fuel room before
  rw [h] at hstep
  generalize hresult : Except.error (Stop.flaw .value []) = result at hstep
  cases hstep with
  | badString hbad =>
    cases hresult
    obtain ⟨_, _, hflaw, hne⟩ := readQuoted_error hbad
    cases hflaw
    exact absurd rfl hne
  | @badObject room text _ hopen hbad =>
    cases hresult
    have hlength := length_skip text
    simp only [List.length_cons] at hfuel hfuel'
    have hread := hfields room (by omega) hbad fuel' (by omega)
    refine (ValueStep.badObject ?_ ?_).readValue
    · change (skip (text ++ more)).head? ≠ _
      rw [skip_append hmore.startsNumber]
      exact head?_skip_append hmore.startsNumber (.inr rfl) hopen
    · change readFields room fuel' [] (skip (text ++ more)) = _
      rw [skip_append hmore.startsNumber]
      exact hread
  | @badArray room text _ hopen hbad =>
    cases hresult
    have hlength := length_skip text
    simp only [List.length_cons] at hfuel hfuel'
    have hread := hitems room (by omega) hbad fuel' (by omega)
    refine (ValueStep.badArray ?_ ?_).readValue
    · change (skip (text ++ more)).head? ≠ _
      rw [skip_append hmore.startsNumber]
      exact head?_skip_append hmore.startsNumber (.inl rfl) hopen
    · change readItems room fuel' (skip (text ++ more)) = _
      rw [skip_append hmore.startsNumber]
      exact hread
  | number hplain hword =>
    obtain rfl := readNumber_eq_value_nil hresult.symm
    exact hmore.readValue fuel'
  | _ => cases hresult

theorem findsItems_succ (hmore : StartsLongInteger more) {fuel : Nat} (hvalue : FindsValue more room fuel)
    (hitems : FindsItems more room fuel) : FindsItems more room (fuel + 1) := by
  intro before hfuel h fuel' hfuel'
  obtain ⟨fuel', rfl⟩ := Nat.exists_eq_add_one.mpr (show 0 < fuel' by omega)
  have hstep := itemsStep room fuel before
  rw [h] at hstep
  generalize hresult : Except.error (Stop.flaw .value []) = result at hstep
  cases hstep with
  | badItem hbad =>
    cases hresult
    exact readItems_stop (hvalue (by omega) hbad fuel' (by omega))
  | @badNext _ _ rest _ hitem hcomma hbad =>
    cases hresult
    obtain ⟨taken, -, rfl, hlocal⟩ := (locality room fuel).1 hitem
    obtain ⟨front, rfl, hfront, hskip⟩ := exists_skip_cons hcomma
    have hlength := length_skip rest
    have hpos := List.length_pos_iff.mpr hfront
    simp only [List.length_append] at hfuel hfuel'
    have hread := hitems (by omega) hbad fuel' (by omega)
    have hfirst := hlocal (front ++ (rest ++ more)) fuel' (endsNumber_of_skip (hskip _) (by simp))
      (by omega)
    rw [TooLong, List.append_assoc, List.append_assoc, readItems_comma hfirst (hskip _),
      skip_append hmore.startsNumber, hread]
    rfl
  | _ => cases hresult

theorem findsFields_succ (hmore : StartsLongInteger more) {fuel : Nat} (hvalue : FindsValue more room fuel)
    (hfields : FindsFields more room fuel) : FindsFields more room (fuel + 1) := by
  intro before fields hfuel h fuel' hfuel'
  obtain ⟨fuel', rfl⟩ := Nat.exists_eq_add_one.mpr (show 0 < fuel' by omega)
  have hstep := fieldsStep room fuel fields before
  rw [h] at hstep
  generalize hresult : Except.error (Stop.flaw .value []) = result at hstep
  cases hstep with
  | badName hbad =>
    cases hresult
    obtain ⟨_, _, hflaw, hne⟩ := readQuoted_error hbad
    cases hflaw
    exact absurd rfl hne
  | @badValue _ _ rest _ _ hname hcolon hbad =>
    cases hresult
    obtain ⟨quoted, rfl, hquoted⟩ := readQuoted_local hname
    obtain ⟨front, rfl, -, hskip⟩ := exists_skip_cons hcolon
    have hlength := length_skip rest
    simp only [List.length_append, List.length_cons] at hfuel hfuel'
    have hread := hvalue (by omega) hbad fuel' (by omega)
    have htext : '\x22' :: (quoted ++ (front ++ rest)) ++ more
        = '\x22' :: (quoted ++ (front ++ (rest ++ more))) := by simp
    rw [TooLong, htext]
    refine readFields_stop (hquoted _) (hskip _) ?_ fields
    rw [skip_append hmore.startsNumber, hread]
  | @next _ _ _ _ rest _ _ _ hname hcolon hvalue' hcomma hbad =>
    subst hresult
    obtain ⟨taken, -, htaken, hlocal⟩ := readFields_local hname hcolon (locality room fuel).1 hvalue'
    obtain ⟨front, rfl, hfront, hskip⟩ := exists_skip_cons hcomma
    have hlength := length_skip rest
    have hpos := List.length_pos_iff.mpr hfront
    rw [htaken] at hfuel hfuel' ⊢
    simp only [List.length_append] at hfuel hfuel'
    have hread := hfields (by omega) hbad fuel' (by omega)
    rw [TooLong, List.append_assoc, List.append_assoc,
      hlocal _ _ _ (endsNumber_of_skip (hskip _) (by simp)) (by omega), readOn_comma (hskip _),
      skip_append hmore.startsNumber, hread]
  | _ => cases hresult

theorem finds (hmore : StartsLongInteger more) (room fuel : Nat) :
    FindsValue more room fuel ∧ FindsItems more room fuel ∧ FindsFields more room fuel := by
  induction fuel generalizing room with
  | zero =>
    refine ⟨fun {before} hfuel _ fuel' hfuel' => ?_, nofun, nofun⟩
    obtain rfl := List.eq_nil_of_length_eq_zero (show before.length = 0 by omega)
    obtain ⟨fuel', rfl⟩ := Nat.exists_eq_add_one.mpr hfuel'
    exact hmore.readValue fuel'
  | succ fuel ih =>
    obtain ⟨hvalue, hitems, hfields⟩ := ih room
    exact ⟨findsValue_succ hmore (fun room => (ih room).2.1) (fun room => (ih room).2.2),
      findsItems_succ hmore hvalue hitems, findsFields_succ hmore hvalue hfields⟩

end Places

/-- Reading stops at an integer that is too long exactly where one stands in place of a value. -/
theorem readText_eq_tooManyDigits {text : List Char} :
    readText text = .error .tooManyDigits ↔ AsksLongInteger text := by
  rw [readText, readWithin_error (by simp)]
  constructor
  · intro h
    obtain ⟨before, rest, hbefore, hrest, hread⟩ := (found _ _).1 h
    obtain ⟨whole, rfl, hlength, hskip, -⟩ := exists_skip hbefore
    refine ⟨whole, rest, rfl, ?_, hrest⟩
    rw [readText, readWithin_error (by simp), hskip]
    exact hread _ (by omega)
  · rintro ⟨before, rest, rfl, hbefore, hrest⟩
    rw [readText, readWithin_error (by simp)] at hbefore
    have hlength := length_skip before
    rw [skip_append hrest.startsNumber]
    refine (finds hrest _ _).1 ?_ hbefore _ ?_
    · omega
    · rw [List.length_append]
      omega

end ContextConfig.Json
