import ContextConfig.Proofs.Yaml.Step
import ContextConfig.Proofs.Yaml.Tags
import ContextConfig.Yaml.Token.Lexer
/-!
# Tokens of a text that does not fault

The lexer stays in its text, and no plain scalar it reads ends with a line feed. Each step keeps
this, so that a whole run does. Tags are read like all other tokens: only a number that is too large
is a fault. The token for the end of the text is the last one, and it is missing where reading stops.
-/

namespace ContextConfig.Yaml

namespace Lexer

variable {text : List Char} {s : Lexer}

/-- The lexer is at a place in the text and has made tokens. -/
structure Tidy (text : List Char) (s : Lexer) : Prop where
  place : Within text s.cursor
  tokens : ∀ t ∈ s.tokens, t.IsInner

theorem Tidy.push (h : Tidy text s) {t : Token} (ht : t.IsInner) : Tidy text (s.push t) :=
  ⟨h.place, List.forall_mem_cons.mpr ⟨ht, h.tokens⟩⟩

theorem Tidy.insertAt (h : Tidy text s) {n : Nat} {t : Token} (ht : t.IsInner) :
    Tidy text (s.insertAt n t) := by
  refine ⟨h.place, List.forall_mem_append.mpr ⟨?_, List.forall_mem_cons.mpr ⟨ht, ?_⟩⟩⟩
  · exact fun t ht => h.tokens t (List.mem_of_mem_take ht)
  · exact fun t ht => h.tokens t (List.mem_of_mem_drop ht)

theorem Tidy.unwindTo (h : Tidy text s) (column : Int) (outer : List Int) :
    Tidy text (s.unwindTo column outer) := by
  induction outer generalizing s with
  | nil => exact h
  | cons parent outer ih =>
    rw [Lexer.unwindTo]
    split
    · exact ih ⟨h.place, List.forall_mem_cons.mpr ⟨trivial, h.tokens⟩⟩
    · exact h

theorem Tidy.unwind (h : Tidy text s) (column : Int) : Tidy text (s.unwind column) := by
  unfold Lexer.unwind
  split
  · exact h
  · exact h.unwindTo _ _

theorem Tidy.openBlock (h : Tidy text s) (column n : Nat) {t : Token} (ht : t.IsInner) :
    Tidy text (s.openBlock column n t) := by
  unfold Lexer.openBlock
  split
  · refine Tidy.insertAt ?_ ht
    exact ⟨h.place, h.tokens⟩
  · exact h

theorem Tidy.skipBlanks (h : Tidy text s) (fuel : Nat) : Tidy text (s.skipBlanks fuel) := by
  induction fuel generalizing s with
  | zero => exact h
  | succ fuel ih =>
    rw [Lexer.skipBlanks]
    split
    · exact ih ⟨h.place.skipSpaces.skipComment.lineBreak, h.tokens⟩
    · exact ⟨h.place.skipSpaces.skipComment, h.tokens⟩

theorem Tidy.skipMark (h : Tidy text s) : Tidy text s.skipMark := by
  unfold Lexer.skipMark
  split
  · exact ⟨h.place.next, h.tokens⟩
  · exact h

theorem Tidy.indicator (h : Tidy text s) {t : Token} (ht : t.IsInner) : Tidy text (s.indicator t) := by
  unfold Lexer.indicator
  refine Tidy.push ?_ ht
  exact ⟨h.place.next, h.tokens⟩

theorem Tidy.dropStale (h : Tidy text s) : Regular (Tidy text) s.dropStale := by
  unfold Lexer.dropStale
  dsimp only
  split
  · exact .malformed
  · exact .ok ⟨h.place, h.tokens⟩

theorem Tidy.dropKey (h : Tidy text s) :
    Regular (fun s' => Tidy text s' ∧ s'.cursor = s.cursor) s.dropKey := by
  unfold Lexer.dropKey
  split
  · split
    · exact .malformed
    · exact .ok ⟨⟨h.place, h.tokens⟩, rfl⟩
  · exact .ok ⟨h, rfl⟩

theorem Tidy.saveKey (h : Tidy text s) :
    Regular (fun s' => Tidy text s' ∧ s'.cursor = s.cursor) s.saveKey := by
  unfold Lexer.saveKey
  split
  · exact h.dropKey.bind fun s ⟨h, hcursor⟩ => .ok ⟨⟨h.place, h.tokens⟩, hcursor⟩
  · exact .ok ⟨h, rfl⟩

theorem Tidy.leaveDocument (h : Tidy text s) :
    Regular (fun s' => Tidy text s' ∧ s'.cursor = s.cursor) s.leaveDocument := by
  refine (h.unwind (-1)).dropKey.bind fun s' ⟨h', hcursor⟩ => .ok ⟨⟨h'.place, h'.tokens⟩, ?_⟩
  exact hcursor.trans (cursor_unwind _ _)

theorem Tidy.flowStart (h : Tidy text s) {t : Token} (ht : t.IsInner) :
    Regular (Tidy text) (s.flowStart t) := by
  refine h.saveKey.bind fun s ⟨h, _⟩ => .ok (Tidy.indicator ?_ ht)
  exact ⟨h.place, h.tokens⟩

theorem Tidy.flowEnd (h : Tidy text s) {t : Token} (ht : t.IsInner) :
    Regular (Tidy text) (s.flowEnd t) := by
  refine h.dropKey.bind fun s ⟨h, _⟩ => ?_
  split
  · refine .ok (Tidy.indicator ?_ ht)
    exact ⟨h.place, h.tokens⟩
  · exact .malformed

theorem Tidy.flowEntry (h : Tidy text s) : Regular (Tidy text) s.flowEntry :=
  Regular.bind (Tidy.dropKey ⟨h.place, h.tokens⟩) fun _ ⟨h, _⟩ => .ok (h.indicator trivial)

/-- A block collection that is opened where none is in flow. -/
theorem Tidy.openBlock_of_not_inFlow (h : Tidy text s) (column n : Nat) {t : Token} (ht : t.IsInner) :
    Tidy text (if s.inFlow = true then s else s.openBlock column n t) := by
  split
  · exact h
  · exact h.openBlock _ _ ht

theorem Tidy.blockEntry (h : Tidy text s) : Regular (Tidy text) s.blockEntry := by
  unfold Lexer.blockEntry
  split
  · exact .malformed
  · have hopen := h.openBlock_of_not_inFlow s.cursor.column s.tokens.length
      (t := .blockSequenceStart) trivial
    exact Regular.bind (Tidy.dropKey ⟨hopen.place, hopen.tokens⟩) fun _ ⟨h, _⟩ => .ok (h.indicator trivial)

theorem Tidy.complexKey (h : Tidy text s) : Regular (Tidy text) s.complexKey := by
  unfold Lexer.complexKey
  split
  · exact .malformed
  · have hopen := h.openBlock_of_not_inFlow s.cursor.column s.tokens.length
      (t := .blockMappingStart) trivial
    exact Regular.bind (Tidy.dropKey ⟨hopen.place, hopen.tokens⟩) fun _ ⟨h, _⟩ => .ok (h.indicator trivial)

theorem Tidy.value (h : Tidy text s) : Regular (Tidy text) s.value := by
  unfold Lexer.value
  split
  · rename_i key rest hkeys
    have hkey : Tidy text ({ s with keys := none :: rest, allowKey := false }.insertAt key.token .key) := by
      refine Tidy.insertAt ?_ trivial
      exact ⟨h.place, h.tokens⟩
    refine .ok (Tidy.indicator (hkey.openBlock_of_not_inFlow _ _ ?_) trivial)
    trivial
  · split
    · exact .malformed
    · have hopen := h.openBlock_of_not_inFlow s.cursor.column s.tokens.length
        (t := .blockMappingStart) trivial
      exact Regular.bind (Tidy.dropKey ⟨hopen.place, hopen.tokens⟩) fun _ ⟨h, _⟩ => .ok (h.indicator trivial)

/-- A token is read from the place of the lexer. -/
theorem Tidy.keyToken (h : Tidy text s) {read : Cursor → Except Stop (Token × Cursor)}
    (hread : Regular (fun r => r.1.IsInner ∧ Within text r.2) (read s.cursor)) :
    Regular (Tidy text) (s.keyToken read) := by
  unfold Lexer.keyToken
  refine h.saveKey.bind fun s' ⟨h, hcursor⟩ => ?_
  rw [hcursor]
  refine hread.bind fun ⟨t, c⟩ ⟨ht, hplace⟩ => ?_
  refine .ok (Tidy.push ?_ ht)
  exact ⟨hplace, h.tokens⟩

theorem Tidy.blockScalar (h : Tidy text s) (folded : Bool) :
    Regular (Tidy text) (s.blockScalar folded) := by
  unfold Lexer.blockScalar
  refine Regular.bind (Tidy.dropKey ⟨h.place, h.tokens⟩) fun s ⟨h, _⟩ => ?_
  refine (reads_block h.place _ _).bind fun ⟨content, c⟩ hplace => ?_
  refine .ok (Tidy.push ?_ trivial)
  exact ⟨hplace, h.tokens⟩

theorem Tidy.plainScalar (h : Tidy text s) :
    Regular (Tidy text) s.plainScalar := by
  unfold Lexer.plainScalar
  refine h.saveKey.bind fun s ⟨h, _⟩ => ?_
  have hplace := h.place.plainRead s.inFlow (s.indent + 1) (s.cursor.rest.length + 1)
  have htrimmed := Plain.not_break_read s.inFlow (s.indent + 1) s.cursor
  generalize Plain.read s.inFlow (s.indent + 1) (s.cursor.rest.length + 1) s.cursor = found
    at hplace htrimmed ⊢
  obtain ⟨content, c, broke⟩ := found
  refine .ok (Tidy.push ?_ htrimmed)
  exact ⟨hplace, h.tokens⟩

theorem Tidy.prepare (h : Tidy text s) : Regular (Tidy text) s.prepare :=
  (h.skipMark.skipBlanks _).dropStale.bind fun _ h => .ok (h.unwind _)

/-- What a step comes to: the lexer behind it, with the last token if the text has ended. -/
def Goes (text : List Char) (x : Except Stop (Bool × Lexer)) : Prop :=
  Regular (fun r => ∃ s, Tidy text s ∧ (r = (false, s) ∨ r = (true, s.push .streamEnd))) x

theorem Tidy.dispatch (hfits : ¬ Excessive text) (h : Tidy text s) : Goes text s.dispatch := by
  have hmore : ∀ {x : Except Stop Lexer}, Regular (Tidy text) x → Goes text (x.map (false, ·)) :=
    fun hx => hx.map fun s h => ⟨s, h, .inl rfl⟩
  unfold Lexer.dispatch
  extract_lets c x more
  refine regular_ite (fun _ => ?_) fun _ => ?_
  · exact h.leaveDocument.bind fun s ⟨h, _⟩ =>
      .ok ⟨{ s with keys := [none] }, ⟨h.place, h.tokens⟩, .inr rfl⟩
  refine regular_ite (fun hpercent => hmore ?_) fun _ => ?_
  · simp only [Bool.and_eq_true, decide_eq_true_eq] at hpercent
    refine h.leaveDocument.bind fun s' ⟨h', hcursor⟩ => ?_
    rw [hcursor]
    refine (readsToken_directive hfits h.place hpercent.1).bind fun ⟨t, c⟩ ⟨ht, hplace⟩ => ?_
    refine .ok (Tidy.push ?_ ht)
    exact ⟨hplace, h'.tokens⟩
  refine regular_ite (fun _ => hmore ?_) fun _ => ?_
  · refine h.leaveDocument.bind fun s' ⟨h', _⟩ => .ok (Tidy.push ?_ ?_)
    · exact ⟨h.place.skip 3, h'.tokens⟩
    · split <;> trivial
  refine regular_ite (fun _ => hmore (h.flowStart trivial)) fun _ => ?_
  refine regular_ite (fun _ => hmore (h.flowStart trivial)) fun _ => ?_
  refine regular_ite (fun _ => hmore (h.flowEnd trivial)) fun _ => ?_
  refine regular_ite (fun _ => hmore (h.flowEnd trivial)) fun _ => ?_
  refine regular_ite (fun _ => hmore h.flowEntry) fun _ => ?_
  refine regular_ite (fun _ => hmore h.blockEntry) fun _ => ?_
  refine regular_ite (fun _ => hmore h.complexKey) fun _ => ?_
  refine regular_ite (fun _ => hmore h.value) fun _ => ?_
  refine regular_ite (fun _ => hmore (h.keyToken ?_)) fun _ => ?_
  · exact (reads_anchor h.place).map fun _ hplace => ⟨trivial, hplace⟩
  refine regular_ite (fun _ => hmore (h.keyToken ?_)) fun _ => ?_
  · exact (reads_anchor h.place).map fun _ hplace => ⟨trivial, hplace⟩
  refine regular_ite (fun _ => hmore (h.keyToken ?_)) fun _ => ?_
  · exact (reads_tag h.place).map fun _ hplace => ⟨trivial, hplace⟩
  refine regular_ite (fun _ => hmore (h.blockScalar _)) fun _ => ?_
  refine regular_ite (fun _ => hmore (h.blockScalar _)) fun _ => ?_
  refine regular_ite (fun _ => hmore (h.keyToken ?_)) fun _ => ?_
  · exact (reads_quoted hfits h.place _).map fun _ hplace => ⟨trivial, hplace⟩
  refine regular_ite (fun _ => hmore (h.keyToken ?_)) fun _ => ?_
  · exact (reads_quoted hfits h.place _).map fun _ hplace => ⟨trivial, hplace⟩
  refine regular_ite (fun _ => hmore (h.plainScalar)) fun _ => ?_
  exact .malformed

/-- What a run comes to: tokens up to the end of the text, or why it stops and those in front. -/
structure Settles (r : Result) : Prop where
  inner : ∀ t ∈ r.1, t.IsInner ∨ t = .streamEnd
  ended : r.2 ≠ none → .streamEnd ∉ r.1
  ending : ∀ stop ∈ r.2, stop = .malformed ∨ stop = .fault .tooNested

theorem Tidy.decided (h : Tidy text s) {stop : Stop}
    (hstop : stop = .malformed ∨ stop = .fault .tooNested) : Settles (s.decided, some stop) := by
  have htokens : ∀ t ∈ s.decided, t.IsInner := fun t ht =>
    h.tokens t (List.mem_reverse.mp (List.mem_of_mem_take ht))
  exact ⟨fun t ht => .inl (htokens t ht), fun _ => htokens .streamEnd, by rintro _ ⟨⟩; exact hstop⟩

/-- Where reading stops, what is decided is in front of the end of the text. -/
theorem Tidy.stopped (h : Tidy text s) {stop : Stop}
    (hstop : stop = .malformed ∨ stop = .fault .tooNested) : Settles (s.stopped stop) := by
  have hstale := h.dropStale
  rw [Lexer.stopped]
  split
  · rename_i heq
    rw [heq] at hstale
    exact hstale.of_ok.decided hstop
  · rename_i heq
    rw [heq] at hstale
    exact h.decided hstale.of_error

/-- A run over a text without numbers that are too large reads its tokens or finds it malformed. -/
theorem Tidy.run (hfits : ¬ Excessive text) (h : Tidy text s) (fuel : Nat) : Settles (s.run fuel) := by
  induction fuel generalizing s with
  | zero => exact h.stopped (.inl rfl)
  | succ fuel ih =>
    have hstep : Goes text s.step := h.prepare.bind fun _ h => h.dispatch hfits
    rw [Lexer.run]
    cases hresult : s.step with
    | error stop =>
      rw [hresult] at hstep
      exact h.stopped hstep.of_error
    | ok r =>
      rw [hresult] at hstep
      obtain ⟨s', h', rfl | rfl⟩ := hstep.of_ok
      · exact ih h'
      · refine ⟨fun t ht => ?_, absurd rfl, ?_⟩
        · obtain rfl | ht := List.mem_cons.mp (List.mem_reverse.mp ht)
          · exact .inr rfl
          · exact .inl (h'.tokens t ht)
        · rintro stop ⟨⟩

end Lexer

theorem Token.settles_ofText {text : List Char} (hfits : ¬ Excessive text) :
    Lexer.Settles (Token.ofText text) :=
  Lexer.Tidy.run hfits (s := { cursor := { rest := text } }) ⟨List.suffix_refl text, by simp⟩ _

end ContextConfig.Yaml
