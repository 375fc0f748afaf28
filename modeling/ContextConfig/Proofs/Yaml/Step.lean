import ContextConfig.Proofs.Yaml.Scalar
import ContextConfig.Yaml.Token.Lexer
/-!
# Steps of the lexer

A step goes to the place of the next token and reads what stands there. The lemmas say where the
lexer gets to over blanks and line breaks, and what it reads at a scalar and at the indicators of
a block mapping. `Runs` joins the steps: what reading comes to is known at every place that leads
to a place where it is known.
-/

namespace ContextConfig.Yaml.Lexer

open Writer (spaces newLine)

variable {s t u : Lexer} {c : Cursor} {rest tail : List Char}

section Prepare

theorem cursor_unwindTo (column : Int) (outer : List Int) (s : Lexer) :
    (unwindTo column outer s).cursor = s.cursor := by
  induction outer generalizing s with
  | nil => rfl
  | cons parent outer ih =>
    rw [unwindTo]
    split
    · exact ih _
    · rfl

theorem cursor_unwind (column : Int) (s : Lexer) : (unwind column s).cursor = s.cursor := by
  rw [unwind]
  split
  · rfl
  · exact cursor_unwindTo ..

/-- Nothing is closed at a column that the innermost collection reaches. -/
theorem unwind_of_le {column : Int} (h : s.indent ≤ column) : unwind column s = s := by
  rw [unwind]
  split
  · rfl
  · cases hs : s.outer with
    | nil => rfl
    | cons parent outer => rw [unwindTo, if_neg (Int.not_lt.mpr h)]

/-- The innermost collection is closed in front of a column that it does not reach. -/
theorem unwind_cons {column indent parent : Int} {outer : List Int} {allowKey : Bool}
    {tokens : List Token} (h : column < indent) :
    unwind column ⟨c, indent, parent :: outer, allowKey, [none], tokens⟩
      = unwind column ⟨c, parent, outer, allowKey, [none], .blockEnd :: tokens⟩ := by
  simp [unwind, inFlow, unwindTo, h]

theorem unwind_self {indent : Int} {outer : List Int} {allowKey : Bool}
    {keys : List (Option PossibleKey)} {tokens : List Token} :
    unwind indent ⟨c, indent, outer, allowKey, keys, tokens⟩
      = ⟨c, indent, outer, allowKey, keys, tokens⟩ := unwind_of_le (Int.le_refl _)

theorem dropStale_of_not_isStale (h : ∀ key ∈ s.keys, ∀ k ∈ key, s.isStale k = false) :
    s.dropStale = .ok s := by
  have hstale : ∀ key ∈ s.keys, key.any (s.isStale ·) = false := by
    intro key hkey
    cases key with
    | none => rfl
    | some k => exact h (some k) hkey k rfl
  have hrequired : (s.keys.any fun key => key.any (s.isStale ·) && key.any (·.required)) = false := by
    rw [List.any_eq_false]
    intro key hkey
    simp [hstale key hkey]
  have hkeys : (s.keys.map fun key => if key.any (s.isStale ·) then none else key) = s.keys := by
    rw [List.map_congr_left fun key hkey => by rw [hstale key hkey, if_neg (by decide)],
      List.map_id']
  simp only [dropStale, hrequired, Bool.false_eq_true, if_false, hkeys]

/-- A key that need not be one is given up once it is stale. -/
theorem dropStale_of_isStale {key : PossibleKey} (hkeys : s.keys = [some key])
    (hstale : s.isStale key = true) (hrequired : key.required = false) :
    s.dropStale = .ok { s with keys := [none] } := by
  simp [dropStale, hkeys, hstale, hrequired]

theorem dropStale_of_required {key : PossibleKey} (hkeys : s.keys = [some key])
    (hstale : s.isStale key = true) (hrequired : key.required = true) :
    s.dropStale = .error .malformed := by
  simp [dropStale, hkeys, hstale, hrequired]

theorem length_skipBlanks (fuel : Nat) (s : Lexer) :
    (skipBlanks fuel s).cursor.rest.length ≤ s.cursor.rest.length := by
  induction fuel generalizing s with
  | zero => exact Nat.le_refl _
  | succ fuel ih =>
    have hspaces : s.cursor.skipSpaces.rest.length ≤ s.cursor.rest.length :=
      Cursor.length_rest_skipWhile ..
    have hcomment : s.cursor.skipSpaces.skipComment.rest.length ≤ s.cursor.rest.length := by
      refine Nat.le_trans ?_ hspaces
      rw [Cursor.skipComment]
      split
      · exact Cursor.length_rest_skipWhile ..
      · exact Nat.le_refl _
    rw [skipBlanks]
    split
    · refine Nat.le_trans (ih _) (Nat.le_trans ?_ hcomment)
      exact Cursor.length_rest_lineBreak _
    · exact hcomment

theorem prepare_eq_ok (h : s.prepare = .ok t) : ∃ u,
    (s.skipMark.skipBlanks (s.cursor.rest.length + 1)).dropStale = .ok u ∧
      t = u.unwind u.cursor.column := by
  rw [prepare] at h
  cases hu : (s.skipMark.skipBlanks (s.cursor.rest.length + 1)).dropStale with
  | error stop => simp [hu, bind, Except.bind] at h
  | ok u =>
    simp only [hu, bind, Except.bind, pure, Except.pure, Except.ok.injEq] at h
    exact ⟨u, rfl, h.symm⟩

/-- Going to the next token takes nothing back. -/
theorem length_of_prepare (h : s.prepare = .ok t) :
    t.cursor.rest.length ≤ s.cursor.rest.length := by
  obtain ⟨u, hu, rfl⟩ := prepare_eq_ok h
  have hcursor : u.cursor = (s.skipMark.skipBlanks (s.cursor.rest.length + 1)).cursor := by
    rw [dropStale] at hu
    dsimp only at hu
    split at hu
    · cases hu
    · cases hu
      rfl
  rw [cursor_unwind, hcursor]
  apply Nat.le_trans (length_skipBlanks ..)
  rw [skipMark]
  split
  · simp [Cursor.rest_next]
  · exact Nat.le_refl _

theorem skipMark_of_head? (h : s.cursor.rest.head? ≠ some '\uFEFF') : s.skipMark = s := by
  have hpeek : s.cursor.peek ≠ '\uFEFF' := by
    rw [Cursor.peek]
    cases hrest : s.cursor.rest with
    | nil => decide
    | cons x rest =>
      rintro rfl
      exact h (by rw [hrest]; rfl)
  simp [skipMark, hpeek]

theorem skipComment_of_fresh (h : Fresh c.rest) : c.skipComment = c := by
  rw [Cursor.skipComment, if_neg h.peek_ne_comment]

/-- Spaces are skipped within the line. -/
theorem skipBlanks_spaces {n : Nat} (hrest : s.cursor.rest = spaces n ++ rest) (hfresh : Fresh rest)
    (fuel : Nat) : s.skipBlanks (fuel + 1) = { s with cursor := s.cursor.skip n } := by
  have hnext : (s.cursor.skip n).rest = rest := Cursor.rest_skip_spaces hrest
  have hfresh' : Fresh (s.cursor.skip n).rest := hnext ▸ hfresh
  rw [skipBlanks, Cursor.skipSpaces_append hfresh.head?_ne_space hrest,
    skipComment_of_fresh hfresh']
  simp [hfresh'.isBreak_peek]

/-- A line break is skipped with the indentation after it. Outside flow collections a key may start
in the next line. -/
theorem skipBlanks_newLine {n : Nat} (hrest : s.cursor.rest = newLine n ++ rest)
    (hfresh : Fresh rest) (fuel : Nat) : s.skipBlanks (fuel + 2)
    = { s with cursor := s.cursor.skip (n + 1), allowKey := s.allowKey || !s.inFlow } := by
  have hcons : s.cursor.rest = '\n' :: (spaces n ++ rest) := hrest
  have hspaces : s.cursor.skipSpaces = s.cursor :=
    Cursor.skipSpaces_append (n := 0) (by simp) hcons
  have hcomment : s.cursor.skipComment = s.cursor := by
    rw [Cursor.skipComment, Cursor.peek_eq hcons]
    rfl
  have hbreak : isBreak s.cursor.peek = true := by rw [Cursor.peek_eq hcons]; rfl
  have hnext : s.cursor.next.rest = spaces n ++ rest := by rw [Cursor.rest_next, hcons]; rfl
  rw [skipBlanks]
  simp only [hspaces, hcomment, hbreak, if_true, Cursor.lineBreak_lineFeed hcons]
  rw [skipBlanks_spaces hnext hfresh]
  rfl

theorem head?_ne_mark {n : Nat} (h : Fresh rest) : (spaces n ++ rest).head? ≠ some '\uFEFF' := by
  cases n with
  | zero =>
    intro hmark
    exact absurd (h.graphic _ hmark) (by decide)
  | succ n => simp [spaces, List.replicate_succ]

/-- The next token is in the same line. -/
theorem prepare_eq {n : Nat} (hrest : s.cursor.rest = spaces n ++ rest) (hfresh : Fresh rest) :
    s.prepare = ({ s with cursor := s.cursor.skip n }.dropStale).map
      fun t : Lexer => unwind t.cursor.column t := by
  have hmark : s.skipMark = s := skipMark_of_head? (hrest ▸ head?_ne_mark hfresh)
  rw [prepare]
  rw [hmark, skipBlanks_spaces hrest hfresh]
  rfl

/-- The next token is in the next line. -/
theorem prepare_line {n : Nat} (hrest : s.cursor.rest = newLine n ++ rest) (hfresh : Fresh rest) :
    s.prepare = ({ s with
        cursor := s.cursor.skip (n + 1), allowKey := s.allowKey || !s.inFlow }.dropStale).map
      fun t : Lexer => unwind t.cursor.column t := by
  have hcons : s.cursor.rest = '\n' :: (spaces n ++ rest) := hrest
  have hmark : s.skipMark = s := skipMark_of_head? (by simp [hcons])
  have hlength : s.cursor.rest.length + 1 = (s.cursor.rest.length - 1) + 2 := by
    rw [hcons, List.length_cons]
    omega
  rw [prepare]
  rw [hmark, hlength, skipBlanks_newLine hrest hfresh]
  rfl

/-- No key that may have started before the next token is stale. -/
theorem prepare_spaces {n : Nat} (hrest : s.cursor.rest = spaces n ++ rest) (hfresh : Fresh rest)
    (hkeys : ∀ key ∈ s.keys, ∀ k ∈ key,
      isStale { s with cursor := s.cursor.skip n } k = false)
    (hindent : s.indent ≤ (s.cursor.skip n).column) :
    s.prepare = .ok { s with cursor := s.cursor.skip n } := by
  rw [prepare_eq hrest hfresh, dropStale_of_not_isStale hkeys]
  exact congrArg Except.ok (unwind_of_le hindent)

/-- The next token is here. -/
theorem prepare_here (hfresh : Fresh s.cursor.rest)
    (hkeys : ∀ key ∈ s.keys, ∀ k ∈ key, s.isStale k = false) (hindent : s.indent ≤ s.cursor.column) :
    s.prepare = .ok s :=
  prepare_spaces (n := 0) rfl hfresh hkeys hindent

/-- Whether every key that may have started can be given up after a line. -/
def EndsBy (line : Nat) (keys : List (Option PossibleKey)) : Prop :=
  keys = [none] ∨ ∃ key, keys = [some key] ∧ key.required = false ∧ key.line ≤ line

theorem EndsBy.mono {line line' : Nat} {keys : List (Option PossibleKey)} (h : EndsBy line keys)
    (hline : line ≤ line') : EndsBy line' keys := by
  obtain h | ⟨key, h, hrequired, hkey⟩ := h
  · exact .inl h
  · exact .inr ⟨key, h, hrequired, Nat.le_trans hkey hline⟩

theorem dropStale_of_endsBy {line : Nat} (h : EndsBy line s.keys) (hline : line < s.cursor.line) :
    s.dropStale = .ok { s with keys := [none] } := by
  obtain h | ⟨key, h, hrequired, hkey⟩ := h
  · rw [dropStale_of_not_isStale (by simp [h]), ← h]
  · refine dropStale_of_isStale h ?_ hrequired
    simp only [isStale, ne_eq, Bool.or_eq_true, decide_eq_true_eq]
    omega

section Lines

variable {line : Nat} {indent : Int} {outer : List Int} {allowKey : Bool}
  {keys : List (Option PossibleKey)} {tokens : List Token}

/-- A token that starts here, in a later line than any key that may have started. -/
theorem prepare_fresh (hfresh : Fresh c.rest) (hkeys : EndsBy line keys) (hline : line < c.line) :
    prepare ⟨c, indent, outer, allowKey, keys, tokens⟩
      = .ok (unwind c.column ⟨c, indent, outer, allowKey, [none], tokens⟩) := by
  have hdrop : dropStale ⟨c.skip 0, indent, outer, allowKey, keys, tokens⟩ = .ok _ :=
    dropStale_of_endsBy hkeys hline
  exact (prepare_eq (n := 0) rfl hfresh).trans (congrArg (Except.map _) hdrop)

/-- The next token is in the next line, where no key that may have started before it is open. -/
theorem prepare_newLine {n : Nat} (hrest : c.rest = newLine n ++ rest) (hfresh : Fresh rest)
    (hkeys : EndsBy c.line keys) :
    prepare ⟨c, indent, outer, allowKey, keys, tokens⟩
      = .ok (unwind n ⟨c.skip (n + 1), indent, outer, true, [none], tokens⟩) := by
  have hflow : inFlow ⟨c, indent, outer, allowKey, keys, tokens⟩ = false := by
    obtain h | ⟨key, h, -⟩ := hkeys <;> simp [inFlow, h]
  have hplace := Cursor.skip_newLine hrest
  have hdrop : dropStale ⟨c.skip (n + 1), indent, outer, true, keys, tokens⟩
      = .ok ⟨c.skip (n + 1), indent, outer, true, [none], tokens⟩ :=
    dropStale_of_endsBy hkeys (by rw [hplace]; exact Nat.lt_succ_self _)
  rw [prepare_line hrest hfresh]
  simp only [hflow, Bool.not_false, Bool.or_true]
  rw [hdrop]
  simp only [Except.map, hplace]

theorem prepare_space (hrest : c.rest = ' ' :: rest) (hfresh : Fresh rest) (hindent : indent ≤ c.column) :
    prepare ⟨c, indent, outer, allowKey, [none], tokens⟩
      = .ok ⟨c.next, indent, outer, allowKey, [none], tokens⟩ := by
  apply prepare_spaces (n := 1) hrest hfresh (by simp)
  have hcolumn : (c.skip 1).column = c.column + 1 := by
    rw [Cursor.skip, Cursor.skip, Cursor.next_printable (by decide) hrest]
  rw [hcolumn]
  dsimp only
  omega

/-- A key that started in this line may end here, unless it is too long. -/
theorem prepare_key {key : PossibleKey} (hfresh : Fresh c.rest) (hline : key.line = c.line)
    (hindex : c.index ≤ key.index + maxKeyLength) (hindent : indent ≤ c.column) :
    prepare ⟨c, indent, outer, allowKey, [some key], tokens⟩
      = .ok ⟨c, indent, outer, allowKey, [some key], tokens⟩ := by
  refine prepare_here hfresh ?_ hindent
  intro open? hopen k hk
  obtain rfl := List.mem_singleton.mp hopen
  obtain rfl := Option.mem_some_iff.mp hk
  simp only [isStale, hline, ne_eq, not_true_eq_false, decide_false, Bool.false_or]
  exact decide_eq_false (by omega)

/-- A key that is too long is given up, if it need not be one. -/
theorem prepare_longKey {key : PossibleKey} (hfresh : Fresh c.rest)
    (hindex : key.index + maxKeyLength < c.index) (hindent : indent ≤ c.column) :
    prepare ⟨c, indent, outer, allowKey, [some key], tokens⟩
      = if key.required then .error .malformed
        else .ok ⟨c, indent, outer, allowKey, [none], tokens⟩ := by
  have hstale : isStale ⟨c, indent, outer, allowKey, [some key], tokens⟩ key = true := by
    simp only [isStale, Bool.or_eq_true, decide_eq_true_eq]
    exact .inr hindex
  rw [prepare_eq (n := 0) rfl hfresh]
  split
  case isTrue hrequired => exact congrArg (Except.map _) (dropStale_of_required rfl hstale hrequired)
  case isFalse hrequired =>
    have hdrop : dropStale ⟨c, indent, outer, allowKey, [some key], tokens⟩
        = .ok ⟨c, indent, outer, allowKey, [none], tokens⟩ :=
      dropStale_of_isStale rfl hstale (by simpa using hrequired)
    exact (congrArg (Except.map _) hdrop).trans (congrArg Except.ok (unwind_of_le hindent))

end Lines

end Prepare

section Dispatch

/-- A simple key that may start at the cursor. -/
def keyHere (s : Lexer) : PossibleKey :=
  ⟨s.tokens.length, s.indent = s.cursor.column, s.cursor.index, s.cursor.line, s.cursor.column⟩

/-- The keys that may have started once a scalar has. -/
def openKeys (s : Lexer) : List (Option PossibleKey) :=
  if s.allowKey then [some s.keyHere] else [none]

theorem saveKey_of_none (h : s.keys = [none]) : s.saveKey = .ok { s with keys := s.openKeys } := by
  rw [saveKey, openKeys]
  split
  · simp [dropKey, h, inFlow, keyHere, bind, Except.bind]
  · rw [← h]

theorem eq_keyHere_of_mem_openKeys {key : Option PossibleKey} (hkey : key ∈ s.openKeys)
    {k : PossibleKey} (hk : k ∈ key) : k = s.keyHere := by
  rw [openKeys] at hkey
  split at hkey
  · obtain rfl := List.mem_singleton.mp hkey
    exact (Option.mem_some_iff.mp hk).symm
  · obtain rfl := List.mem_singleton.mp hkey
    cases hk

/-- A key that is not at the start of a line of its mapping need not be one. -/
theorem endsBy_openKeys (hindent : s.indent < s.cursor.column) :
    EndsBy s.cursor.line s.openKeys := by
  rw [openKeys]
  split
  · exact .inr ⟨s.keyHere, rfl, by simp [keyHere]; omega, Nat.le_refl _⟩
  · exact .inl rfl

theorem flowStart_eq (hkeys : s.keys = [none]) (token : Token) : s.flowStart token
    = .ok ⟨s.cursor.next, s.indent, s.outer, true, none :: s.openKeys, token :: s.tokens⟩ := by
  simp only [flowStart, saveKey_of_none hkeys, bind, Except.bind, indicator, push]

theorem flowEnd_eq {keys : List (Option PossibleKey)} (hkeys : s.keys = none :: keys)
    (hne : keys ≠ []) (token : Token) : s.flowEnd token
    = .ok ⟨s.cursor.next, s.indent, s.outer, false, keys, token :: s.tokens⟩ := by
  obtain ⟨key, keys, rfl⟩ := List.exists_cons_of_ne_nil hne
  simp only [flowEnd, dropKey, hkeys, bind, Except.bind, indicator, push]

theorem plainScalar_eq {text : List Char} {broke : Bool} (hkeys : s.keys = [none])
    (hread : Plain.read false (s.indent + 1) (s.cursor.rest.length + 1) s.cursor
      = (text, c, broke)) :
    s.plainScalar
      = .ok ⟨c, s.indent, s.outer, broke, s.openKeys, .scalar text true :: s.tokens⟩ := by
  have hflow : inFlow { s with keys := s.openKeys } = false := by
    rw [inFlow, openKeys]
    split <;> rfl
  simp only [plainScalar, saveKey_of_none hkeys, bind, Except.bind, hflow, hread, push]

theorem keyToken_eq {read : Cursor → Except Stop (Token × Cursor)} {token : Token}
    (hkeys : s.keys = [none]) (hread : read s.cursor = .ok (token, c)) :
    s.keyToken read = .ok ⟨c, s.indent, s.outer, false, s.openKeys, token :: s.tokens⟩ := by
  simp only [keyToken, saveKey_of_none hkeys, bind, Except.bind, hread, push]

/-- Whether a character that `tail` starts with can follow a scalar. -/
def Delimits (tail : List Char) : Prop :=
  (∃ rest, tail = ':' :: rest ∧ isBlankOrEnd (rest.headD '\x00') = true) ∨ ∃ rest, tail = '\n' :: rest

theorem isPrefix_of_delimits {lead written : List Char} (htail : Delimits tail)
    (hlead : ∀ x ∈ lead, x ≠ ':' ∧ x ≠ '\n') (h : lead <+: written ++ tail) : lead <+: written := by
  induction written generalizing lead with
  | nil =>
    cases lead with
    | nil => exact List.nil_prefix
    | cons x lead =>
      rw [List.forall_mem_cons] at hlead
      obtain ⟨rest, rfl, -⟩ | ⟨rest, rfl⟩ := htail
      · exact absurd (List.cons_prefix_cons.mp h).1 hlead.1.1
      · exact absurd (List.cons_prefix_cons.mp h).1 hlead.1.2
  | cons y written ih =>
    cases lead with
    | nil => exact List.nil_prefix
    | cons x lead =>
      rw [List.forall_mem_cons] at hlead
      obtain ⟨hx, hrest⟩ := List.cons_prefix_cons.mp h
      exact List.cons_prefix_cons.mpr ⟨hx, ih hlead.2 hrest⟩

theorem take_ne_of_not_isPrefix (lead : List Char) {text : List Char} (h : ¬ lead <+: text) :
    text.take lead.length ≠ lead :=
  fun htake => h (htake ▸ List.take_prefix lead.length text)

/-- A scalar can follow an indentation. -/
theorem fresh_of_spelled {n : Nat} {written text : List Char} {plain : Bool}
    (h : Spelled n written text plain) (htail : Delimits tail) : Fresh (written ++ tail) := by
  cases h with
  | plain hopens hspells =>
    obtain ⟨x, rest, rfl, hx⟩ := hspells.exists_cons
    refine ⟨?_, ?_, ?_, ?_⟩
    · rintro y ⟨⟩
      exact hx
    · rintro ⟨⟩
      exact absurd (hopens.leading '#' rfl) (by decide)
    · exact take_ne_of_not_isPrefix ['-', '-', '-'] fun h =>
        hopens.marker.1 (isPrefix_of_delimits htail (by simp) h)
    · exact take_ne_of_not_isPrefix ['.', '.', '.'] fun h =>
        hopens.marker.2 (isPrefix_of_delimits htail (by simp) h)
  | quoted double hspells =>
    cases double with
    | false =>
      exact ⟨by simp [Quoted.quote, IsGraphic, IsPrintable], by simp [Quoted.quote],
        by simp [Quoted.quote]⟩
    | true =>
      exact ⟨by simp [Quoted.quote, IsGraphic, IsPrintable], by simp [Quoted.quote],
        by simp [Quoted.quote]⟩

theorem dispatch_quoted {double : Bool} (h : s.cursor.rest = Quoted.quote double :: rest) :
    s.dispatch = (s.keyToken fun c =>
      (Quoted.read double c).map fun (text, c) => (.scalar text false, c)).map (false, ·) := by
  have hmarker : s.cursor.atMarker = false :=
    Cursor.not_atMarker_of_cons h (by cases double <;> decide)
  rw [dispatch]
  simp only [Cursor.peek_eq h, hmarker]
  cases double <;> simp [Quoted.quote, isEnd]

theorem dispatch_plain {n : Nat} {written text : List Char} (hopens : Opens written)
    (hspells : Plain.Spells n written text) (htail : Delimits tail) (hflow : s.inFlow = false)
    (h : s.cursor.rest = written ++ tail) : s.dispatch = s.plainScalar.map (false, ·) := by
  have hmarker : s.cursor.atMarker = false :=
    Fresh.not_atMarker (h ▸ fresh_of_spelled (.plain hopens hspells) htail)
  obtain ⟨x, rest, rfl, hx⟩ := hspells.exists_cons
  have hleading := hopens.leading x rfl
  simp only [Writer.isLeadingIndicator, List.contains_eq_mem, List.mem_cons, List.not_mem_nil,
    or_false, decide_eq_false_iff_not, not_or] at hleading
  have halone : x = '-' ∨ x = '?' ∨ x = ':' → s.standsAlone = false := by
    intro hx
    have hnext := hopens.alone x rest rfl hx
    cases rest with
    | nil => exact absurd hnext (by decide)
    | cons y rest => simpa [standsAlone, Cursor.peekAt, h] using hnext
  have hstarts : s.startsPlain = true := by
    by_cases hindicator : x = '-' ∨ x = '?' ∨ x = ':'
    · have hnext := halone hindicator
      rw [standsAlone] at hnext
      obtain rfl | rfl | rfl := hindicator <;>
        simp [startsPlain, Cursor.peek_eq h, hx.isBlankOrEnd, hnext, hflow]
    · rw [not_or, not_or] at hindicator
      simp [startsPlain, Cursor.peek_eq h, hx.isBlankOrEnd, isIndicator, hleading, hindicator]
  have hdash : (decide (x = '-') && s.standsAlone) = false := by
    rw [Bool.and_eq_false_imp, decide_eq_true_eq]
    intro h
    exact halone (.inl h)
  have hquestion : (decide (x = '?') && (s.inFlow || s.standsAlone)) = false := by
    rw [hflow, Bool.false_or, Bool.and_eq_false_imp, decide_eq_true_eq]
    intro h
    exact halone (.inr (.inl h))
  have hcolon : (decide (x = ':') && (s.inFlow || s.standsAlone)) = false := by
    rw [hflow, Bool.false_or, Bool.and_eq_false_imp, decide_eq_true_eq]
    intro h
    exact halone (.inr (.inr h))
  rw [dispatch]
  simp only [Cursor.peek_eq h, hmarker, hdash, hquestion, hcolon, hx.1.isEnd, hleading, hstarts,
    decide_false, Bool.false_and, Bool.and_false, Bool.false_eq_true, if_false, if_true]

/-- A scalar in front of a colon is read up to it. -/
theorem dispatch_key {n : Nat} {written text : List Char} {plain : Bool}
    (h : Spelled n written text plain) (hkeys : s.keys = [none])
    (hrest : s.cursor.rest = written ++ ':' :: tail) (htail : isBlankOrEnd (tail.headD '\x00') = true)
    (hn : 0 < n ∧ s.indent < n) (hindent : s.indent ≤ s.cursor.column) :
    s.dispatch = .ok (false, ⟨s.cursor.skip written.length, s.indent, s.outer, false, s.openKeys,
      .scalar text plain :: s.tokens⟩) := by
  have hflow : s.inFlow = false := by simp [inFlow, hkeys]
  cases h with
  | plain hopens hspells =>
    have hend := Plain.ends_colon (s.indent + 1) (Cursor.rest_skip_length hrest)
    have hread : Plain.read false (s.indent + 1) (s.cursor.rest.length + 1) s.cursor
        = (text, s.cursor.skip written.length, false) := by
      refine Plain.read_of_spells hspells hn.1 (by omega) hrest (Plain.word_colon htail) hend
        (by omega) ?_
      rw [hrest, List.length_append]
      omega
    rw [dispatch_plain hopens hspells (.inl ⟨tail, rfl, htail⟩) hflow hrest,
      plainScalar_eq hkeys hread]
    rfl
  | quoted double hspells =>
    have hread := Quoted.read_of_spells hspells hrest (by simp)
    rw [dispatch_quoted hrest, keyToken_eq hkeys (by rw [hread, Except.map])]
    rfl

/-- A scalar at the end of a line is read, and the next token is sought in the next line. -/
theorem dispatch_value {n k : Nat} {written text : List Char} {plain : Bool}
    (h : Spelled n written text plain) (hkeys : s.keys = [none])
    (hrest : s.cursor.rest = written ++ (newLine k ++ rest)) (hfresh : Fresh rest)
    (hn : 0 < n ∧ s.indent < n) (hindent : s.indent < s.cursor.column) (hk : k ≤ s.indent) :
    ∃ t, s.dispatch = .ok (false, t) ∧ t.cursor.rest.length < s.cursor.rest.length ∧
      t.prepare = .ok (unwind k ⟨s.cursor.skip (written.length + (k + 1)), s.indent, s.outer, true,
        [none], .scalar text plain :: s.tokens⟩) := by
  have hflow : s.inFlow = false := by simp [inFlow, hkeys]
  have hnext := Cursor.rest_skip_length hrest
  have hplace := Cursor.skip_newLine hnext
  have hopen := endsBy_openKeys hindent
  have hlines := Cursor.line_le_line_skip written.length s.cursor
  rw [← Cursor.skip_skip]
  cases h with
  | @plain written _ hopens hspells =>
    have hend := Plain.ends_newLine hnext hfresh (show (k : Int) < s.indent + 1 by omega)
    have hread : Plain.read false (s.indent + 1) (s.cursor.rest.length + 1) s.cursor
        = (text, (s.cursor.skip written.length).skip (k + 1), true) := by
      refine Plain.read_of_spells hspells hn.1 (by omega) hrest (Plain.word_of_isBlankOrEnd ?_) hend
        (by omega) ?_
      · rintro x ⟨⟩
        rfl
      · rw [hrest, List.length_append]
        omega
    have hdispatch := (dispatch_plain hopens hspells (.inr ⟨_, rfl⟩) hflow hrest).trans
      (congrArg (Except.map (false, ·)) (plainScalar_eq hkeys hread))
    refine ⟨_, hdispatch, ?_, ?_⟩
    · simp [hplace, hrest, newLine]
      omega
    · rw [hplace, prepare_fresh hfresh hopen (Nat.lt_succ_of_le hlines)]
  | @quoted double written _ hspells =>
    have hread := Quoted.read_of_spells hspells hrest (by simp [newLine])
    have htoken : ((Quoted.read double s.cursor).map fun (text, c) => (Token.scalar text false, c))
        = .ok (.scalar text false, s.cursor.skip (Quoted.quote double :: written).length) := by
      rw [hread]
      rfl
    have hdispatch := (dispatch_quoted hrest).trans
      (congrArg (Except.map (false, ·)) (keyToken_eq hkeys htoken))
    refine ⟨_, hdispatch, ?_, ?_⟩
    · dsimp only
      rw [hnext, hrest]
      simp only [List.cons_append, List.length_append, List.length_cons]
      omega
    · exact prepare_newLine hnext hfresh (hopen.mono hlines)

theorem dispatch_colon (h : s.cursor.rest = ':' :: tail)
    (htail : isBlankOrEnd (tail.headD '\x00') = true) :
    s.dispatch = s.value.map (false, ·) := by
  have hmarker : s.cursor.atMarker = false := Cursor.not_atMarker_of_cons h (by decide)
  have halone : s.standsAlone = true := by simpa [standsAlone, Cursor.peekAt, h] using htail
  rw [dispatch]
  simp [Cursor.peek_eq h, hmarker, halone, isEnd]

theorem dispatch_question (h : s.cursor.rest = '?' :: ' ' :: tail) :
    s.dispatch = s.complexKey.map (false, ·) := by
  have hmarker : s.cursor.atMarker = false := Cursor.not_atMarker_of_cons h (by decide)
  have halone : s.standsAlone = true := by simp [standsAlone, Cursor.peekAt, h, isBlankOrEnd, isSpaceOrEnd]
  rw [dispatch]
  simp [Cursor.peek_eq h, hmarker, halone, isEnd]

theorem dispatch_opening (h : s.cursor.rest = '\x7b' :: tail) :
    s.dispatch = (s.flowStart .flowMappingStart).map (false, ·) := by
  have hmarker : s.cursor.atMarker = false := Cursor.not_atMarker_of_cons h (by decide)
  rw [dispatch]
  simp [Cursor.peek_eq h, hmarker, isEnd]

theorem dispatch_closing (h : s.cursor.rest = '\x7d' :: tail) :
    s.dispatch = (s.flowEnd .flowMappingEnd).map (false, ·) := by
  have hmarker : s.cursor.atMarker = false := Cursor.not_atMarker_of_cons h (by decide)
  rw [dispatch]
  simp [Cursor.peek_eq h, hmarker, isEnd]

/-- At the end of the text the outermost mapping is closed. -/
theorem dispatch_end {tokens : List Token} (h : c.rest = []) :
    dispatch ⟨c, 0, [-1], true, [none], tokens⟩
      = .ok (true, ⟨c, -1, [], false, [none], .streamEnd :: .blockEnd :: tokens⟩) := by
  have hend : isEnd c.peek = true := by simp [Cursor.peek, h, isEnd]
  have hunwind : unwind (-1) ⟨c, 0, [-1], true, [none], tokens⟩
      = ⟨c, -1, [], true, [none], .blockEnd :: tokens⟩ := by
    rw [unwind_cons (by decide)]
    rfl
  rw [dispatch]
  simp [hend, leaveDocument, hunwind, dropKey, push, bind, Except.bind]

end Dispatch

section Blocks

/-- The state once a block mapping is open at a column. -/
def opened (column : Nat) (s : Lexer) : Lexer := s.openBlock column s.tokens.length .blockMappingStart

theorem opened_of_lt {column : Nat} (h : s.indent < column) :
    s.opened column = { s with
      indent := column, outer := s.indent :: s.outer, tokens := .blockMappingStart :: s.tokens } := by
  simp [opened, openBlock, h, insertAt]

theorem opened_of_eq {column : Nat} (h : s.indent = column) : s.opened column = s := by
  simp [opened, openBlock, h]

theorem indent_opened {column : Nat} (h : s.indent ≤ column) : (s.opened column).indent = column := by
  obtain h | h := Int.lt_or_eq_of_le h
  · rw [opened_of_lt h]
  · rw [opened_of_eq h, h]

/-- A colon after a simple key opens the key in front of it, and the mapping if it is the first. -/
theorem value_eq_of_key {key : PossibleKey} {token : Token} {allowKey : Bool}
    (hkey : key.token = s.tokens.length) (hcolumn : s.indent ≤ key.column) :
    value ⟨c, s.indent, s.outer, allowKey, [some key], token :: s.tokens⟩
      = .ok ⟨c.next, (s.opened key.column).indent, (s.opened key.column).outer, false, [none],
          .value :: token :: .key :: (s.opened key.column).tokens⟩ := by
  by_cases hlt : s.indent < key.column
  · rw [opened_of_lt hlt]
    have htwo : s.tokens.length + 1 + 1 - s.tokens.length = 2 := by omega
    simp [value, inFlow, insertAt, hkey, openBlock, hlt, indicator, push, htwo]
  · have heq : s.indent = key.column := by omega
    rw [opened_of_eq heq]
    simp [value, inFlow, insertAt, hkey, openBlock, hlt, indicator, push]

theorem value_eq_of_complexKey (hkeys : s.keys = [none]) (hallow : s.allowKey = true)
    (hindent : s.indent = s.cursor.column) :
    s.value = .ok ⟨s.cursor.next, s.indent, s.outer, true, [none], .value :: s.tokens⟩ := by
  simp [value, hkeys, inFlow, hallow, openBlock, hindent, dropKey, indicator, push, bind, Except.bind]

/-- A colon where no key can have started is a flaw. -/
theorem value_eq_error (hkeys : s.keys = [none]) (hallow : s.allowKey = false) :
    s.value = .error .malformed := by
  simp [value, hkeys, inFlow, hallow]

theorem complexKey_eq (hkeys : s.keys = [none]) (hallow : s.allowKey = true) :
    s.complexKey = .ok ⟨s.cursor.next, (s.opened s.cursor.column).indent,
      (s.opened s.cursor.column).outer, true, [none], .key :: (s.opened s.cursor.column).tokens⟩ := by
  have hflow : s.inFlow = false := by simp [inFlow, hkeys]
  have hopen : (s.opened s.cursor.column).keys = [none] ∧
      (s.opened s.cursor.column).cursor = s.cursor := by
    rw [opened, openBlock]
    split <;> exact ⟨hkeys, rfl⟩
  have hopenFlow : (s.opened s.cursor.column).inFlow = false := by simp [inFlow, hopen.1]
  rw [complexKey]
  simp only [hflow, hallow, Bool.not_false, Bool.not_true, Bool.and_false, Bool.false_eq_true,
    if_false]
  rw [← opened]
  simp [hopenFlow, hopen, dropKey, indicator, push, bind, Except.bind]

end Blocks

section Runs

/-- Reading comes to a result wherever it comes to a place. -/
def Runs (s : Lexer) (r : Result) : Prop :=
  ∀ t fuel, t.prepare = .ok s → s.cursor.rest.length < fuel → run fuel t = r

/-- Reading comes to a result from the place that it goes to next. -/
def Leads (t : Lexer) (r : Result) : Prop := ∃ s, t.prepare = .ok s ∧ Runs s r

variable {r : Result}

theorem step_of_prepare (h : t.prepare = .ok s) : t.step = s.dispatch := by
  simp only [step, h, bind, Except.bind]

/-- Reading comes to what it comes to after the step that is taken here. -/
theorem Runs.of_dispatch
    (h : ∀ t fuel, s.cursor.rest.length ≤ fuel → conclude t (run fuel) s.dispatch = r) :
    Runs s r := by
  intro t fuel hprepare hfuel
  obtain ⟨fuel, rfl⟩ := Nat.exists_eq_add_one.mpr (Nat.zero_lt_of_lt hfuel)
  rw [run, step_of_prepare hprepare]
  exact h t fuel (Nat.le_of_lt_succ hfuel)

/-- A token is read, and reading goes on. -/
theorem Runs.next (hdispatch : s.dispatch = .ok (false, t))
    (hlength : t.cursor.rest.length < s.cursor.rest.length) (h : Leads t r) : Runs s r := by
  apply Runs.of_dispatch
  intro t₀ fuel hfuel
  obtain ⟨u, hprepare, hruns⟩ := h
  have hshorter := length_of_prepare hprepare
  rw [hdispatch, conclude]
  exact hruns t fuel hprepare (by omega)

/-- A token is read in the way that its first character calls for. -/
theorem Runs.handled {handling : Except Stop Lexer} (hdispatch : s.dispatch = handling.map (false, ·))
    (hhandling : handling = .ok t) (hlength : t.cursor.rest.length < s.cursor.rest.length)
    (h : Leads t r) : Runs s r :=
  .next (hdispatch.trans (congrArg (Except.map (false, ·)) hhandling)) hlength h

/-- The text has ended. -/
theorem Runs.finish (hdispatch : s.dispatch = .ok (true, t)) : Runs s (t.tokens.reverse, none) := by
  apply Runs.of_dispatch
  intro t₀ fuel _
  rw [hdispatch, conclude]

/-- A token is read, and reading stops in front of the next one. -/
theorem Runs.stopped {stop : Stop} (hdispatch : s.dispatch = .ok (false, t))
    (hlength : t.cursor.rest.length < s.cursor.rest.length) (hstep : t.step = .error stop) :
    Runs s (t.stopped stop) := by
  apply Runs.of_dispatch
  intro t₀ fuel hfuel
  obtain ⟨fuel, rfl⟩ := Nat.exists_eq_add_one.mpr (show 0 < fuel by omega)
  rw [hdispatch, conclude, run, hstep, conclude]

end Runs

section LongKeys

/-- The tokens that are decided where a key with the token `t` turns out to be too long. -/
def beforeLongKey (t : Token) (s : Lexer) : List Token :=
  if s.keyHere.required then s.tokens.reverse else s.tokens.reverse ++ [t]

/-- Where a key is too long, what is decided is what came before it, unless it need not be a key. -/
theorem stopped_longKey {t : Lexer} {token : Token} (hkeys : t.keys = [some s.keyHere])
    (htokens : t.tokens = token :: s.tokens) (hstale : t.isStale s.keyHere = true) :
    t.stopped .malformed = (s.beforeLongKey token, some .malformed) := by
  have hplace : s.keyHere.token = s.tokens.length := rfl
  by_cases hrequired : s.keyHere.required = true
  · have hdecided : t.decided = s.tokens.reverse := by
      simp [decided, hkeys, htokens, hplace]
    rw [stopped, dropStale_of_required hkeys hstale hrequired, beforeLongKey, if_pos hrequired]
    dsimp only
    rw [hdecided]
  · have hdrop := dropStale_of_isStale hkeys hstale (Bool.not_eq_true _ ▸ hrequired)
    rw [stopped, hdrop, beforeLongKey, if_neg hrequired]
    simp [decided, htokens, List.take_of_length_le]

end LongKeys

end ContextConfig.Yaml.Lexer
