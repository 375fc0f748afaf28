import ContextConfig.Document.Json
import ContextConfig.Proofs.Json.Codec
import ContextConfig.Proofs.Yaml.Flow.Strings
import ContextConfig.Proofs.Yaml.Tokens
/-!
# The tokens of a printed JSON document

A document that is printed as JSON in lines is read as flow mappings. A string in front of a colon
is a simple key only if it is short enough; where it is not, the colon still is a token of its own,
and nothing is missed. So the text always comes to tokens, and never to a fault.
-/

namespace ContextConfig.Yaml.Flow

open Document (Writable textual record record_eq)
open Json (print printString)
open Lexer
open Writer (spaces newLine keyChars)

/-- Whether a name in quotes ends where a key has to. -/
def isShort (name : List Char) : Bool := (printString name).length ≤ maxKeyLength

/-- The tokens of a name with its colon. -/
def keyTokens (name : List Char) : List Token :=
  if isShort name then [.key, .scalar (unpaired name) false, .value]
  else [.scalar (unpaired name) false, .value]

mutual

/-- The tokens of a document in flow style. -/
def flowTokens : Document → List Token
  | .null | .other _ => [.scalar "null".toList true]
  | .bool true => [.scalar "true".toList true]
  | .bool false => [.scalar "false".toList true]
  | .text content => [.scalar (unpaired content.toList) false]
  | .mapping entries => .flowMappingStart :: fieldTokens true entries ++ [.flowMappingEnd]

/-- The tokens of the entries of a mapping; a comma stands in front of all but the first. -/
def fieldTokens (first : Bool) : List (Key × Document) → List Token
  | [] => []
  | (key, document) :: rest =>
    (if first then [] else [.flowEntry]) ++ keyTokens (keyChars key) ++ flowTokens document
      ++ fieldTokens false rest

end

section Layout

variable {depth : Nat}

/-- A field as it is printed. -/
def fieldChars (depth : Nat) (field : String × Document) : List Char :=
  printString field.1.toList ++ ':' :: ' ' :: print (.indented 2) depth field.2.toJson

/-- The fields after the first one as they are printed. -/
def moreChars (depth : Nat) : List (String × Document) → List Char
  | [] => []
  | field :: fields =>
    ',' :: (newLine (2 * depth) ++ (fieldChars depth field ++ moreChars depth fields))

theorem printFields_eq (fields : List (String × Document)) :
    Json.printFields (.indented 2) depth (fields.map fun field => (field.1, field.2.toJson))
      = moreChars depth fields := by
  induction fields with
  | nil => rfl
  | cons field fields ih =>
    rw [List.map_cons, Json.printFields, ih, moreChars]
    simp [fieldChars, Json.Layout.comma, Json.Layout.lineBreak, newLine, spaces]

theorem print_record (first : String × Document) (more : List (String × Document)) :
    print (.indented 2) depth (record (first :: more)).toJson
      = '\x7b' :: (newLine (2 * (depth + 1)) ++ (fieldChars (depth + 1) first
        ++ (moreChars (depth + 1) more ++ (newLine (2 * depth) ++ ['\x7d'])))) := by
  rw [record_eq, Document.toJson, Document.entriesToJson_textual, List.map_cons, print,
    printFields_eq]
  simp [fieldChars, Json.Layout.lineBreak, newLine, spaces]

end Layout

section States

variable {n k : Nat} {c : Cursor} {allowKey : Bool} {rest : List Char} {tokens : List Token}

/-- The lexer inside flow mappings, where no simple key may have started. -/
def flowing (n : Nat) (c : Cursor) (allowKey : Bool) (tokens : List Token) : Lexer :=
  ⟨c, -1, [], allowKey, List.replicate (n + 1) none, tokens⟩

@[simp] theorem cursor_flowing : (flowing n c allowKey tokens).cursor = c := rfl

theorem inFlow_flowing : (flowing (n + 1) c allowKey tokens).inFlow = true := by
  simp [flowing, inFlow]

theorem indent_flowing (column : Nat) : (flowing n c allowKey tokens).indent ≤ column := by
  simp only [flowing]
  omega

theorem prepare_flowing_spaces (hrest : c.rest = spaces k ++ rest) (hfresh : Fresh rest) :
    (flowing n c allowKey tokens).prepare = .ok (flowing n (c.skip k) allowKey tokens) := by
  refine prepare_spaces hrest hfresh ?_ (indent_flowing _)
  intro key hkey k hk
  rw [List.eq_of_mem_replicate hkey] at hk
  cases hk

theorem prepare_flowing (hfresh : Fresh c.rest) :
    (flowing n c allowKey tokens).prepare = .ok (flowing n c allowKey tokens) :=
  prepare_flowing_spaces (k := 0) rfl hfresh

/-- Keys that need not be keys are given up once they are stale. -/
theorem dropStale_of_not_required {s : Lexer} (h : ∀ key ∈ s.keys, ∀ k ∈ key, k.required = false) :
    s.dropStale = .ok { s with
      keys := s.keys.map fun key => if key.any (s.isStale ·) then none else key } := by
  have hrequired :
      (s.keys.any fun key => key.any (s.isStale ·) && key.any (·.required)) = false := by
    rw [List.any_eq_false]
    intro key hkey
    cases key with
    | none => simp
    | some k => simp [h (some k) hkey k rfl]
  simp only [dropStale, hrequired, Bool.false_eq_true, if_false]

/-- In a flow collection a new line allows no key where none was allowed. -/
theorem prepare_flowing_line (hrest : c.rest = newLine k ++ rest) (hfresh : Fresh rest) :
    (flowing (n + 1) c allowKey tokens).prepare
      = .ok (flowing (n + 1) (c.skip (k + 1)) allowKey tokens) := by
  have hdrop : (flowing (n + 1) (c.skip (k + 1)) allowKey tokens).dropStale
      = .ok (flowing (n + 1) (c.skip (k + 1)) allowKey tokens) := by
    refine dropStale_of_not_isStale fun key hkey k hk => ?_
    rw [List.eq_of_mem_replicate hkey] at hk
    cases hk
  rw [prepare_line hrest hfresh, inFlow_flowing]
  simp only [Bool.not_true, Bool.or_false]
  exact (congrArg (Except.map _) hdrop).trans (congrArg Except.ok (unwind_of_le (indent_flowing _)))

/-- The lexer behind a string that a key may have started with. -/
def pending (n : Nat) (key : PossibleKey) (c : Cursor) (tokens : List Token) : Lexer :=
  ⟨c, -1, [], false, some key :: List.replicate (n + 1) none, tokens⟩

/-- In front of a colon a key is given up exactly if it is too long. -/
theorem prepare_pending {key : PossibleKey} (hfresh : Fresh c.rest)
    (hrequired : key.required = false) (hline : key.line = c.line) : (pending n key c tokens).prepare
    = .ok (if c.index ≤ key.index + maxKeyLength then pending n key c tokens
        else flowing (n + 1) c false tokens) := by
  have hstale : (pending n key c tokens).isStale key
      = !decide (c.index ≤ key.index + maxKeyLength) := by
    have hsame : ¬ c.line ≠ (pending n key c tokens).cursor.line := not_not_intro rfl
    rw [isStale, hline, decide_eq_false hsame, Bool.false_or, ← decide_not]
    exact decide_eq_decide.mpr Nat.not_le.symm
  have hdrop : (pending n key c tokens).dropStale = .ok (if c.index ≤ key.index + maxKeyLength
      then pending n key c tokens else flowing (n + 1) c false tokens) := by
    rw [dropStale_of_not_required (by simp [pending, hrequired])]
    simp only [pending, flowing] at hstale ⊢
    split <;> simp_all [List.replicate_succ]
  have hunwind (s : Lexer) (hindent : s.indent = -1) (column : Nat) : unwind column s = s :=
    unwind_of_le (by omega)
  refine (prepare_eq (n := 0) rfl hfresh).trans ((congrArg (Except.map _) hdrop).trans ?_)
  split
  · exact congrArg Except.ok (hunwind _ rfl _)
  · exact congrArg Except.ok (hunwind _ rfl _)

/-- A string in front of which a key may start. -/
theorem dispatch_keyString {text : List Char} (hrest : c.rest = printString text ++ rest) :
    (flowing (n + 1) c true tokens).dispatch = .ok (false,
      pending n ⟨tokens.length, false, c.index, c.line, c.column⟩
        (c.skip (printString text).length) (.scalar (unpaired text) false :: tokens)) := by
  have hread := read_printString hrest
  have hquote : c.rest = Quoted.quote true
      :: ((text.flatMap Json.escapedChar ++ ['\x22']) ++ rest) := hrest
  rw [dispatch_quoted (s := flowing (n + 1) c true tokens) hquote]
  simp [keyToken, saveKey, flowing, dropKey, inFlow, List.replicate_succ, hread, Except.map, bind,
    Except.bind, push, pending]

/-- A string where no key may start. -/
theorem dispatch_string {text : List Char} (hrest : c.rest = printString text ++ rest) :
    (flowing (n + 1) c false tokens).dispatch = .ok (false,
      flowing (n + 1) (c.skip (printString text).length) false
        (.scalar (unpaired text) false :: tokens)) := by
  have hread := read_printString hrest
  have hquote : c.rest = Quoted.quote true
      :: ((text.flatMap Json.escapedChar ++ ['\x22']) ++ rest) := hrest
  rw [dispatch_quoted (s := flowing (n + 1) c false tokens) hquote]
  simp [keyToken, saveKey, flowing, hread, Except.map, bind, Except.bind, push]

/-- A colon behind a string makes it a key. -/
theorem value_pending {token : Token} {index line column : Nat} :
    (pending n ⟨tokens.length, false, index, line, column⟩ c (token :: tokens)).value
      = .ok (flowing (n + 1) c.next false (.value :: token :: .key :: tokens)) := by
  simp [Lexer.value, pending, insertAt, inFlow, indicator, push, flowing, List.replicate_succ]

/-- A colon where no key has started. -/
theorem value_flowing :
    (flowing (n + 1) c false tokens).value
      = .ok (flowing (n + 1) c.next false (.value :: tokens)) := by
  simp [Lexer.value, flowing, inFlow, dropKey, indicator, push, List.replicate_succ, bind,
    Except.bind]

theorem flowEntry_flowing :
    (flowing (n + 1) c allowKey tokens).flowEntry
      = .ok (flowing (n + 1) c.next true (.flowEntry :: tokens)) := by
  simp [Lexer.flowEntry, flowing, dropKey, indicator, push, List.replicate_succ, bind, Except.bind]

theorem flowStart_flowing (token : Token) :
    (flowing (n + 1) c false tokens).flowStart token
      = .ok (flowing (n + 2) c.next true (token :: tokens)) := by
  simp [Lexer.flowStart, saveKey, flowing, indicator, push, List.replicate_succ, bind, Except.bind]

theorem flowEnd_flowing (token : Token) :
    (flowing (n + 1) c allowKey tokens).flowEnd token
      = .ok (flowing n c.next false (token :: tokens)) :=
  flowEnd_eq rfl (by simp) token

theorem dispatch_comma {s : Lexer} (h : s.cursor.rest = ',' :: rest) :
    s.dispatch = s.flowEntry.map (false, ·) := by
  have hmarker : s.cursor.atMarker = false := Cursor.not_atMarker_of_cons h (by decide)
  rw [dispatch]
  simp [Cursor.peek_eq h, hmarker, isEnd]

theorem dispatch_letter {s : Lexer} {x : Char} (h : s.cursor.rest = x :: rest)
    (hx : x = 't' ∨ x = 'f') : s.dispatch = s.plainScalar.map (false, ·) := by
  have hmarker : s.cursor.atMarker = false :=
    Cursor.not_atMarker_of_cons h (by obtain rfl | rfl := hx <;> decide)
  rw [dispatch]
  obtain rfl | rfl := hx <;>
    simp [Cursor.peek_eq h, hmarker, isEnd, startsPlain, isBlankOrEnd, isSpaceOrEnd, isBreakOrEnd,
      isBreak, isIndicator]

end States

section Values

variable {n depth : Nat} {c : Cursor} {allowKey : Bool} {tail rest : List Char}
  {tokens : List Token} {r : Result}

/-- What can follow a value in a mapping, and the token that it leads to: a comma, or the closing
brace in the next line. -/
inductive Follows : List Char → List Char → Prop where
  | comma (more : List Char) : Follows (',' :: more) (',' :: more)
  | closing (k : Nat) (more : List Char) : Follows (newLine k ++ '\x7d' :: more) ('\x7d' :: more)

theorem Follows.fresh (h : Follows tail rest) : Fresh rest := by
  cases h with
  | comma more => exact ⟨by simp [IsGraphic, IsPrintable], by simp, by simp⟩
  | closing k more => exact fresh_closing

theorem Follows.length_le (h : Follows tail rest) : rest.length ≤ tail.length := by
  cases h with
  | comma more => exact Nat.le_refl _
  | closing k more =>
    rw [List.length_append]
    exact Nat.le_add_left _ _

/-- The lexer gets from a value to the token behind it. -/
theorem leads_follows (h : Follows tail rest) (hrest : c.rest = tail)
    (hnext : ∀ d : Cursor, d.rest = rest → Runs (flowing (n + 1) d allowKey tokens) r) :
    Leads (flowing (n + 1) c allowKey tokens) r := by
  have hfresh := h.fresh
  cases h with
  | comma more => exact ⟨_, prepare_flowing (hrest ▸ hfresh), hnext c hrest⟩
  | closing k more =>
    exact ⟨_, prepare_flowing_line hrest hfresh, hnext _ (by rw [Cursor.skip_newLine hrest])⟩

theorem Follows.word_eq_nil (h : Follows tail rest) : Plain.word true rest = [] := by
  cases h <;> simp [Plain.word, isBlankOrEnd, isSpaceOrEnd, isBreakOrEnd, isBreak, isEnd]

/-- The space behind a plain scalar leads to the token behind it. -/
theorem Follows.space (h : Follows tail rest) (hrest : c.rest = tail) :
    ∃ gap d broke, Plain.space c = (gap, d, broke) ∧ d.rest = rest := by
  cases h with
  | comma more =>
    exact ⟨_, _, _, Plain.space_blanks (n := 0) hrest ⟨_, _, rfl, by decide⟩, hrest⟩
  | closing k more =>
    refine ⟨_, _, _, Plain.space_newLine hrest fresh_closing.graphic (.inr fresh_closing), ?_⟩
    rw [Cursor.skip_newLine hrest]

/-- A plain scalar of one word, with no other word behind it. -/
theorem read_word {limit : Int} {fuel : Nat} {w gap : List Char} {d : Cursor} {broke : Bool}
    (hword : Plain.word true c.rest = w) (hne : w ≠ [])
    (hspace : Plain.space (c.skip w.length) = (gap, d, broke))
    (hend : Plain.word true d.rest = []) :
    Plain.read true limit (fuel + 1) c = (w, d, broke) := by
  rw [Plain.read, hword]
  split
  case h_1 => exact absurd rfl hne
  case h_2 =>
    simp only [hspace, hend]
    split <;> rfl

theorem word_switch {word : List Char} (hword : word ∈ ["true".toList, "false".toList])
    (h : Follows tail rest) : Plain.word true (word ++ tail) = word := by
  simp only [List.mem_cons, List.not_mem_nil, or_false] at hword
  cases h <;> obtain rfl | rfl := hword <;>
    simp [Plain.word, isBlankOrEnd, isSpaceOrEnd, isBreakOrEnd, isBreak, isEnd, newLine]

/-- A value is read from the blank in front of it up to the token behind it. -/
def Passes (document : Document) : Prop :=
  ∀ ⦃n depth : Nat⦄ ⦃c : Cursor⦄ ⦃tokens : List Token⦄ ⦃tail rest : List Char⦄ ⦃r : Result⦄,
    c.rest = ' ' :: (print (.indented 2) depth document.toJson ++ tail) → Follows tail rest →
    (∀ (d : Cursor) allowKey, d.rest = rest →
      Runs (flowing (n + 1) d allowKey ((flowTokens document).reverse ++ tokens)) r) →
    Leads (flowing (n + 1) c false tokens) r

theorem prepare_flowing_space (hrest : c.rest = ' ' :: rest) (hfresh : Fresh rest) :
    (flowing n c allowKey tokens).prepare = .ok (flowing n c.next allowKey tokens) :=
  prepare_flowing_spaces (k := 1) hrest hfresh

theorem passes_text (content : String) : Passes (.text content) := by
  intro n depth c tokens tail rest r hrest hfollows hnext
  have hplace := Cursor.next_printable (by decide) hrest
  have hstring : c.next.rest = printString content.toList ++ tail := by rw [hplace]; rfl
  have hfresh : Fresh (printString content.toList ++ tail) :=
    ⟨by simp [printString, IsGraphic, IsPrintable], by simp [printString], by simp [printString]⟩
  refine ⟨_, prepare_flowing_space hrest hfresh, .next (dispatch_string hstring) ?_ ?_⟩
  · have hlength : 0 < (printString content.toList).length := by simp [printString]
    simp only [cursor_flowing, Cursor.rest_skip, List.length_drop, hstring, List.length_append]
    omega
  · exact leads_follows hfollows (Cursor.rest_skip_length hstring) fun d hd => hnext d false hd

/-- A switch is read with the space behind it. -/
theorem leads_switch {word : List Char} (hword : word ∈ ["true".toList, "false".toList])
    (hrest : c.rest = ' ' :: (word ++ tail)) (hfollows : Follows tail rest)
    (hnext : ∀ (d : Cursor) allowKey, d.rest = rest →
      Runs (flowing (n + 1) d allowKey (.scalar word true :: tokens)) r) :
    Leads (flowing (n + 1) c false tokens) r := by
  have hletter : ∃ x letters, word = x :: letters ∧ (x = 't' ∨ x = 'f') := by
    simp only [List.mem_cons, List.not_mem_nil, or_false] at hword
    obtain rfl | rfl := hword
    · exact ⟨_, _, rfl, .inl rfl⟩
    · exact ⟨_, _, rfl, .inr rfl⟩
  obtain ⟨x, letters, rfl, hx⟩ := hletter
  have hplace := Cursor.next_printable (by decide) hrest
  have hstart : c.next.rest = (x :: letters) ++ tail := by rw [hplace]
  have hfresh : Fresh ((x :: letters) ++ tail) := by
    obtain rfl | rfl := hx <;> exact ⟨by simp [IsGraphic, IsPrintable], by simp, by simp⟩
  obtain ⟨gap, d, broke, hspace, hd⟩ := hfollows.space (Cursor.rest_skip_length hstart)
  have hread : Plain.read true 0 (c.next.rest.length + 1) c.next = (x :: letters, d, broke) :=
    read_word (hstart ▸ word_switch hword hfollows) (List.cons_ne_nil x letters) hspace
      (hd ▸ hfollows.word_eq_nil)
  have hscalar : (flowing (n + 1) c.next false tokens).plainScalar
      = .ok (flowing (n + 1) d broke (.scalar (x :: letters) true :: tokens)) := by
    have hflow := @inFlow_flowing n c.next false tokens
    simp only [flowing] at hflow ⊢
    simp [plainScalar, saveKey, hflow, hread, bind, Except.bind, push]
  refine ⟨_, prepare_flowing_space hrest hfresh, .handled (dispatch_letter hstart hx) hscalar ?_
    ⟨_, prepare_flowing (hd ▸ hfollows.fresh), hnext d broke hd⟩⟩
  have hlength := hfollows.length_le
  simp only [cursor_flowing, hd, hstart, List.length_append, List.length_cons]
  omega

theorem passes_bool (flag : Bool) : Passes (.bool flag) := by
  intro n depth c tokens tail rest r hrest hfollows hnext
  have htrue : "true".toList ∈ ["true".toList, "false".toList] := by decide
  have hfalse : "false".toList ∈ ["true".toList, "false".toList] := by decide
  cases flag with
  | true => exact leads_switch htrue hrest hfollows hnext
  | false => exact leads_switch hfalse hrest hfollows hnext

/-- A name is read with its colon, as a key if it is short enough. -/
theorem runs_key {name : List Char} (hrest : c.rest = printString name ++ ':' :: ' ' :: rest)
    (hnext : ∀ d : Cursor, d.rest = ' ' :: rest →
      Leads (flowing (n + 1) d false ((keyTokens name).reverse ++ tokens)) r) :
    Runs (flowing (n + 1) c true tokens) r := by
  have hplace := Cursor.skip_printable (printable_printString name) hrest
  have hcolon : (c.skip (printString name).length).rest = ':' :: ' ' :: rest :=
    Cursor.rest_skip_length hrest
  have hbehind : (c.skip (printString name).length).next.rest = ' ' :: rest := by
    rw [Cursor.rest_next, hcolon]
    rfl
  have hshorter : (c.skip (printString name).length).rest.length < c.rest.length := by
    rw [hcolon, hrest, printString]
    simp only [List.cons_append, List.length_cons, List.length_append]
    omega
  have hpast : (c.skip (printString name).length).next.rest.length
      < (c.skip (printString name).length).rest.length := by
    rw [hbehind, hcolon]
    exact Nat.lt_succ_self _
  refine .next (dispatch_keyString hrest) hshorter ⟨_, prepare_pending (hcolon ▸ fresh_colon) rfl
    (by rw [hplace]), ?_⟩
  have hshort : (c.skip (printString name).length).index ≤ c.index + maxKeyLength
      ↔ isShort name = true := by
    rw [hplace, isShort, decide_eq_true_eq]
    exact Nat.add_le_add_iff_left
  have hnext := hnext _ hbehind
  simp only [hshort]
  rw [keyTokens] at hnext
  split
  case isTrue h =>
    rw [if_pos h] at hnext
    exact .handled (dispatch_colon hcolon rfl) value_pending hpast hnext
  case isFalse h =>
    rw [if_neg h] at hnext
    exact .handled (dispatch_colon hcolon rfl) value_flowing hpast hnext

end Values

section Mappings

variable {n depth k : Nat} {c : Cursor} {rest : List Char} {tokens : List Token} {r : Result}

theorem fresh_fieldChars {field : String × Document} : Fresh (fieldChars depth field ++ rest) :=
  ⟨by simp [fieldChars, printString, IsGraphic, IsPrintable], by simp [fieldChars, printString],
    by simp [fieldChars, printString]⟩

theorem fieldTokens_cons (entry : Key × Document) (entries : List (Key × Document)) :
    fieldTokens false (entry :: entries) = .flowEntry :: fieldTokens true (entry :: entries) := rfl

/-- A field is read up to the token behind it. -/
theorem runs_field {field : String × Document} {tail : List Char} (h : Passes field.2)
    (hrest : c.rest = fieldChars depth field ++ tail) (hfollows : Follows tail rest)
    (hnext : ∀ (d : Cursor) allowKey, d.rest = rest → Runs (flowing (n + 1) d allowKey
      ((flowTokens field.2).reverse ++ ((keyTokens field.1.toList).reverse ++ tokens))) r) :
    Runs (flowing (n + 1) c true tokens) r := by
  have hkey : c.rest = printString field.1.toList ++ ':' :: ' '
      :: (print (.indented 2) depth field.2.toJson ++ tail) := by
    rw [hrest, fieldChars, List.append_assoc]
    rfl
  exact runs_key hkey fun d hd => h hd hfollows hnext

/-- The fields of a mapping are read up to its closing brace. -/
theorem runs_fields {first : String × Document} {more : List (String × Document)}
    (heach : ∀ field ∈ first :: more, Passes field.2)
    (hrest : c.rest =
      fieldChars depth first ++ (moreChars depth more ++ (newLine k ++ '\x7d' :: rest)))
    (hnext : ∀ (d : Cursor) allowKey, d.rest = '\x7d' :: rest →
      Runs (flowing (n + 1) d allowKey
        ((fieldTokens true (textual (first :: more))).reverse ++ tokens)) r) :
    Runs (flowing (n + 1) c true tokens) r := by
  induction more generalizing first c tokens with
  | nil =>
    refine runs_field (heach first (by simp)) hrest (.closing k rest) fun d allowKey hd => ?_
    simpa [textual, fieldTokens, keyChars] using hnext d allowKey hd
  | cons second more ih =>
    have hcomma : moreChars depth (second :: more) ++ (newLine k ++ '\x7d' :: rest)
        = ',' :: (newLine (2 * depth) ++ (fieldChars depth second
          ++ (moreChars depth more ++ (newLine k ++ '\x7d' :: rest)))) := by
      simp [moreChars]
    rw [hcomma] at hrest
    refine runs_field (heach first (by simp)) hrest (.comma _) fun d allowKey hd => ?_
    have hplace := Cursor.next_printable (by decide) hd
    have hline := Cursor.skip_newLine (congrArg Cursor.rest hplace)
    refine .handled (dispatch_comma hd) flowEntry_flowing ?_
      ⟨_, prepare_flowing_line (congrArg Cursor.rest hplace) fresh_fieldChars, ?_⟩
    · rw [cursor_flowing, cursor_flowing, hplace, hd]
      exact Nat.lt_succ_self _
    · refine ih (fun field hfield => heach field (List.mem_cons_of_mem _ hfield))
        (congrArg Cursor.rest hline) fun e allowKey he => ?_
      simpa [textual, fieldTokens, keyChars] using hnext e allowKey he

/-- A mapping is read from the line break behind its opening brace up to its closing brace. -/
theorem leads_mapping {s : Lexer} {first : String × Document} {more : List (String × Document)}
    (heach : ∀ field ∈ first :: more, Passes field.2)
    (hopen : s.prepare = .ok (flowing (n + 1) c true (.flowMappingStart :: tokens)))
    (hrest : c.rest =
      fieldChars depth first ++ (moreChars depth more ++ (newLine k ++ '\x7d' :: rest)))
    (hnext : ∀ d : Cursor, d.rest = rest →
      Leads (flowing n d false ((flowTokens (record (first :: more))).reverse ++ tokens)) r) :
    Leads s r := by
  refine ⟨_, hopen, runs_fields heach hrest fun d allowKey hd => ?_⟩
  have hplace := Cursor.next_printable (by decide) hd
  refine .handled (dispatch_closing hd) (flowEnd_flowing _) ?_ ?_
  · rw [cursor_flowing, cursor_flowing, hplace, hd]
    exact Nat.lt_succ_self _
  · simpa [record_eq, flowTokens] using hnext d.next (by rw [hplace])

theorem passes_empty : Passes (record []) := by
  intro n depth c tokens tail rest r hrest hfollows hnext
  have hblank := Cursor.next_printable (by decide) hrest
  have hbrace : c.next.rest = '\x7b' :: '\x7d' :: tail := by rw [hblank]; rfl
  have hopening := Cursor.next_printable (by decide) hbrace
  have hclose : c.next.next.rest = '\x7d' :: tail := by rw [hopening]
  have hclosing := Cursor.next_printable (by decide) hclose
  refine ⟨_, prepare_flowing_space hrest fresh_opening, .handled (dispatch_opening hbrace)
    (flowStart_flowing _) ?_ ⟨_, prepare_flowing (hclose ▸ fresh_closing),
      .handled (dispatch_closing hclose) (flowEnd_flowing _) ?_ ?_⟩⟩
  · rw [cursor_flowing, cursor_flowing, hbrace, hclose]
    exact Nat.lt_succ_self _
  · rw [cursor_flowing, cursor_flowing, hclose, hclosing]
    exact Nat.lt_succ_self _
  · exact leads_follows hfollows (by rw [hclosing]) fun d hd => hnext d false hd

theorem passes_record {first : String × Document} {more : List (String × Document)}
    (heach : ∀ field ∈ first :: more, Passes field.2) : Passes (record (first :: more)) := by
  intro n depth c tokens tail rest r hrest hfollows hnext
  rw [print_record] at hrest
  have hblank := Cursor.next_printable (by decide) hrest
  have hbrace := congrArg Cursor.rest hblank
  have hopening := Cursor.next_printable (by decide) hbrace
  have hbreak : c.next.next.rest = newLine (2 * (depth + 1)) ++ (fieldChars (depth + 1) first
      ++ (moreChars (depth + 1) more ++ (newLine (2 * depth) ++ '\x7d' :: tail))) := by
    rw [hopening]
    simp
  have hline := Cursor.skip_newLine hbreak
  refine ⟨_, prepare_flowing_space hrest fresh_opening,
    .handled (dispatch_opening hbrace) (flowStart_flowing _) ?_ ?_⟩
  · rw [cursor_flowing, cursor_flowing, hopening, hbrace]
    exact Nat.lt_succ_self _
  · exact leads_mapping heach (prepare_flowing_line hbreak fresh_fieldChars)
      (congrArg Cursor.rest hline) fun d hd =>
        leads_follows hfollows hd fun e he => hnext e false he

theorem passes_of_writable {depth : Nat} {document : Document} (h : Writable depth document) :
    Passes document := by
  induction h with
  | bool flag => exact passes_bool flag
  | text content => exact passes_text content
  | @record depth fields _ _ ih =>
    cases fields with
    | nil => exact passes_empty
    | cons field fields => exact passes_record ih

end Mappings

section Texts

variable {c : Cursor} {tokens : List Token}

/-- The end of the text behind the outermost mapping. -/
theorem leads_end (hrest : c.rest = ['\n']) :
    Leads (flowing 0 c false tokens) (tokens.reverse ++ [.streamEnd], none) := by
  have hprepare : (flowing 0 c false tokens).prepare = .ok (flowing 0 (c.skip 1) true tokens) :=
    (prepare_newLine (n := 0) hrest Fresh.nil (.inl rfl)).trans
      (congrArg Except.ok (unwind_of_le (show (-1 : Int) ≤ 0 by decide)))
  have hend : isEnd (c.skip 1).peek = true := by simp [Cursor.peek, hrest, isEnd]
  have hdispatch : (flowing 0 (c.skip 1) true tokens).dispatch
      = .ok (true, flowing 0 (c.skip 1) false (.streamEnd :: tokens)) := by
    rw [dispatch]
    simp [flowing, hend, leaveDocument, unwind, inFlow, unwindTo, dropKey, push, bind, Except.bind]
  refine ⟨_, hprepare, ?_⟩
  simpa [flowing] using Runs.finish hdispatch

/-- The lexer inside the outermost mapping: the key that its brace may have started is given up. -/
theorem prepare_outermost {k : Nat} {key : PossibleKey} {rest : List Char}
    (hrest : c.rest = newLine k ++ rest) (hfresh : Fresh rest) (hrequired : key.required = false)
    (hline : key.line = c.line) :
    prepare ⟨c, -1, [], true, [none, some key], tokens⟩
      = .ok (flowing 1 (c.skip (k + 1)) true tokens) := by
  have hplace := Cursor.skip_newLine hrest
  have hstale : isStale ⟨c.skip (k + 1), -1, [], true, [none, some key], tokens⟩ key = true := by
    rw [isStale, hplace, hline]
    simp
  have hdrop : dropStale ⟨c.skip (k + 1), -1, [], true, [none, some key], tokens⟩
      = .ok (flowing 1 (c.skip (k + 1)) true tokens) := by
    rw [dropStale_of_not_required (by simp [hrequired])]
    simp [hstale, flowing]
  refine (prepare_line hrest hfresh).trans ((congrArg (Except.map _) hdrop).trans ?_)
  exact congrArg Except.ok (unwind_of_le (indent_flowing _))

/-- A record that is printed in lines is read as its tokens. -/
theorem ofText_print {depth : Nat} {first : String × Document} {more : List (String × Document)}
    (h : ∀ field ∈ first :: more, Writable depth field.2) :
    Token.ofText (print (.indented 2) 0 (record (first :: more)).toJson ++ ['\n'])
      = (flowTokens (record (first :: more)) ++ [.streamEnd], none) := by
  have htext : print (.indented 2) 0 (record (first :: more)).toJson ++ ['\n']
      = '\x7b' :: (newLine 2 ++ (fieldChars 1 first
        ++ (moreChars 1 more ++ (newLine 0 ++ '\x7d' :: ['\n'])))) := by
    rw [print_record]
    simp
  generalize print (.indented 2) 0 (record (first :: more)).toJson ++ ['\n'] = text at htext ⊢
  generalize hs : flowing 0 ⟨text, 0, 0, 0⟩ true [] = s
  have hrest : s.cursor.rest = '\x7b' :: (newLine 2 ++ (fieldChars 1 first
      ++ (moreChars 1 more ++ (newLine 0 ++ '\x7d' :: ['\n'])))) := by
    rw [← hs]
    exact htext
  have hopening := Cursor.next_printable (by decide) hrest
  have hbreak := congrArg Cursor.rest hopening
  have hstart : s.flowStart .flowMappingStart = .ok ⟨s.cursor.next, -1, [], true,
      [none, some s.keyHere], [.flowMappingStart]⟩ := by
    rw [← hs]
    exact flowStart_eq rfl _
  have hrequired : s.keyHere.required = false := by simp [← hs, keyHere, flowing]
  have hopen : prepare ⟨s.cursor.next, -1, [], true, [none, some s.keyHere], [.flowMappingStart]⟩
      = .ok (flowing 1 (s.cursor.next.skip (2 + 1)) true [.flowMappingStart]) :=
    prepare_outermost hbreak fresh_fieldChars hrequired (by rw [hopening]; rfl)
  have hruns : Runs s (flowTokens (record (first :: more)) ++ [.streamEnd], none) := by
    refine .handled (dispatch_opening hrest) hstart ?_ ?_
    · rw [hopening, hrest]
      exact Nat.lt_succ_self _
    · refine leads_mapping (fun field hfield => passes_of_writable (h field hfield)) hopen
        (congrArg Cursor.rest (Cursor.skip_newLine hbreak)) fun d hd => ?_
      have hend : Leads (flowing 0 d false (flowTokens (record (first :: more))).reverse) _ :=
        leads_end hd
      simpa using hend
  have hprepare : s.prepare = .ok s := by
    rw [← hs]
    exact prepare_flowing (htext ▸ fresh_opening)
  have hfuel : s.cursor.rest.length < text.length + 2 := by
    rw [← hs]
    exact Nat.lt_add_of_pos_right (by decide)
  have hrun := hruns s (text.length + 2) hprepare hfuel
  rw [← hs] at hrun
  exact hrun

end Texts

end ContextConfig.Yaml.Flow
