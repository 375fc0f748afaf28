import ContextConfig.Proofs.Document
import ContextConfig.Proofs.Yaml.Hand
import ContextConfig.Proofs.Yaml.Step
/-!
# The tokens of a written document

A document that is written in block style is read as the tokens that its structure asks for, as
long as no key in it is too long. A key without a question mark is measured by its characters when
it is written, but by its written form when it is read, and escapes make that form longer. The first
such key makes the text malformed, and only the tokens in front of it are read.
-/

namespace ContextConfig.Yaml

open Document (Writable textual record record_eq)
open Writer

/-- Whether a key that is written without a question mark ends where it has to. -/
def fits (key : Key) : Bool :=
  !isSimpleKey (keyChars key)
    || (scalar .str true 0 0 (keyChars key)).length ≤ Lexer.maxKeyLength

/-- The token of a text. -/
def textToken (text : List Char) : Token := .scalar text (style .str text = .plain)

mutual

/-- The tokens of a document in block style. -/
def tokensOf : Document → List Token
  | .null | .other _ => [.scalar "null".toList true]
  | .bool true => [.scalar "true".toList true]
  | .bool false => [.scalar "false".toList true]
  | .text content => [textToken content.toList]
  | .mapping [] => [.flowMappingStart, .flowMappingEnd]
  | .mapping (entry :: rest) => .blockMappingStart :: entryTokens (entry :: rest) ++ [.blockEnd]

def entryTokens : List (Key × Document) → List Token
  | [] => []
  | (key, document) :: rest =>
    .key :: textToken (keyChars key) :: .value :: tokensOf document ++ entryTokens rest

end

mutual

/-- Whether all keys of a document end where they have to. -/
def isLegible : Document → Bool
  | .mapping entries => areLegible entries
  | _ => true

def areLegible : List (Key × Document) → Bool
  | [] => true
  | (key, document) :: rest => fits key && isLegible document && areLegible rest

end

mutual

/-- The tokens of a document up to the first key that is too long. A mapping is only opened once the
colon behind its first key is found. -/
def brokenTokens : Document → List Token
  | .mapping ((key, document) :: rest) =>
    if fits key then .blockMappingStart :: brokenEntries ((key, document) :: rest)
    else [textToken (keyChars key)]
  | _ => []

def brokenEntries : List (Key × Document) → List Token
  | [] => []
  | (key, document) :: rest =>
    if fits key then
      .key :: textToken (keyChars key) :: .value ::
        if isLegible document then tokensOf document ++ brokenEntries rest
        else brokenTokens document
    else []

end

namespace Lexer

variable {hand : Hand} {s : Lexer} {c : Cursor} {rest tail : List Char} {r : Result} {m k : Nat}
  {outer : List Int} {allowKey : Bool} {tokens : List Token}

/-- Reading goes on as `p` says where it can, and else it stops behind some tokens. -/
def Granted (legible : Bool) (r : Result) (broken : List Token) (p : Prop) : Prop :=
  if legible then p else r = (broken, some .malformed)

theorem Granted.mono {a : Bool} {broken : List Token} {p q : Prop} (h : Granted a r broken p)
    (hpq : p → q) : Granted a r broken q := by
  cases a with
  | true => exact hpq h
  | false => exact h

theorem isMultiline_of_isSimpleKey {text : List Char} (h : isSimpleKey text = true) :
    isMultiline text = false := by
  simp only [isSimpleKey, Bool.and_eq_true, Bool.not_eq_true'] at h
  exact h.2

theorem fresh_opening : Fresh ('\x7b' :: tail) := ⟨by simp [IsGraphic, IsPrintable], by simp, by simp⟩

theorem fresh_closing : Fresh ('\x7d' :: tail) := ⟨by simp [IsGraphic, IsPrintable], by simp, by simp⟩

theorem fresh_colon : Fresh (':' :: tail) := ⟨by simp [IsGraphic, IsPrintable], by simp, by simp⟩

/-- A simple key is read with its colon, unless it is too long. -/
theorem runs_simpleKey {text written : List Char} {n : Nat} {plain : Bool}
    (hspelled : Spelled n written text plain) (hn : 0 < n ∧ s.indent < n)
    (hprintable : ∀ x ∈ written, IsPrintable x) (hkeys : s.keys = [none])
    (hallow : s.allowKey = true) (hindent : s.indent ≤ s.cursor.column)
    (hrest : s.cursor.rest = written ++ ':' :: tail)
    (htail : isBlankOrEnd (tail.headD '\x00') = true)
    (hnext : Granted (decide (written.length ≤ maxKeyLength)) r
      (s.beforeLongKey (.scalar text plain)) (Leads
      ⟨(s.cursor.skip written.length).next, (s.opened s.cursor.column).indent,
        (s.opened s.cursor.column).outer, false, [none],
        .value :: .scalar text plain :: .key :: (s.opened s.cursor.column).tokens⟩ r)) :
    Runs s r := by
  have hplace := Cursor.skip_printable hprintable hrest
  have hcolon : (s.cursor.skip written.length).rest = ':' :: tail := Cursor.rest_skip_length hrest
  have hfresh : Fresh (s.cursor.skip written.length).rest := hcolon ▸ fresh_colon
  have hdispatch := dispatch_key hspelled hkeys hrest htail hn hindent
  rw [openKeys, hallow, if_pos rfl] at hdispatch
  have hshorter : (s.cursor.skip written.length).rest.length < s.cursor.rest.length := by
    obtain ⟨x, more, rfl⟩ := hspelled.exists_cons
    rw [hcolon, hrest]
    simp only [List.cons_append, List.length_append, List.length_cons]
    omega
  have hreach : s.indent ≤ (s.cursor.skip written.length).column := by
    rw [hplace]
    dsimp only
    omega
  have hline : s.keyHere.line = (s.cursor.skip written.length).line := by rw [hplace]; rfl
  have hindex : (s.cursor.skip written.length).index = s.keyHere.index + written.length := by
    rw [hplace]
    rfl
  rw [Granted] at hnext
  split at hnext
  case isTrue hshort =>
    rw [decide_eq_true_eq] at hshort
    have hend : (s.cursor.skip written.length).index ≤ s.keyHere.index + maxKeyLength := by omega
    refine .next hdispatch hshorter ⟨_, prepare_key hfresh hline hend hreach,
      .handled (dispatch_colon hcolon htail) (value_eq_of_key rfl hindent) ?_ hnext⟩
    dsimp only
    rw [Cursor.rest_next, hcolon]
    exact Nat.lt_succ_self _
  case isFalse hlong =>
    rw [decide_eq_true_eq] at hlong
    have hend : s.keyHere.index + maxKeyLength < (s.cursor.skip written.length).index := by omega
    have hstep : step ⟨s.cursor.skip written.length, s.indent, s.outer, false, [some s.keyHere],
        .scalar text plain :: s.tokens⟩ = .error .malformed := by
      by_cases hrequired : s.keyHere.required = true
      · rw [step, (prepare_longKey hfresh hend hreach).trans (if_pos hrequired)]
        rfl
      · rw [step_of_prepare ((prepare_longKey hfresh hend hreach).trans (if_neg hrequired))]
        exact (dispatch_colon hcolon htail).trans
          (congrArg (Except.map (false, ·)) (value_eq_error rfl rfl))
    have hstale : isStale ⟨s.cursor.skip written.length, s.indent, s.outer, false,
        [some s.keyHere], .scalar text plain :: s.tokens⟩ s.keyHere = true := by
      simp only [isStale, Bool.or_eq_true, decide_eq_true_eq]
      exact .inr hend
    rw [hnext, ← stopped_longKey rfl rfl hstale]
    exact .stopped hdispatch hshorter hstep

/-- A scalar after a space is read up to the next line. -/
theorem leads_scalar {text written : List Char} {n : Nat} {plain : Bool}
    (hspelled : Spelled n written text plain) (hn : 0 < n ∧ m < n)
    (hrest : c.rest = ' ' :: (written ++ (newLine k ++ rest))) (hfresh : Fresh rest)
    (hm : m < c.column) (hk : k ≤ m)
    (hnext : ∀ d : Cursor, d.rest = rest → d.column = k →
      Runs (unwind k ⟨d, m, outer, true, [none], .scalar text plain :: tokens⟩) r) :
    Leads ⟨c, m, outer, allowKey, [none], tokens⟩ r := by
  have hplace := Cursor.next_printable (by decide) hrest
  have hwritten : c.next.rest = written ++ (newLine k ++ rest) := by rw [hplace]
  have hend : (c.next.skip (written.length + (k + 1))).rest = rest ∧
      (c.next.skip (written.length + (k + 1))).column = k := by
    rw [← Cursor.skip_skip, Cursor.skip_newLine (Cursor.rest_skip_length hwritten)]
    exact ⟨rfl, rfl⟩
  have hindent : (m : Int) < c.next.column := by
    rw [hplace]
    dsimp only
    omega
  obtain ⟨t, hdispatch, hshorter, ht⟩ := dispatch_value
    (s := ⟨c.next, m, outer, allowKey, [none], tokens⟩) hspelled rfl hwritten hfresh
    ⟨hn.1, Int.ofNat_lt.mpr hn.2⟩ hindent (Int.ofNat_le.mpr hk)
  have hfirst := fresh_of_spelled hspelled (.inr ⟨spaces k ++ rest, rfl⟩)
  have hcolumn : (m : Int) ≤ c.column := by omega
  exact ⟨_, prepare_space hrest hfirst hcolumn,
    .next hdispatch hshorter ⟨_, ht, hnext _ hend.1 hend.2⟩⟩

/-- A pair of braces is read up to the next line. -/
theorem runs_braces (hrest : s.cursor.rest = '\x7b' :: '\x7d' :: (newLine k ++ rest))
    (hfresh : Fresh rest) (hkeys : s.keys = [none]) (hindent : s.indent < s.cursor.column)
    (hnext : ∀ d : Cursor, d.rest = rest → d.column = k →
      Runs (unwind k ⟨d, s.indent, s.outer, true, [none],
        .flowMappingEnd :: .flowMappingStart :: s.tokens⟩) r) : Runs s r := by
  have hopening := Cursor.next_printable (by decide) hrest
  have hclosing : s.cursor.next.rest = '\x7d' :: (newLine k ++ rest) := by rw [hopening]
  have hplace := Cursor.next_printable (by decide) hclosing
  have hbreak : s.cursor.next.next.rest = newLine k ++ rest := by rw [hplace]
  have hprepare : prepare ⟨s.cursor.next, s.indent, s.outer, true, none :: s.openKeys,
      .flowMappingStart :: s.tokens⟩ = .ok ⟨s.cursor.next, s.indent, s.outer, true,
        none :: s.openKeys, .flowMappingStart :: s.tokens⟩ := by
    apply prepare_here
    · dsimp only
      rw [hclosing]
      exact fresh_closing
    · intro key hkey k hk
      obtain rfl | hkey := List.mem_cons.mp hkey
      · cases hk
      · rw [eq_keyHere_of_mem_openKeys hkey hk]
        simp [isStale, keyHere, hopening]
    · rw [hopening]
      dsimp only
      omega
  have hends : EndsBy s.cursor.next.next.line s.openKeys :=
    (endsBy_openKeys hindent).mono (Nat.le_of_eq (by rw [hplace, hopening]))
  refine .handled (dispatch_opening hrest) (flowStart_eq hkeys _)
    (by rw [hopening, hrest]; exact Nat.lt_succ_self _) ⟨_, hprepare, ?_⟩
  refine .handled (dispatch_closing hclosing) (flowEnd_eq rfl ?_ _)
    (by rw [hplace, hclosing]; exact Nat.lt_succ_self _)
    ⟨_, prepare_newLine hbreak hfresh hends, hnext _ ?_ ?_⟩
  · rw [openKeys]
    split <;> simp
  · rw [Cursor.skip_newLine hbreak]
  · rw [Cursor.skip_newLine hbreak]

/-- A key after a question mark is read with the colon in the next line. -/
theorem runs_complexKey {text written : List Char} {n i : Nat} {plain : Bool}
    (hspelled : Spelled n written text plain) (hn : i < n) (hkeys : s.keys = [none])
    (hallow : s.allowKey = true) (hcolumn : s.cursor.column = i) (hindent : s.indent ≤ i)
    (hrest : s.cursor.rest = '?' :: ' ' :: (written ++ (newLine i ++ ':' :: tail)))
    (htail : isBlankOrEnd (tail.headD '\x00') = true)
    (hnext : ∀ d : Cursor, d.rest = tail → d.column = i + 1 →
      Leads ⟨d, i, (s.opened i).outer, true, [none],
        .value :: .scalar text plain :: .key :: (s.opened i).tokens⟩ r) :
    Runs s r := by
  have hplace := Cursor.next_printable (by decide) hrest
  have hdispatch := (dispatch_question hrest).trans
    (congrArg (Except.map (false, ·)) (complexKey_eq hkeys hallow))
  rw [hcolumn, indent_opened hindent] at hdispatch
  refine .next hdispatch (by rw [hplace, hrest]; exact Nat.lt_succ_self _) ?_
  refine leads_scalar hspelled ⟨by omega, hn⟩ (by rw [hplace]) fresh_colon
    (by rw [hplace, hcolumn]; exact Nat.lt_succ_self _) (Nat.le_refl i) fun d hcolon hd => ?_
  have hnextPlace := Cursor.next_printable (by decide) hcolon
  rw [unwind_self]
  refine .handled (dispatch_colon hcolon htail)
    (value_eq_of_complexKey rfl rfl (congrArg Nat.cast hd.symm)) ?_
    (hnext d.next (by rw [hnextPlace]) (by rw [hnextPlace, hd]))
  dsimp only
  rw [hnextPlace, hcolon]
  exact Nat.lt_succ_self _

theorem length_le_of_isSimpleKey {text : List Char} (h : isSimpleKey text = true) :
    text.length ≤ maxSimpleKey := by
  simp only [isSimpleKey, Bool.and_eq_true, decide_eq_true_eq] at h
  exact h.1.2

/-- A key that a hand leaves bare is not too long, not even in quotes. -/
theorem fits_of_leaves {key : Key} (h : hand.leaves (keyChars key) = true) : fits key = true := by
  by_cases hsimple : isSimpleKey (keyChars key) = true
  · have hlength := length_le_of_isSimpleKey hsimple
    have hquoted := Hand.length_scalar_of_leaves h 0 0
    have hshort : (scalar .str true 0 0 (keyChars key)).length ≤ maxKeyLength := by
      rw [maxSimpleKey] at hlength
      rw [maxKeyLength]
      omega
    rw [fits, decide_eq_true hshort, Bool.or_true]
  · simp [fits, hsimple]

/-- Whether a key without a question mark fits can be seen from how it is written. -/
theorem fits_eq {key : Key} (hsimple : isSimpleKey (keyChars key) = true) (i : Nat) :
    fits key = decide ((hand.scalar true i i (keyChars key)).length ≤ maxKeyLength) := by
  rw [Hand.scalar]
  split
  case isTrue h =>
    have hshort := Nat.le_trans (length_le_of_isSimpleKey hsimple)
      (show maxSimpleKey ≤ maxKeyLength by decide)
    rw [fits_of_leaves h, decide_eq_true hshort]
  case isFalse =>
    rw [fits, hsimple, scalar_simpleKey .str 0 i 0 i]
    rfl

/-- A key is read with its colon as it is written. -/
theorem runs_entry {key : Key} {i : Nat} {value : Nat → Bool → List Char} (hi : i + 2 < width)
    (hkeys : s.keys = [none]) (hallow : s.allowKey = true) (hcolumn : s.cursor.column = i)
    (hindent : s.indent ≤ i) (hrest : s.cursor.rest = hand.entry i key value ++ rest)
    (hblank : ∀ column complexKey,
      isBlankOrEnd ((value column complexKey ++ rest).headD '\x00') = true)
    (hnext : Granted (fits key) r (s.beforeLongKey (hand.token (textToken (keyChars key))))
      (∀ (d : Cursor) complexKey, d.rest = value d.column complexKey ++ rest → i < d.column →
        (complexKey = true → d.column = i + 1) →
        Leads ⟨d, i, (s.opened i).outer, complexKey, [none],
          .value :: hand.token (textToken (keyChars key)) :: .key :: (s.opened i).tokens⟩ r)) :
    Runs s r := by
  by_cases hsimple : isSimpleKey (keyChars key)
  case pos =>
    have hline := isMultiline_of_isSimpleKey hsimple
    have hprintable : ∀ x ∈ hand.scalar true i i (keyChars key), IsPrintable x :=
      hand.printable_simpleKey i i hline
    have hkey : s.cursor.rest = hand.scalar true i i (keyChars key) ++ ':' ::
        (value (i + (hand.scalar true i i (keyChars key)).length + 1) false ++ rest) := by
      rw [hrest, Hand.entry, if_pos hsimple, List.append_assoc, List.cons_append]
    have hplace := Cursor.skip_printable hprintable hkey
    have hcolon := Cursor.next_printable (by decide) (Cursor.rest_skip_length hkey)
    refine runs_simpleKey (hand.spelled_simpleKey (i + 1) i i hline) ⟨by omega, by omega⟩ hprintable
      hkeys hallow (hcolumn ▸ hindent) hkey (hblank _ _) ?_
    rw [hcolumn, indent_opened hindent, ← fits_eq hsimple]
    refine hnext.mono fun hnext => hnext _ _ ?_ ?_ (absurd · Bool.false_ne_true)
    · rw [hcolon, hplace, hcolumn]
    · rw [hcolon, hplace, hcolumn]
      dsimp only
      omega
  case neg =>
    have hfits : fits key = true := by simp [fits, hsimple]
    have hkey : s.cursor.rest = '?' :: ' ' :: (hand.scalar false (i + 2) (i + 2) (keyChars key)
        ++ (newLine i ++ ':' :: (value (i + 1) true ++ rest))) := by
      rw [hrest, Hand.entry, if_neg hsimple]
      simp
    rw [Granted, if_pos hfits] at hnext
    refine runs_complexKey (hand.spelled_scalar ⟨by omega, hi⟩ (i + 2) _) (by omega) hkeys hallow
      hcolumn hindent hkey (hblank _ _) fun d hd hplace => ?_
    exact hnext d true (by rw [hd, hplace]) (by omega) fun _ => hplace

theorem isBlankOrEnd_value (i column : Nat) (complexKey : Bool) (document : Document)
    (rest : List Char) :
    isBlankOrEnd ((hand.value i column complexKey document ++ rest).headD '\x00') = true := by
  cases document with
  | null => rfl
  | other kind => rfl
  | bool flag => cases flag <;> rfl
  | text content => rfl
  | mapping entries =>
    cases entries with
    | nil => rfl
    | cons entry entries => cases complexKey <;> rfl

/-- A value is read up to the next line, where the collections are closed that end with it. -/
def Passes (hand : Hand) (i : Nat) (document : Document) : Prop :=
  ∀ ⦃c : Cursor⦄ ⦃complexKey : Bool⦄ ⦃outer : List Int⦄ ⦃tokens : List Token⦄ ⦃k : Nat⦄
    ⦃rest : List Char⦄ ⦃r : Result⦄,
    c.rest = hand.value i c.column complexKey document ++ (newLine k ++ rest) → Fresh rest →
    k ≤ i → i < c.column → (complexKey = true → c.column = i + 1) →
    Granted (isLegible document) r (tokens.reverse ++ (brokenTokens document).map hand.token)
      (∀ d : Cursor, d.rest = rest → d.column = k →
        Runs (unwind k ⟨d, i, outer, true, [none],
          ((tokensOf document).map hand.token).reverse ++ tokens⟩) r) →
    Leads ⟨c, i, outer, complexKey, [none], tokens⟩ r

theorem passes_text {i : Nat} (hi : i + 2 < width) (content : String) : Passes hand i (.text content) := by
  intro c complexKey outer tokens k rest r hrest hfresh hk hc _ hnext
  have hspelled := hand.spelled_scalar ⟨by omega, hi⟩ (c.column + 1) content.toList
  exact leads_scalar hspelled ⟨by omega, by omega⟩ hrest hfresh hc hk hnext

theorem passes_bool {i : Nat} (flag : Bool) : Passes hand i (.bool flag) := by
  intro c complexKey outer tokens k rest r hrest hfresh hk hc _ hnext
  have hspelled : ∀ text ∈ ["true".toList, "false".toList], Spelled (i + 1) text text true := by
    have hprint : ∀ text ∈ ["true".toList, "false".toList], text.all (decide <| IsPrintable ·) ∧
        hasIndicator text = false ∧ text ≠ [] ∧ text.head? ≠ some ' ' ∧ text.getLast? ≠ some ' ' := by
      decide
    intro text htext
    obtain ⟨hall, hindicator, hne, hhead, hlast⟩ := hprint text htext
    have hprintable : ∀ x ∈ text, IsPrintable x := fun x hx =>
      of_decide_eq_true (List.all_eq_true.mp hall x hx)
    exact .plain (opens_of_not_hasIndicator hindicator)
      ((phrase_of_not_hasIndicator hprintable hindicator hne hhead hlast).spells_self _)
  cases flag with
  | true =>
    exact leads_scalar (hspelled _ (by decide)) ⟨by omega, by omega⟩ hrest hfresh hc hk hnext
  | false =>
    exact leads_scalar (hspelled _ (by decide)) ⟨by omega, by omega⟩ hrest hfresh hc hk hnext

theorem passes_empty {i : Nat} : Passes hand i (.mapping []) := by
  intro c complexKey outer tokens k rest r hrest hfresh _ hc _ hnext
  have hplace := Cursor.next_printable (by decide) hrest
  refine ⟨_, prepare_space hrest fresh_opening (show (i : Int) ≤ c.column by omega), ?_⟩
  refine runs_braces (k := k) (by rw [hplace]; rfl) hfresh rfl ?_ hnext
  rw [hplace]
  dsimp only
  omega

theorem fresh_entry {i : Nat} {key : Key} {document : Document} :
    Fresh (hand.entry i key (fun column complexKey => hand.value i column complexKey document)
      ++ rest) := by
  rw [Hand.entry]
  split
  case isTrue hsimple =>
    have hspelled := hand.spelled_simpleKey (i + 1) i i (isMultiline_of_isSimpleKey hsimple)
    dsimp only
    rw [List.append_assoc]
    exact fresh_of_spelled hspelled (.inl ⟨_, rfl, isBlankOrEnd_value ..⟩)
  case isFalse =>
    exact ⟨by simp [IsGraphic, IsPrintable], by simp, by simp⟩

/-- The tokens of a mapping up to the first key that is too long, where its first key is next. -/
def brokenFrom (hand : Hand) (i : Nat) (first : Key × Document) (more : List (Key × Document))
    (s : Lexer) : List Token :=
  if fits first.1 then (s.opened i).tokens.reverse ++ (brokenEntries (first :: more)).map hand.token
  else s.beforeLongKey (hand.token (textToken (keyChars first.1)))

/-- Inside an open mapping the tokens of a key that is too long are not read. -/
theorem brokenFrom_of_eq {i : Nat} {first : Key × Document} {more : List (Key × Document)}
    (hindent : s.indent = i) (hcolumn : s.cursor.column = i) : s.brokenFrom hand i first more
      = s.tokens.reverse ++ (brokenEntries (first :: more)).map hand.token := by
  obtain ⟨key, document⟩ := first
  rw [brokenFrom, opened_of_eq hindent]
  split
  case isTrue => rfl
  case isFalse hlong => simp [beforeLongKey, keyHere, brokenEntries, hlong, hindent, hcolumn]

theorem brokenFrom_of_lt {i : Nat} {first : Key × Document} {more : List (Key × Document)}
    (hindent : s.indent < i) (hcolumn : s.cursor.column = i) : s.brokenFrom hand i first more
      = s.tokens.reverse ++ (brokenTokens (.mapping (first :: more))).map hand.token := by
  obtain ⟨key, document⟩ := first
  rw [brokenFrom, opened_of_lt hindent, brokenTokens]
  split
  case isTrue => simp [Hand.token]
  case isFalse => simp [beforeLongKey, keyHere, hcolumn, Int.ne_of_lt hindent]

/-- Whether reading can go on is settled by the key of an entry first, then by its value. -/
theorem granted_entry {i : Nat} {key : Key} {document : Document} {more : List (Key × Document)}
    {p : Prop} (h : Granted (areLegible ((key, document) :: more)) r
      (s.brokenFrom hand i (key, document) more) p) :
    Granted (fits key) r (s.beforeLongKey (hand.token (textToken (keyChars key))))
      (Granted (isLegible document) r
        ((.value :: hand.token (textToken (keyChars key)) :: .key :: (s.opened i).tokens).reverse
          ++ (brokenTokens document).map hand.token)
        (Granted (areLegible more) r
          ((((tokensOf document).map hand.token).reverse ++ .value ::
              hand.token (textToken (keyChars key)) :: .key :: (s.opened i).tokens).reverse
            ++ (brokenEntries more).map hand.token) p)) := by
  rw [areLegible, brokenFrom] at h
  cases hfits : fits key with
  | false => simpa [Granted, hfits] using h
  | true =>
    cases hlegible : isLegible document with
    | false => simpa [Granted, hfits, hlegible, brokenEntries, Hand.token] using h
    | true => simpa [Granted, hfits, hlegible, brokenEntries, Hand.token] using h

/-- The entries of a mapping are read up to the line in which something else starts. -/
theorem runs_entries {i : Nat} {first : Key × Document} {more : List (Key × Document)}
    (hi : i + 2 < width) (hk : k ≤ i) (hfresh : Fresh rest)
    (heach : ∀ e ∈ first :: more, Passes hand i e.2) (hkeys : s.keys = [none])
    (hallow : s.allowKey = true) (hcolumn : s.cursor.column = i) (hindent : s.indent ≤ i)
    (hrest : s.cursor.rest
      = hand.entry i first.1 (fun column complexKey => hand.value i column complexKey first.2)
        ++ (hand.entries i more ++ (newLine k ++ rest)))
    (hnext : Granted (areLegible (first :: more)) r (s.brokenFrom hand i first more)
      (∀ d : Cursor, d.rest = rest → d.column = k →
        Runs (unwind k ⟨d, i, (s.opened i).outer, true, [none],
          ((entryTokens (first :: more)).map hand.token).reverse ++ (s.opened i).tokens⟩) r)) :
    Runs s r := by
  induction more generalizing first s with
  | nil =>
    refine runs_entry hi hkeys hallow hcolumn hindent hrest (fun _ _ => isBlankOrEnd_value ..)
      ((granted_entry hnext).mono fun hnext c complexKey hc hplace hcomplex => ?_)
    refine heach first (by simp) hc hfresh hk hplace hcomplex
      (hnext.mono fun hnext d hd hcolumn => ?_)
    simpa [entryTokens, Hand.token] using hnext d hd hcolumn
  | cons second more ih =>
    refine runs_entry hi hkeys hallow hcolumn hindent hrest (fun _ _ => isBlankOrEnd_value ..)
      ((granted_entry hnext).mono fun hnext c complexKey hc hplace hcomplex => ?_)
    rw [Hand.entries, List.append_assoc, List.append_assoc] at hc
    refine heach first (by simp) hc fresh_entry (Nat.le_refl i) hplace hcomplex
      (hnext.mono fun hnext d hd hcolumn => ?_)
    rw [unwind_self]
    refine ih (fun e he => heach e (List.mem_cons_of_mem _ he)) rfl rfl hcolumn (Int.le_refl _) hd ?_
    rw [brokenFrom_of_eq rfl hcolumn]
    refine hnext.mono fun hnext d hd hcolumn => ?_
    rw [opened_of_eq rfl]
    simpa [entryTokens, Hand.token] using hnext d hd hcolumn

/-- A mapping is opened in front of its first entry, and closed in front of what it does not reach. -/
theorem passes_mapping {i : Nat} {first : Key × Document} {more : List (Key × Document)}
    (hi : i + 4 < width) (heach : ∀ e ∈ first :: more, Passes hand (i + 2) e.2) :
    Passes hand i (.mapping (first :: more)) := by
  intro c complexKey outer tokens k rest r hrest hfresh hk hc hcomplex hnext
  have hruns (d : Cursor) (hd : d.rest
      = hand.entry (i + 2) first.1 (fun column complexKey => hand.value (i + 2) column complexKey first.2)
        ++ (hand.entries (i + 2) more ++ (newLine k ++ rest))) (hcolumn : d.column = i + 2) :
      Runs ⟨d, i, outer, true, [none], tokens⟩ r := by
    have hinside : (i : Int) < (i + 2 : Nat) := Int.ofNat_lt.mpr (by omega)
    refine runs_entries (by omega) (by omega) hfresh heach rfl rfl hcolumn (Int.le_of_lt hinside) hd ?_
    rw [brokenFrom_of_lt hinside hcolumn]
    refine hnext.mono fun hnext d hd hcolumn => ?_
    rw [opened_of_lt hinside]
    dsimp only
    rw [unwind_cons (by omega)]
    simpa [tokensOf, Hand.token] using hnext d hd hcolumn
  obtain ⟨key, document⟩ := first
  cases complexKey with
  | false =>
    have hbreak : c.rest = newLine (i + 2) ++ (hand.entry (i + 2) key
        (fun column complexKey => hand.value (i + 2) column complexKey document)
        ++ (hand.entries (i + 2) more ++ (newLine k ++ rest))) := by simpa [Hand.value] using hrest
    have hplace := Cursor.skip_newLine hbreak
    have hreach : (i : Int) ≤ (i + 2 : Nat) := Int.ofNat_le.mpr (Nat.le_add_right i 2)
    exact ⟨_, (prepare_newLine hbreak fresh_entry (.inl rfl)).trans
      (congrArg Except.ok (unwind_of_le hreach)), hruns _ (by rw [hplace]) (by rw [hplace])⟩
  | true =>
    have hspace : c.rest = ' ' :: (hand.entry (i + 2) key
        (fun column complexKey => hand.value (i + 2) column complexKey document)
        ++ (hand.entries (i + 2) more ++ (newLine k ++ rest))) := by simpa [Hand.value] using hrest
    have hplace := Cursor.next_printable (by decide) hspace
    exact ⟨_, prepare_space hspace fresh_entry (show (i : Int) ≤ c.column by omega),
      hruns _ (by rw [hplace]) (by rw [hplace, hcomplex rfl])⟩

theorem passes_of_writable {depth i : Nat} {document : Document} (h : Writable depth document)
    (hi : i + 2 * depth + 2 < width) : Passes hand i document := by
  induction h generalizing i with
  | bool flag => exact passes_bool flag
  | text content => exact passes_text (by omega) content
  | @record depth fields _ _ ih =>
    cases fields with
    | nil => exact passes_empty
    | cons field fields =>
      have heach : ∀ e ∈ textual (field :: fields), Passes hand (i + 2) e.2 :=
        List.forall_mem_map.mpr fun field hfield => ih field hfield (by omega)
      exact passes_mapping (by omega) heach

end Lexer

open Lexer

/-- A mapping is read as its tokens, or as those in front of the first key in it that is too long. -/
theorem ofText_write {hand : Hand} {first : Key × Document} {more : List (Key × Document)}
    (heach : ∀ e ∈ first :: more, Passes hand 0 e.2) :
    Token.ofText (hand.write (.mapping (first :: more)))
      = if isLegible (.mapping (first :: more)) then
          ((tokensOf (.mapping (first :: more))).map hand.token ++ [.streamEnd], none)
        else ((brokenTokens (.mapping (first :: more))).map hand.token, some .malformed) := by
  generalize hs :
    (⟨⟨hand.write (.mapping (first :: more)), 0, 0, 0⟩, -1, [], true, [none], []⟩ : Lexer) = s
  have hrest : s.cursor.rest
      = hand.entry 0 first.1 (fun column complexKey => hand.value 0 column complexKey first.2)
        ++ (hand.entries 0 more ++ (newLine 0 ++ [])) := by
    rw [← hs, ← List.append_assoc]
    rfl
  have hprepare : s.prepare = .ok s :=
    prepare_here (hrest ▸ fresh_entry) (by simp [← hs]) (by simp [← hs])
  have hopened : s.opened 0 = ⟨s.cursor, 0, [-1], true, [none], [.blockMappingStart]⟩ := by
    rw [opened_of_lt (by simp [← hs]), ← hs]
    rfl
  have hruns : Runs s (if isLegible (.mapping (first :: more)) then
      ((tokensOf (.mapping (first :: more))).map hand.token ++ [.streamEnd], none)
      else ((brokenTokens (.mapping (first :: more))).map hand.token, some .malformed)) := by
    refine runs_entries (i := 0) (k := 0) (by decide) (Nat.le_refl 0) Fresh.nil heach (by rw [← hs])
      (by rw [← hs]) (by rw [← hs]) (by simp [← hs]) hrest ?_
    rw [brokenFrom_of_lt (by simp [← hs]) (by simp [← hs]), hopened, isLegible, Granted]
    split
    case isTrue =>
      intro d hd _
      have hfinish := Runs.finish
        (@dispatch_end d (((entryTokens (first :: more)).map hand.token).reverse
          ++ [.blockMappingStart]) hd)
      rw [@unwind_self d (0 : Nat)]
      simpa [tokensOf, Hand.token] using hfinish
    case isFalse => simp [← hs]
  subst hs
  exact hruns _ _ hprepare (by simp)

/-- A written record is read as its tokens, or as those in front of the first key in it that is too
long. -/
theorem ofText_write_record (hand : Hand) {depth : Nat} {first : String × Document}
    {more : List (String × Document)} (hdepth : 2 * depth + 2 < width)
    (h : ∀ field ∈ first :: more, Writable depth field.2) :
    Token.ofText (hand.write (record (first :: more)))
      = if isLegible (record (first :: more)) then
          ((tokensOf (record (first :: more))).map hand.token ++ [.streamEnd], none)
        else ((brokenTokens (record (first :: more))).map hand.token, some .malformed) := by
  have heach : ∀ e ∈ textual (first :: more), Passes hand 0 e.2 :=
    List.forall_mem_map.mpr fun field hfield => passes_of_writable (h field hfield) (by omega)
  exact ofText_write heach

end ContextConfig.Yaml
