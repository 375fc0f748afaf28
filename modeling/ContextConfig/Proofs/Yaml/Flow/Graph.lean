import ContextConfig.Proofs.Yaml.Construction
import ContextConfig.Proofs.Yaml.Flow.Tokens
/-!
# The nodes of a printed JSON document

The tokens of a document in flow style are read as the nodes of the document, with its texts as they
come back from JSON strings. A name that is too long to be a key ends the reading: the colon behind
it stands where a comma has to.
-/

namespace ContextConfig.Yaml.Flow

open Document (Composed Writable textual record record_eq)
open Writer (keyChars)

/-- A text as it comes back from a printed JSON string. -/
def unpairedText (text : List Char) : String := String.ofList (unpaired text)

@[simp] theorem keyChars_unpairedText (text : List Char) :
    keyChars (.text (unpairedText text)) = unpaired text := by
  rw [keyChars, unpairedText, String.toList_ofList]

mutual

/-- A document as it comes back from printed JSON. -/
def unpairedDocument : Document → Document
  | .text content => .text (unpairedText content.toList)
  | .mapping entries => .mapping (unpairedEntries entries)
  | document => document

def unpairedEntries : List (Key × Document) → List (Key × Document)
  | [] => []
  | (key, document) :: rest =>
    (.text (unpairedText (keyChars key)), unpairedDocument document) :: unpairedEntries rest

end

mutual

/-- Whether all names in a document end where keys have to. -/
def hasShortNames : Document → Bool
  | .mapping entries => haveShortNames entries
  | _ => true

def haveShortNames : List (Key × Document) → Bool
  | [] => true
  | (key, document) :: rest =>
    isShort (keyChars key) && hasShortNames document && haveShortNames rest

end

theorem unpairedDocument_record (fields : List (String × Document)) :
    unpairedDocument (record fields)
      = record (fields.map fun field =>
          (unpairedText field.1.toList, unpairedDocument field.2)) := by
  rw [record_eq, record_eq, unpairedDocument]
  congr 1
  induction fields with
  | nil => rfl
  | cons field fields ih =>
    rw [textual, List.map_cons, unpairedEntries, List.map_cons, textual, List.map_cons]
    exact congrArg _ ih

theorem composed_unpairedDocument {document : Document} (h : Composed document) :
    Composed (unpairedDocument document) := by
  induction h with
  | bool flag => exact .bool flag
  | text content => exact .text _
  | record _ ih =>
    rw [unpairedDocument_record]
    exact .record (List.forall_mem_map.mpr ih)

section Building

open Build

variable {b : Builder} {token : Token} {rest : List Token} {fuel : Nat} {text : List Char}

/-- What reading comes to where a name that is too long makes the text malformed. -/
def granted {α : Type} (legible : Bool) (result : α) : Except Stop α :=
  if legible then .ok result else .error .malformed

/-- The builder behind some tokens, with the nodes that they stand for. -/
def past (b : Builder) (rest : List Token) (row : List Node) : Builder :=
  { b with tokens := rest, nodes := b.nodes ++ row.toArray }

@[simp] theorem size_past (b : Builder) (rest : List Token) (row : List Node) :
    (past b rest row).nodes.size = b.nodes.size + row.length := by simp [past]

@[simp] theorem past_past (b : Builder) (rest rest' : List Token) (row row' : List Node) :
    past (past b rest row) rest' row' = past b rest' (row ++ row') := by simp [past]

theorem node_scalar_past {block indentless plain : Bool}
    (h : b.tokens = .scalar text plain :: rest) : node (fuel + 1) block indentless b
      = .ok (b.nodes.size, past b rest [.scalar (scalarTag text plain none) text]) := by
  rw [node_scalar h]
  simp [past]

/-- A document is read from its tokens as its nodes, unless a name in it is too long, with room for so
many levels. -/
def Builds (levels : Nat) (document : Document) : Prop :=
  ∀ ⦃b : Builder⦄ ⦃rest : List Token⦄ ⦃fuel : Nat⦄ ⦃block indentless : Bool⦄,
    callsPerLevel * levels ≤ b.room → b.tokens = flowTokens document ++ rest →
    (flowTokens document).length ≤ fuel →
    node fuel block indentless b = granted (hasShortNames document)
      (b.nodes.size, past b rest (nodesOf b.nodes.size (unpairedDocument document)))

theorem builds_text (levels : Nat) (content : String) : Builds levels (.text content) := by
  intro b rest fuel block indentless _ htokens hfuel
  obtain ⟨fuel, rfl⟩ := Nat.exists_eq_add_one.mpr hfuel
  rw [node_scalar_past htokens]
  simp [granted, hasShortNames, unpairedDocument, unpairedText, nodesOf, scalarTag]

theorem builds_bool (levels : Nat) (flag : Bool) : Builds levels (.bool flag) := by
  intro b rest fuel block indentless _ htokens hfuel
  have htrue : scalarTag "true".toList true none = .bool := by decide +kernel
  have hfalse : scalarTag "false".toList true none = .bool := by decide +kernel
  cases flag with
  | true =>
    obtain ⟨fuel, rfl⟩ := Nat.exists_eq_add_one.mpr hfuel
    rw [node_scalar_past htokens, htrue]
    rfl
  | false =>
    obtain ⟨fuel, rfl⟩ := Nat.exists_eq_add_one.mpr hfuel
    rw [node_scalar_past htokens, hfalse]
    rfl

theorem comma_first (b : Builder) : comma true b = .ok ((), b) := rfl

theorem comma_later (h : b.tokens = .flowEntry :: rest) :
    comma false b = .ok ((), { b with tokens := rest }) := by
  rw [comma, if_neg Bool.false_ne_true, bind_eq (peek_eq h)]
  exact skip_eq h

/-- Behind a comma the entries are read as if they were the first. -/
theorem flowEntries_comma (h : b.tokens = .flowEntry :: token :: rest)
    (htoken : token ≠ .flowMappingEnd) :
    flowEntries (fuel + 1) false b
      = flowEntries (fuel + 1) true { b with tokens := token :: rest } := by
  rw [flowEntries, bind_eq (peek_eq h)]
  refine (bind_eq (comma_later h)).trans ?_
  rw [flowEntries]
  refine Eq.trans ?_ (bind_eq (peek_eq rfl)).symm
  split
  · exact absurd rfl htoken
  · rw [bind_eq (comma_first _)]

/-- A name that is a key is read, and then the value behind its colon. -/
theorem flowEntries_key (h : b.tokens = .key :: .scalar text false :: .value :: token :: rest)
    (htoken : token ≠ .flowEntry ∧ token ≠ .flowMappingEnd) :
    flowEntries (fuel + 2) true b = (node (fuel + 1) false false >>= fun value =>
        flowEntries (fuel + 1) false >>= fun more => pure ((b.nodes.size, value) :: more))
      (past b (token :: rest) [.scalar .str text]) := by
  have htag : scalarTag text false none = .str := by simp [scalarTag]
  rw [flowEntries, bind_eq (peek_eq h)]
  dsimp only
  rw [bind_eq (comma_first _), bind_eq (peek_eq h)]
  dsimp only
  rw [bind_eq (skip_eq h), bind_eq (peek_eq rfl)]
  dsimp only
  rw [bind_eq (node_scalar_past rfl), htag, bind_eq (peek_eq rfl)]
  dsimp only
  rw [bind_eq (skip_eq rfl), bind_eq (peek_eq rfl)]
  split
  · exact absurd rfl htoken.1
  · exact absurd rfl htoken.2
  · rfl

/-- A name that is no key leaves its colon where a comma has to be. -/
theorem flowEntries_long (h : b.tokens = .scalar text false :: .value :: rest) :
    flowEntries fuel true b = .error .malformed := by
  have hcolon (b : Builder) (fuel : Nat) (h : b.tokens = .value :: rest) :
      flowEntries fuel false b = .error .malformed := by
    cases fuel with
    | zero => rw [flowEntries]; rfl
    | succ fuel =>
      have hcomma : comma false b = .error .malformed := by
        rw [comma, if_neg Bool.false_ne_true, bind_eq (peek_eq h)]
        rfl
      rw [flowEntries, bind_eq (peek_eq h)]
      exact bind_error hcomma
  obtain _ | _ | fuel := fuel
  · rw [flowEntries]
    rfl
  · rw [flowEntries, bind_eq (peek_eq h)]
    dsimp only
    rw [bind_eq (comma_first _), bind_eq (peek_eq h)]
    dsimp only
    rw [node]
    rfl
  · rw [flowEntries, bind_eq (peek_eq h)]
    dsimp only
    rw [bind_eq (comma_first _), bind_eq (peek_eq h)]
    dsimp only
    rw [bind_eq (node_scalar h)]
    exact (bind_eq (add_apply _ _)).trans (bind_error (hcolon _ _ rfl))

theorem flowTokens_eq_cons (document : Document) :
    ∃ token more, flowTokens document = token :: more ∧
      token ≠ .flowEntry ∧ token ≠ .flowMappingEnd := by
  cases document with
  | null => exact ⟨_, _, rfl, by simp⟩
  | other kind => exact ⟨_, _, rfl, by simp⟩
  | bool flag => cases flag <;> exact ⟨_, _, rfl, by simp⟩
  | text content => exact ⟨_, _, rfl, by simp⟩
  | mapping entries => exact ⟨_, _, rfl, by simp⟩

/-- The entries of a mapping are read up to its end, unless a name is too long. -/
def BuildsEntries (levels : Nat) (first : Bool) (entries : List (Key × Document)) : Prop :=
  ∀ ⦃b : Builder⦄ ⦃rest : List Token⦄ ⦃fuel : Nat⦄, callsPerLevel * levels ≤ b.room →
    b.tokens = fieldTokens first entries ++ .flowMappingEnd :: rest →
    (fieldTokens first entries).length < fuel →
    flowEntries fuel first b = granted (haveShortNames entries)
      (partsOf b.nodes.size (unpairedEntries entries),
        past b rest (entryNodes b.nodes.size (unpairedEntries entries)))

/-- The first entry of a mapping is read with those behind it. -/
theorem buildsEntries_cons {levels : Nat} {key : Key} {document : Document}
    {entries : List (Key × Document)} (hvalue : Builds levels document)
    (hmore : BuildsEntries levels false entries) :
    BuildsEntries levels true ((key, document) :: entries) := by
  intro b rest fuel hroom htokens hfuel
  have hsplit : b.tokens = keyTokens (keyChars key) ++ (flowTokens document
      ++ (fieldTokens false entries ++ .flowMappingEnd :: rest)) := by
    rw [htokens, fieldTokens]
    simp
  have hlength : (keyTokens (keyChars key)).length + (flowTokens document).length
      + (fieldTokens false entries).length < fuel := by
    rw [fieldTokens] at hfuel
    simpa [Nat.add_assoc] using hfuel
  rw [haveShortNames]
  by_cases hshort : isShort (keyChars key) = true
  case neg =>
    rw [keyTokens, if_neg hshort] at hsplit
    rw [flowEntries_long hsplit]
    simp [granted, hshort]
  case pos =>
    obtain ⟨token, more, hhead, htoken⟩ := flowTokens_eq_cons document
    rw [keyTokens, if_pos hshort] at hsplit hlength
    simp only [List.length_cons, List.length_nil] at hlength
    obtain ⟨fuel, rfl⟩ := Nat.exists_eq_add_of_le' (show 2 ≤ fuel by omega)
    have htail : token :: (more ++ (fieldTokens false entries ++ .flowMappingEnd :: rest))
        = flowTokens document ++ (fieldTokens false entries ++ .flowMappingEnd :: rest) := by
      rw [hhead, List.cons_append]
    have hkey : b.tokens = .key :: .scalar (unpaired (keyChars key)) false :: .value :: token
        :: (more ++ (fieldTokens false entries ++ .flowMappingEnd :: rest)) := by
      rw [htail]
      exact hsplit
    have hnode :=
      @hvalue (past b _ [.scalar .str (unpaired (keyChars key))]) _ (fuel + 1) false false
        hroom htail (by omega)
    rw [flowEntries_key hkey htoken]
    cases hdocument : hasShortNames document with
    | false =>
      rw [hdocument] at hnode
      rw [bind_error hnode]
      simp [granted]
    | true =>
      rw [hdocument] at hnode
      have hentries (b : Builder) (hroom : callsPerLevel * levels ≤ b.room)
          (h : b.tokens = fieldTokens false entries ++ .flowMappingEnd :: rest) :=
        hmore hroom h (show (fieldTokens false entries).length < fuel + 1 by omega)
      rw [bind_eq hnode]
      cases hrest : haveShortNames entries with
      | false =>
        simp only [hrest] at hentries
        refine Eq.trans (bind_error (hentries _ hroom rfl)) ?_
        simp [granted]
      | true =>
        simp only [hrest] at hentries
        refine Eq.trans (bind_eq (hentries _ hroom rfl)) ?_
        simp [granted, hshort, unpairedEntries, partsOf, entryNodes, pure_apply, Nat.add_assoc,
          Nat.add_comm 1]

theorem buildsEntries_nil (levels : Nat) (first : Bool) : BuildsEntries levels first [] := by
  intro b rest fuel _ htokens hfuel
  obtain ⟨fuel, rfl⟩ := Nat.exists_eq_add_one.mpr (Nat.zero_lt_of_lt hfuel)
  rw [flowEntries, bind_eq (peek_eq htokens)]
  refine (bind_eq (skip_eq htokens)).trans ?_
  simp [granted, haveShortNames, unpairedEntries, partsOf, entryNodes, past, pure_apply]

theorem fieldTokens_eq_cons (entry : Key × Document) (entries : List (Key × Document)) :
    ∃ token more, fieldTokens true (entry :: entries) = token :: more ∧
      token ≠ .flowMappingEnd := by
  obtain ⟨key, document⟩ := entry
  rw [fieldTokens, keyTokens, if_pos rfl, List.nil_append]
  split
  · exact ⟨_, _, rfl, by simp⟩
  · exact ⟨_, _, rfl, by simp⟩

theorem buildsEntries {levels : Nat} {entries : List (Key × Document)}
    (heach : ∀ e ∈ entries, Builds levels e.2) (first : Bool) : BuildsEntries levels first entries := by
  induction entries generalizing first with
  | nil => exact buildsEntries_nil levels first
  | cons entry entries ih =>
    rw [List.forall_mem_cons] at heach
    have hfirst : BuildsEntries levels true (entry :: entries) :=
      buildsEntries_cons heach.1 (ih heach.2 false)
    cases first with
    | true => exact hfirst
    | false =>
      intro b rest fuel hroom htokens hfuel
      obtain ⟨token, more, hhead, htoken⟩ := fieldTokens_eq_cons entry entries
      rw [fieldTokens_cons] at htokens hfuel
      obtain ⟨fuel, rfl⟩ := Nat.exists_eq_add_one.mpr (Nat.zero_lt_of_lt hfuel)
      have hcomma : b.tokens = .flowEntry :: token :: (more ++ .flowMappingEnd :: rest) := by
        rw [htokens, hhead]
        rfl
      rw [flowEntries_comma hcomma htoken]
      refine hfirst hroom ?_ (Nat.lt_of_succ_lt hfuel)
      rw [hhead]
      rfl

theorem builds_mapping {levels : Nat} {entries : List (Key × Document)}
    (heach : ∀ e ∈ entries, Builds levels e.2) : Builds (levels + 1) (.mapping entries) := by
  intro b rest fuel block indentless hroom htokens hfuel
  have hopening : b.tokens
      = .flowMappingStart :: (fieldTokens true entries ++ .flowMappingEnd :: rest) := by
    rw [htokens, flowTokens]
    simp
  simp only [flowTokens, List.cons_append, List.length_cons, List.length_append,
    List.length_nil] at hfuel
  obtain ⟨fuel, rfl⟩ := Nat.exists_eq_add_one.mpr (Nat.zero_lt_of_lt hfuel)
  obtain ⟨hlevel, hinside⟩ := le_room hroom
  have hentries (b : Builder) (hroom : callsPerLevel * levels ≤ b.room)
      (h : b.tokens = fieldTokens true entries ++ .flowMappingEnd :: rest) :=
    buildsEntries heach true hroom h (show (fieldTokens true entries).length < fuel by omega)
  rw [node_flowMapping hopening, hasShortNames]
  cases hshort : haveShortNames entries with
  | false =>
    simp only [hshort] at hentries
    exact collection_error hlevel (map_error (hentries _ hinside rfl))
  | true =>
    simp only [hshort] at hentries
    refine Eq.trans (collection_eq hlevel (map_eq (hentries _ hinside rfl))) ?_
    simp [granted, past, nodesOf, unpairedDocument]

theorem builds_of_writable {depth : Nat} {document : Document} (h : Writable depth document) :
    Builds depth document := by
  induction h with
  | bool flag => exact builds_bool _ flag
  | text content => exact builds_text _ content
  | record _ _ ih => exact builds_mapping (List.forall_mem_map.mpr ih)

/-- The tokens of a record are read as its nodes, unless a name in it is too long. -/
theorem ofTokens_flowTokens {depth room : Nat} {fields : List (String × Document)}
    (h : Writable depth (record fields)) (hroom : callsPerLevel * depth ≤ room) :
    Graph.ofTokens room (flowTokens (record fields) ++ [.streamEnd]) none
      = granted (hasShortNames (record fields))
          ⟨(nodesOf 0 (unpairedDocument (record fields))).toArray, some 0⟩ := by
  have hopening : flowTokens (record fields) ++ [.streamEnd] = .flowMappingStart
      :: (fieldTokens true (textual fields) ++ [.flowMappingEnd, .streamEnd]) := by
    rw [record_eq, flowTokens]
    simp
  generalize hb : ({ room, tokens := flowTokens (record fields) ++ [.streamEnd] } : Builder) = b
  have htokens : b.tokens = flowTokens (record fields) ++ [.streamEnd] := by rw [← hb]
  have hplace : callsPerLevel * depth ≤ b.room := by rwa [← hb]
  have hfuel : (flowTokens (record fields)).length
      ≤ 2 * (flowTokens (record fields) ++ [Token.streamEnd]).length + 3 + 1 := by
    rw [List.length_append]
    omega
  have hnode := @builds_of_writable _ _ h { b with handles := standardHandles } _ _ true false
    hplace htokens hfuel
  rw [Graph.ofTokens]
  dsimp only [Option.getD]
  rw [hb, StateT.run]
  cases hshort : hasShortNames (record fields) with
  | false =>
    rw [hshort] at hnode
    rw [document_eq_node (htokens.trans hopening) rfl, bind_error hnode]
    rfl
  | true =>
    rw [hshort] at hnode
    rw [document_of_node (htokens.trans hopening) rfl rfl hnode, ← hb]
    simp [granted, past, bind, Except.bind, pure, Except.pure]

end Building

end ContextConfig.Yaml.Flow
