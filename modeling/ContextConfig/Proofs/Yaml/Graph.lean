import ContextConfig.Proofs.Yaml.Numbers
import ContextConfig.Proofs.Yaml.Tokens
import ContextConfig.Yaml.Construction
/-!
# The nodes of a written document

The tokens of a document are read as its nodes, one after another in the order of the text: a
mapping comes before its keys and values, and every level of mappings takes room. Where a key is too
long the tokens end in front of it or behind it, and that is found wherever they should go on.
-/

namespace ContextConfig.Yaml

open Document (Writable textual record record_eq)
open Writer

mutual

/-- The nodes of a document, numbered from `start` on. -/
def nodesOf (start : Nat) : Document → List Node
  | .null | .other _ => [.scalar .null "null".toList]
  | .bool true => [.scalar .bool "true".toList]
  | .bool false => [.scalar .bool "false".toList]
  | .text content => [.scalar .str content.toList]
  | .mapping entries => .mapping .map (partsOf (start + 1) entries) :: entryNodes (start + 1) entries

/-- The nodes of the entries of a mapping. -/
def entryNodes (start : Nat) : List (Key × Document) → List Node
  | [] => []
  | (key, document) :: rest =>
    .scalar .str (keyChars key) :: nodesOf (start + 1) document
      ++ entryNodes (start + 1 + (nodesOf (start + 1) document).length) rest

/-- The numbers of the keys and values of a mapping. -/
def partsOf (start : Nat) : List (Key × Document) → List (NodeId × NodeId)
  | [] => []
  | (_, document) :: rest =>
    (start, start + 1) :: partsOf (start + 1 + (nodesOf (start + 1) document).length) rest

end

theorem scalarTag_text (text : List Char) :
    Build.scalarTag text (style .str text = .plain) none = .str := by
  obtain ⟨hstyle, h⟩ | ⟨hstyle, -⟩ | hstyle := style_cases .str text
  · simp [Build.scalarTag, hstyle, implicitTag_textualRules, (allowsPlain_iff.mp h).1]
  · simp [Build.scalarTag, hstyle]
  · simp [Build.scalarTag, hstyle]

namespace Build

variable {α β : Type} {b b' : Builder} {token : Token} {rest : List Token} {fuel : Nat}
  {block indentless : Bool}

theorem bind_eq {x : Build α} {f : α → Build β} {a : α} (h : x b = .ok (a, b')) :
    (x >>= f) b = f a b' := by
  simp only [bind, StateT.bind, h, Except.bind]

theorem bind_error {x : Build α} {f : α → Build β} {stop : Stop} (h : x b = .error stop) :
    (x >>= f) b = .error stop := by
  simp only [bind, StateT.bind, h, Except.bind]

theorem pure_apply (a : α) (b : Builder) : (pure a : Build α) b = .ok (a, b) := rfl

theorem get_apply (b : Builder) : (get : Build Builder) b = .ok (b, b) := rfl

theorem peek_eq (h : b.tokens = token :: rest) : peek b = .ok (token, b) := by
  rw [peek, bind_eq (get_apply b), h]
  rfl

theorem skip_eq (h : b.tokens = token :: rest) : skip b = .ok ((), { b with tokens := rest }) := by
  have hskip : skip b = .ok ((), { b with tokens := b.tokens.drop 1 }) := rfl
  rw [hskip, h]
  rfl

@[simp] theorem add_apply (node : Node) (b : Builder) :
    add node b = .ok (b.nodes.size, { b with nodes := b.nodes.push node }) := rfl

@[simp] theorem assign_apply (id : NodeId) (node : Node) (b : Builder) :
    assign id node b = .ok ((), { b with nodes := b.nodes.setIfInBounds id node }) := rfl

@[simp] theorem name_none (id : NodeId) (b : Builder) : name none id b = .ok ((), b) := rfl

@[simp] theorem completeTag_none (b : Builder) : completeTag none b = .ok (none, b) := rfl

theorem properties_eq (h : b.tokens = token :: rest) (hanchor : ∀ name, token ≠ .anchor name)
    (htag : ∀ name, token ≠ .tag name) : properties b = .ok ((none, none), b) := by
  rw [properties, bind_eq (peek_eq h)]
  split
  · exact absurd rfl (hanchor _)
  · exact absurd rfl (htag _)
  · rfl

theorem enter_eq (h : callsPerLevel ≤ b.room) :
    enter b = .ok ((), { b with room := b.room - callsPerLevel }) := by
  rw [enter, bind_eq (get_apply b), if_neg (Nat.not_lt.mpr h)]
  rfl

theorem enter_error (h : b.room < callsPerLevel) : enter b = .error (.fault .tooNested) := by
  rw [enter, bind_eq (get_apply b), if_pos h]
  rfl

@[simp] theorem leave_apply (b : Builder) :
    leave b = .ok ((), { b with room := b.room + callsPerLevel }) := rfl

/-- A collection has its number before its parts have theirs. -/
theorem collection_eq {start node : Node} {parts : Build Node} {more : Array Node}
    (hroom : callsPerLevel ≤ b.room)
    (h : parts { b with room := b.room - callsPerLevel, nodes := b.nodes.push start }
      = .ok (node, { b with
          room := b.room - callsPerLevel, tokens := rest, nodes := b.nodes.push start ++ more })) :
    collection none start parts b
      = .ok (b.nodes.size, { b with tokens := rest, nodes := b.nodes.push node ++ more }) := by
  have hassign : (b.nodes.push start ++ more).setIfInBounds b.nodes.size node
      = b.nodes.push node ++ more := by
    rw [Array.setIfInBounds_append_left (by simp), Array.push_eq_append, Array.setIfInBounds_append]
    simp
  rw [collection, bind_eq (enter_eq hroom), bind_eq (add_apply ..), bind_eq (name_none ..), bind_eq h,
    bind_eq (assign_apply ..), bind_eq (leave_apply _), hassign]
  dsimp only
  rw [Nat.sub_add_cancel hroom]
  rfl

theorem collection_error {start : Node} {parts : Build Node} {stop : Stop}
    (hroom : callsPerLevel ≤ b.room)
    (h : parts { b with room := b.room - callsPerLevel, nodes := b.nodes.push start } = .error stop) :
    collection none start parts b = .error stop := by
  rw [collection, bind_eq (enter_eq hroom), bind_eq (add_apply ..), bind_eq (name_none ..)]
  exact bind_error h

/-- A node without an anchor and a tag of its own is read by its first token. -/
theorem unadorned_eq {f : Option (List Char) × Option TagName → Option (List Char) → Token → Build α}
    (h : b.tokens = token :: rest) (hanchor : ∀ name, token ≠ .anchor name)
    (htag : ∀ name, token ≠ .tag name) :
    (properties >>= fun found => completeTag found.2 >>= fun tag => peek >>= fun t => f found tag t) b
      = f (none, none) none token b := by
  rw [bind_eq (properties_eq h hanchor htag)]
  dsimp only
  rw [bind_eq (completeTag_none b), bind_eq (peek_eq h)]

theorem node_scalar {text : List Char} {plain : Bool} (h : b.tokens = .scalar text plain :: rest) :
    node (fuel + 1) block indentless b = .ok (b.nodes.size,
      { b with tokens := rest, nodes := b.nodes.push (.scalar (scalarTag text plain none) text) }) := by
  rw [node, bind_eq (peek_eq h)]
  dsimp only
  rw [unadorned_eq h nofun nofun]
  cases indentless <;>
    exact (bind_eq (skip_eq h)).trans ((bind_eq (add_apply ..)).trans (bind_eq (name_none ..)))

theorem node_blockMapping (h : b.tokens = .blockMappingStart :: rest) :
    node (fuel + 1) true indentless b
      = collection none (.mapping .map []) (.mapping .map <$> blockEntries fuel)
          { b with tokens := rest } := by
  rw [node, bind_eq (peek_eq h)]
  dsimp only
  rw [unadorned_eq h nofun nofun]
  cases indentless <;> exact bind_eq (skip_eq h)

theorem node_flowSequence (h : b.tokens = .flowSequenceStart :: rest) :
    node (fuel + 1) block indentless b
      = collection none (.sequence .seq []) (.sequence .seq <$> flowItems fuel true)
          { b with tokens := rest } := by
  rw [node, bind_eq (peek_eq h)]
  dsimp only
  rw [unadorned_eq h nofun nofun]
  cases indentless <;> exact bind_eq (skip_eq h)

theorem node_flowMapping (h : b.tokens = .flowMappingStart :: rest) :
    node (fuel + 1) block indentless b
      = collection none (.mapping .map []) (.mapping .map <$> flowEntries fuel true)
          { b with tokens := rest } := by
  rw [node, bind_eq (peek_eq h)]
  dsimp only
  rw [unadorned_eq h nofun nofun]
  cases indentless <;> exact bind_eq (skip_eq h)

theorem map_eq {f : α → β} {x : Build α} {a : α} (h : x b = .ok (a, b')) :
    (f <$> x) b = .ok (f a, b') := by
  rw [map_eq_pure_bind, bind_eq h]
  rfl

theorem map_error {f : α → β} {x : Build α} {stop : Stop} (h : x b = .error stop) :
    (f <$> x) b = .error stop := by
  rw [map_eq_pure_bind]
  exact bind_error h

/-- A document is read from its tokens as its nodes, with room for so many levels. -/
def Builds (levels : Nat) (document : Document) : Prop :=
  ∀ ⦃b : Builder⦄ ⦃rest : List Token⦄ ⦃fuel : Nat⦄ ⦃indentless : Bool⦄,
    callsPerLevel * levels ≤ b.room → b.tokens = tokensOf document ++ rest →
    (tokensOf document).length ≤ fuel →
    node fuel true indentless b = .ok (b.nodes.size,
      { b with tokens := rest, nodes := b.nodes ++ (nodesOf b.nodes.size document).toArray })

theorem node_text {text : List Char} (h : b.tokens = textToken text :: rest) (hfuel : 0 < fuel) :
    node fuel true indentless b = .ok (b.nodes.size,
      { b with tokens := rest, nodes := b.nodes.push (.scalar .str text) }) := by
  obtain ⟨fuel, rfl⟩ := Nat.exists_eq_add_one.mpr hfuel
  rw [node_scalar h, scalarTag_text]

theorem builds_text (levels : Nat) (content : String) : Builds levels (.text content) := by
  intro b rest fuel indentless _ htokens hfuel
  rw [node_text htokens hfuel]
  simp [nodesOf]

theorem builds_bool (levels : Nat) (flag : Bool) : Builds levels (.bool flag) := by
  intro b rest fuel indentless _ htokens hfuel
  cases flag with
  | true =>
    have htag : scalarTag "true".toList true none = .bool := by decide +kernel
    obtain ⟨fuel, rfl⟩ := Nat.exists_eq_add_one.mpr hfuel
    rw [node_scalar htokens, htag]
    simp [nodesOf]
  | false =>
    have htag : scalarTag "false".toList true none = .bool := by decide +kernel
    obtain ⟨fuel, rfl⟩ := Nat.exists_eq_add_one.mpr hfuel
    rw [node_scalar htokens, htag]
    simp [nodesOf]

/-- There is room for one level where there is for some. -/
theorem le_room {levels : Nat} (h : callsPerLevel * (levels + 1) ≤ b.room) :
    callsPerLevel ≤ b.room ∧ callsPerLevel * levels ≤ b.room - callsPerLevel := by
  rw [Nat.mul_succ] at h
  omega

theorem builds_empty (levels : Nat) : Builds (levels + 1) (.mapping []) := by
  intro b rest fuel indentless hroom htokens hfuel
  obtain ⟨fuel, rfl⟩ := Nat.exists_eq_add_of_le' hfuel
  have hparts : flowEntries (fuel + 1) true { b with
        room := b.room - callsPerLevel, tokens := .flowMappingEnd :: rest,
        nodes := b.nodes.push (.mapping .map []) }
      = .ok ([], { b with
          room := b.room - callsPerLevel, tokens := rest,
          nodes := b.nodes.push (.mapping .map []) ++ #[] }) := by
    rw [flowEntries, bind_eq (peek_eq rfl), Array.append_empty]
    rfl
  rw [tokensOf, List.length_cons, List.length_singleton, node_flowMapping htokens]
  refine Eq.trans (collection_eq (le_room hroom).1 (map_eq hparts)) ?_
  simp [nodesOf, partsOf, entryNodes]

theorem tokensOf_eq_cons (document : Document) :
    ∃ token rest, tokensOf document = token :: rest ∧ endsBlockPart token = false := by
  cases document with
  | null => exact ⟨_, _, rfl, rfl⟩
  | other kind => exact ⟨_, _, rfl, rfl⟩
  | bool flag => cases flag <;> exact ⟨_, _, rfl, rfl⟩
  | text content => exact ⟨_, _, rfl, rfl⟩
  | mapping entries => cases entries <;> exact ⟨_, _, rfl, rfl⟩

theorem part_eq {x y : Build α} (h : b.tokens = token :: rest) (hpart : endsBlockPart token = false) :
    (peek >>= fun t => if endsBlockPart t then x else y) b = y b := by
  rw [bind_eq (peek_eq h), if_neg (by rw [hpart]; exact Bool.false_ne_true)]

/-- The key of an entry is read, and then the value behind its colon. -/
theorem blockEntries_key {text : List Char}
    (h : b.tokens = .key :: textToken text :: .value :: token :: rest)
    (hpart : endsBlockPart token = false) (hfuel : 0 < fuel) :
    blockEntries (fuel + 1) b = (node fuel true true >>= fun value =>
        blockEntries fuel >>= fun more => pure ((b.nodes.size, value) :: more))
      { b with tokens := token :: rest, nodes := b.nodes.push (.scalar .str text) } := by
  rw [blockEntries, bind_eq (peek_eq h)]
  refine (bind_eq (skip_eq h)).trans ?_
  rw [part_eq rfl rfl]
  refine (bind_eq (node_text rfl hfuel)).trans ?_
  dsimp only
  rw [bind_eq (peek_eq rfl)]
  dsimp only
  refine (bind_eq (skip_eq rfl)).trans ?_
  rw [part_eq rfl hpart]

/-- The entries of a block mapping are read up to its end. -/
theorem blockEntries_eq {levels : Nat} {entries : List (Key × Document)}
    (heach : ∀ e ∈ entries, Builds levels e.2) (hroom : callsPerLevel * levels ≤ b.room)
    (htokens : b.tokens = entryTokens entries ++ .blockEnd :: rest)
    (hfuel : (entryTokens entries).length < fuel) :
    blockEntries fuel b = .ok (partsOf b.nodes.size entries,
      { b with tokens := rest, nodes := b.nodes ++ (entryNodes b.nodes.size entries).toArray }) := by
  induction entries generalizing fuel b with
  | nil =>
    obtain ⟨fuel, rfl⟩ := Nat.exists_eq_add_one.mpr (Nat.zero_lt_of_lt hfuel)
    rw [blockEntries, bind_eq (peek_eq htokens)]
    refine (bind_eq (skip_eq htokens)).trans ?_
    simp [partsOf, entryNodes, pure_apply]
  | cons entry entries ih =>
    obtain ⟨key, document⟩ := entry
    obtain ⟨fuel, rfl⟩ := Nat.exists_eq_add_one.mpr (Nat.zero_lt_of_lt hfuel)
    obtain ⟨token, more, hhead, hpart⟩ := tokensOf_eq_cons document
    have hkey : b.tokens = .key :: textToken (keyChars key) :: .value :: token
        :: (more ++ (entryTokens entries ++ .blockEnd :: rest)) := by
      rw [htokens, entryTokens, hhead]
      simp
    have hlength : (tokensOf document).length + (entryTokens entries).length + 3 ≤ fuel := by
      simp only [entryTokens, List.cons_append, List.length_cons, List.length_append] at hfuel
      omega
    have hvalue : Builds levels document := heach (key, document) List.mem_cons_self
    have hrest : ∀ e ∈ entries, Builds levels e.2 := fun e he => heach e (List.mem_cons_of_mem _ he)
    rw [blockEntries_key hkey hpart (by omega)]
    refine Eq.trans (bind_eq (hvalue hroom (by rw [hhead]; rfl) (by omega))) ?_
    refine Eq.trans (bind_eq (ih hrest hroom rfl (by omega))) ?_
    simp [partsOf, entryNodes, pure_apply, Nat.add_assoc, Nat.add_comm 1]

/-- A mapping is read with all its entries. -/
theorem builds_mapping {levels : Nat} {first : Key × Document} {more : List (Key × Document)}
    (heach : ∀ e ∈ first :: more, Builds levels e.2) : Builds (levels + 1) (.mapping (first :: more)) := by
  intro b rest fuel indentless hroom htokens hfuel
  have hopening : b.tokens
      = .blockMappingStart :: (entryTokens (first :: more) ++ .blockEnd :: rest) := by
    rw [htokens, tokensOf]
    simp
  simp only [tokensOf, List.cons_append, List.length_cons, List.length_append] at hfuel
  obtain ⟨fuel, rfl⟩ := Nat.exists_eq_add_one.mpr (Nat.zero_lt_of_lt hfuel)
  rw [node_blockMapping hopening]
  obtain ⟨hlevel, hinside⟩ := le_room hroom
  refine Eq.trans (collection_eq hlevel (map_eq (blockEntries_eq heach hinside rfl (by omega)))) ?_
  simp [nodesOf]

theorem builds_of_writable {depth : Nat} {document : Document} (h : Writable depth document) :
    Builds depth document := by
  induction h with
  | bool flag => exact builds_bool _ flag
  | text content => exact builds_text _ content
  | @record depth fields _ _ ih =>
    cases fields with
    | nil => exact builds_empty depth
    | cons field fields =>
      have heach : ∀ e ∈ textual (field :: fields), Builds depth e.2 :=
        List.forall_mem_map.mpr fun field hfield => ih field hfield
      exact builds_mapping heach

theorem directives_eq {versioned : Bool} {handles : List (List Char × List Char)}
    (h : b.tokens = token :: rest) (hdirective : isDirective token = false) :
    directives (fuel + 1) versioned handles b
      = .ok ((), { b with handles := handles ++ standardHandles }) := by
  rw [directives, bind_eq (peek_eq h)]
  cases token <;> first | rfl | cases hdirective

theorem documentEnds_eq (h : b.tokens = token :: rest) (htoken : token ≠ .documentEnd) :
    documentEnds fuel b = .ok ((), b) := by
  cases fuel with
  | zero => rfl
  | succ fuel =>
    rw [documentEnds, bind_eq (peek_eq h)]
    cases token <;> first | rfl | exact absurd rfl htoken

/-- Whether a token opens a document without a marker. -/
def opensDocument (token : Token) : Bool :=
  !(token = .streamEnd || isDirective token || token = .documentStart)

/-- A document without a marker is its root node. -/
theorem document_eq_node (h : b.tokens = token :: rest) (hopens : opensDocument token = true) :
    Build.document (fuel + 1) b = (node (fuel + 1) true false >>= fun root =>
      documentEnds (fuel + 1) >>= fun _ => peek >>= fun t =>
        if t = .streamEnd then pure (some root)
        else directives (fuel + 1) false [] >>= fun _ => malformed)
      { b with handles := standardHandles } := by
  simp only [opensDocument, Bool.not_eq_true', Bool.or_eq_false_iff, decide_eq_false_iff_not] at hopens
  obtain ⟨⟨hend, hdirective⟩, hstart⟩ := hopens
  rw [Build.document, bind_eq (peek_eq h), if_neg hend, if_neg (by simp [hdirective, hstart])]
  exact bind_eq (directives_eq h hdirective)

/-- A text that holds one node is read as that. -/
theorem document_of_node {id : NodeId} (h : b.tokens = token :: rest)
    (hopens : opensDocument token = true) (hend : b'.tokens = [.streamEnd])
    (hnode : node (fuel + 1) true false { b with handles := standardHandles } = .ok (id, b')) :
    Build.document (fuel + 1) b = .ok (some id, b') := by
  rw [document_eq_node h hopens, bind_eq hnode]
  refine (bind_eq (documentEnds_eq hend (by decide))).trans ?_
  rw [bind_eq (peek_eq hend), if_pos rfl]
  rfl

/-- A text that holds one mapping is read as that. -/
theorem document_eq {levels : Nat} {first : Key × Document} {more : List (Key × Document)}
    (h : Builds levels (.mapping (first :: more))) (hroom : callsPerLevel * levels ≤ b.room)
    (htokens : b.tokens = tokensOf (.mapping (first :: more)) ++ [.streamEnd])
    (hfuel : (tokensOf (.mapping (first :: more))).length ≤ fuel) :
    Build.document fuel b = .ok (some b.nodes.size, { b with
      tokens := [.streamEnd], handles := standardHandles,
      nodes := b.nodes ++ (nodesOf b.nodes.size (.mapping (first :: more))).toArray }) := by
  have hopening : b.tokens
      = .blockMappingStart :: (entryTokens (first :: more) ++ [.blockEnd, .streamEnd]) := by
    rw [htokens, tokensOf]
    simp
  have hpositive : 0 < fuel := Nat.lt_of_lt_of_le (by simp [tokensOf]) hfuel
  obtain ⟨n, rfl⟩ := Nat.exists_eq_add_one.mpr hpositive
  exact document_of_node hopening rfl rfl (h hroom htokens hfuel)

section Broken

/-- Reading finds no token where it needs one, or the next reader does. -/
def Breaks (x : Build α) (b : Builder) : Prop :=
  x b = .error .malformed ∨ ∃ a b', x b = .ok (a, b') ∧ b'.tokens = [] ∧ b'.ending = .malformed

theorem peek_nil (h : b.tokens = []) : peek b = .error b.ending := by
  rw [peek, bind_eq (get_apply b), h]
  rfl

theorem peek_ended {f : Token → Build α} (htokens : b.tokens = []) (hending : b.ending = .malformed) :
    (peek >>= f) b = .error .malformed := by
  rw [bind_error (peek_nil htokens), hending]

theorem Breaks.bind {x : Build α} {f : α → Build β} (hx : Breaks x b)
    (hf : ∀ a b', b'.tokens = [] → b'.ending = .malformed → f a b' = .error .malformed) :
    (x >>= f) b = .error .malformed := by
  obtain h | ⟨a, b', h, htokens, hending⟩ := hx
  · exact bind_error h
  · rw [bind_eq h]
    exact hf a b' htokens hending

theorem blockEntries_ended (htokens : b.tokens = []) (hending : b.ending = .malformed) (fuel : Nat) :
    blockEntries fuel b = .error .malformed := by
  cases fuel with
  | zero => rw [blockEntries]; rfl
  | succ fuel =>
    rw [blockEntries]
    exact peek_ended htokens hending

/-- The tokens of a document in front of a key that is too long are not read to an end. -/
def BreaksOff (levels : Nat) (document : Document) : Prop :=
  ∀ ⦃b : Builder⦄ ⦃fuel : Nat⦄ ⦃indentless : Bool⦄, callsPerLevel * levels ≤ b.room →
    b.tokens = brokenTokens document → b.ending = .malformed →
    (brokenTokens document).length < fuel → Breaks (node fuel true indentless) b

theorem brokenTokens_eq_cons {document : Document} (h : isLegible document = false) :
    ∃ token rest, brokenTokens document = token :: rest ∧ endsBlockPart token = false ∧
      opensDocument token = true := by
  cases document with
  | mapping entries =>
    cases entries with
    | nil => cases h
    | cons entry entries =>
      obtain ⟨key, document⟩ := entry
      rw [brokenTokens]
      split
      · exact ⟨_, _, rfl, rfl, rfl⟩
      · exact ⟨_, _, rfl, rfl, rfl⟩
  | _ => cases h

theorem blockEntries_broken {levels : Nat} {entries : List (Key × Document)}
    (heach : ∀ e ∈ entries, Builds levels e.2 ∧ (isLegible e.2 = false → BreaksOff levels e.2))
    (hlong : areLegible entries = false) (hroom : callsPerLevel * levels ≤ b.room)
    (htokens : b.tokens = brokenEntries entries) (hending : b.ending = .malformed)
    (hfuel : (brokenEntries entries).length < fuel) : blockEntries fuel b = .error .malformed := by
  induction entries generalizing fuel b with
  | nil => cases hlong
  | cons entry entries ih =>
    obtain ⟨key, document⟩ := entry
    obtain ⟨hfirst, hrest⟩ := List.forall_mem_cons.mp heach
    obtain ⟨hbuilds, hbreaks⟩ : Builds levels document ∧
      (isLegible document = false → BreaksOff levels document) := hfirst
    rw [brokenEntries] at htokens hfuel
    by_cases hfits : fits key = true
    case neg =>
      rw [if_neg hfits] at htokens
      exact blockEntries_ended htokens hending fuel
    rw [if_pos hfits] at htokens hfuel
    obtain ⟨fuel, rfl⟩ := Nat.exists_eq_add_one.mpr (Nat.zero_lt_of_lt hfuel)
    cases hlegible : isLegible document with
    | true =>
      rw [hlegible, if_pos rfl] at htokens hfuel
      simp only [List.length_cons, List.length_append] at hfuel
      obtain ⟨token, more, hhead, hpart⟩ := tokensOf_eq_cons document
      have hmore : areLegible entries = false := by
        rw [areLegible, hfits, hlegible] at hlong
        exact hlong
      have hkey : b.tokens = .key :: textToken (keyChars key) :: .value :: token
          :: (more ++ brokenEntries entries) := by
        rw [htokens, hhead, List.cons_append]
      rw [blockEntries_key hkey hpart (by omega)]
      refine Eq.trans (bind_eq (hbuilds hroom (by rw [hhead]; rfl) (by omega))) (bind_error ?_)
      exact ih hrest hmore hroom rfl hending (by omega)
    | false =>
      rw [hlegible, if_neg Bool.false_ne_true] at htokens hfuel
      simp only [List.length_cons] at hfuel
      obtain ⟨token, more, hhead, hpart, -⟩ := brokenTokens_eq_cons hlegible
      rw [hhead] at htokens
      rw [blockEntries_key htokens hpart (by omega)]
      have hvalue : Breaks (node fuel true true) { b with
          tokens := token :: more, nodes := b.nodes.push (.scalar .str (keyChars key)) } :=
        hbreaks hlegible hroom hhead.symm hending (by omega)
      exact hvalue.bind fun _ _ htokens hending => bind_error (blockEntries_ended htokens hending fuel)

theorem breaksOff_mapping {levels : Nat} {first : Key × Document} {more : List (Key × Document)}
    (heach : ∀ e ∈ first :: more, Builds levels e.2 ∧ (isLegible e.2 = false → BreaksOff levels e.2))
    (hlong : areLegible (first :: more) = false) :
    BreaksOff (levels + 1) (.mapping (first :: more)) := by
  intro b fuel indentless hroom htokens hending hfuel
  obtain ⟨key, document⟩ := first
  rw [brokenTokens] at htokens hfuel
  by_cases hfits : fits key = true
  · rw [if_pos hfits] at htokens hfuel
    obtain ⟨fuel, rfl⟩ := Nat.exists_eq_add_one.mpr (Nat.zero_lt_of_lt hfuel)
    obtain ⟨hlevel, hinside⟩ := le_room hroom
    refine .inl ((node_blockMapping htokens).trans (collection_error hlevel (map_error ?_)))
    exact blockEntries_broken heach hlong hinside rfl hending (Nat.lt_of_succ_lt_succ hfuel)
  · rw [if_neg hfits] at htokens hfuel
    exact .inr ⟨_, _, node_text htokens (Nat.zero_lt_of_lt hfuel), rfl, hending⟩

theorem breaksOff_of_writable {depth : Nat} {document : Document} (h : Writable depth document)
    (hlong : isLegible document = false) : BreaksOff depth document := by
  induction h with
  | bool flag => cases hlong
  | text content => cases hlong
  | @record depth fields _ each ih =>
    cases fields with
    | nil => cases hlong
    | cons field fields =>
      have heach : ∀ e ∈ textual (field :: fields),
          Builds depth e.2 ∧ (isLegible e.2 = false → BreaksOff depth e.2) :=
        List.forall_mem_map.mpr fun field hfield =>
          ⟨builds_of_writable (each field hfield), ih field hfield⟩
      exact breaksOff_mapping heach hlong

/-- A text whose tokens end in front of a key that is too long holds no document. -/
theorem document_broken {levels : Nat} {document : Document} (h : BreaksOff levels document)
    (hlong : isLegible document = false) (hroom : callsPerLevel * levels ≤ b.room)
    (htokens : b.tokens = brokenTokens document) (hending : b.ending = .malformed)
    (hfuel : (brokenTokens document).length ≤ fuel) :
    Build.document (fuel + 1) b = .error .malformed := by
  obtain ⟨token, rest, hhead, -, hopens⟩ := brokenTokens_eq_cons hlong
  have hroot : Breaks (node (fuel + 1) true false) { b with handles := standardHandles } :=
    h hroom htokens hending (Nat.lt_succ_of_le hfuel)
  rw [document_eq_node (htokens.trans hhead) hopens]
  refine hroot.bind fun _ b' htokens hending => bind_error ?_
  rw [documentEnds]
  exact peek_ended htokens hending

end Broken

end Build

open Build

/-- The tokens of a mapping are read as a document. -/
theorem ofTokens_tokensOf {levels room : Nat} {first : Key × Document} {more : List (Key × Document)}
    (h : Builds levels (.mapping (first :: more))) (hroom : callsPerLevel * levels ≤ room) :
    Graph.ofTokens room (tokensOf (.mapping (first :: more)) ++ [.streamEnd]) none
      = .ok ⟨(nodesOf 0 (.mapping (first :: more))).toArray, some 0⟩ := by
  rw [Graph.ofTokens, StateT.run, document_eq h hroom rfl (by rw [List.length_append]; omega)]
  simp [bind, Except.bind, pure, Except.pure]

/-- The tokens in front of a key that is too long describe nothing. -/
theorem ofTokens_brokenTokens {levels room : Nat} {document : Document} (h : BreaksOff levels document)
    (hlong : isLegible document = false) (hroom : callsPerLevel * levels ≤ room) :
    Graph.ofTokens room (brokenTokens document) (some .malformed) = .error .malformed := by
  rw [Graph.ofTokens, StateT.run, document_broken h hlong hroom rfl rfl (by omega)]
  rfl

end ContextConfig.Yaml
