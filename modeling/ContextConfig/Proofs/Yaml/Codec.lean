import ContextConfig.Proofs.Json.Codec
import ContextConfig.Proofs.Yaml.Construction
import ContextConfig.Proofs.Yaml.Quoting
/-!
# Configurations in YAML

A configuration is decoded from its YAML bytes exactly if the written form of each of its context
names ends where a key without a question mark has to; otherwise the bytes are rejected. The bytes
are those of an ASCII text, the text is read as its tokens, the tokens as nodes and the nodes as the
document of the configuration.
-/

namespace ContextConfig

open Document (Writable textual record record_eq ofSource ofAuthentication ofClient ofConfiguration)

namespace Yaml

open Writer

section Bytes

variable {hand : Hand}

theorem ordinary_entry (indent : Nat) (key : Key) {value : Nat → Bool → List Char}
    (h : ∀ column complexKey, ∀ x ∈ value column complexKey, isOrdinary x = true) :
    ∀ x ∈ hand.entry indent key value, isOrdinary x = true := by
  have hscalar (simpleKey : Bool) (indent column : Nat) :=
    hand.ordinary_scalar simpleKey indent column
  rw [Hand.entry]
  split
  · dsimp only
    rw [List.forall_mem_append, List.forall_mem_cons]
    exact ⟨hscalar _ _ _ _, rfl, h _ _⟩
  · simp only [List.cons_append, List.forall_mem_cons, List.forall_mem_append]
    exact ⟨rfl, rfl, ⟨hscalar _ _ _ _, ordinary_newLine _⟩, rfl, h _ _⟩

mutual

theorem ordinary_value (indent column : Nat) (complexKey : Bool) : (document : Document) →
    ∀ x ∈ hand.value indent column complexKey document, isOrdinary x = true
  | .null | .other _ | .bool true | .bool false | .mapping [] => by
    rw [Hand.value]
    exact List.all_eq_true.mp (by decide)
  | .text text => by
    rw [Hand.value, List.forall_mem_cons]
    exact ⟨rfl, fun x hx => hand.ordinary_scalar _ _ _ _ x hx⟩
  | .mapping ((key, first) :: rest) => by
    rw [Hand.value, List.forall_mem_append, List.forall_mem_append]
    refine ⟨⟨?_, ordinary_entry _ _ fun column complexKey => ?_⟩, ordinary_entries (indent + 2) rest⟩
    · split
      · exact List.all_eq_true.mp (by decide)
      · exact ordinary_newLine _
    · exact ordinary_value (indent + 2) column complexKey first

theorem ordinary_entries (indent : Nat) : (entries : List (Key × Document)) →
    ∀ x ∈ hand.entries indent entries, isOrdinary x = true
  | [] => by simp [Hand.entries]
  | (key, document) :: rest => by
    rw [Hand.entries, List.forall_mem_append, List.forall_mem_append]
    refine ⟨⟨ordinary_newLine _, ordinary_entry _ _ fun column complexKey => ?_⟩,
      ordinary_entries indent rest⟩
    exact ordinary_value indent column complexKey document

end

/-- What is written for a document is ASCII in lines. -/
theorem ordinary_write (document : Document) : ∀ x ∈ hand.write document, isOrdinary x = true := by
  unfold Hand.write
  split
  · rw [List.forall_mem_append, List.forall_mem_append]
    refine ⟨⟨ordinary_entry _ _ fun column complexKey => ?_, ordinary_entries 0 _⟩,
      List.all_eq_true.mp (by decide)⟩
    exact ordinary_value 0 column complexKey _
  · exact List.all_eq_true.mp (by decide)

theorem isAllowed_of_isOrdinary {x : Char} (h : isOrdinary x = true) : isAllowed x = true := by
  simp only [isOrdinary, Bool.or_eq_true, decide_eq_true_eq] at h
  obtain rfl | h := h
  · rfl
  · simp [isAllowed, h]

/-- A text of ordinary characters is read from its bytes. -/
theorem decodeBytes_bytes {x : Char} {text : List Char}
    (h : ∀ y ∈ x :: text, isOrdinary y = true) :
    decodeBytes (Encoding.bytes (x :: text)) = .ok (x :: text) := by
  have hallowed : (x :: text).all isAllowed = true :=
    List.all_eq_true.mpr fun y hy => isAllowed_of_isOrdinary (h y hy)
  have hdetect : detect (Encoding.bytes (x :: text)) = .utf8 := by
    have hascii : x.toNat < 128 := by
      obtain rfl | hx := isOrdinary_iff.mp (h x List.mem_cons_self)
      · decide
      · exact Nat.lt_of_le_of_lt hx.2 (by decide)
    have hbyte := Encoding.bytes_cons_ascii (decide_eq_true hascii) text
    have hmark : ∀ mark : UInt8, 128 ≤ mark → UInt8.ofNat x.toNat ≠ mark := by
      rintro mark hmark rfl
      rw [UInt8.le_iff_toNat_le, UInt8.toNat_ofNat', Nat.mod_eq_of_lt (by omega)] at hmark
      exact absurd hmark (Nat.not_le.mpr hascii)
    rw [hbyte]
    simp [detect, hmark 0xFF (by decide), hmark 0xFE (by decide)]
  have hread : Encoding.utf8.read .strict 0 (Encoding.bytes (x :: text)) = .ok (x :: text) :=
    Encoding.readUtf8_bytes ..
  rw [decodeBytes, hdetect, hread]
  simp only [hallowed, if_true]

/-- What is written for a document is read from its bytes. -/
theorem decodeBytes_write (hand : Hand) (document : Document) :
    decodeBytes (Encoding.bytes (hand.write document)) = .ok (hand.write document) := by
  have hordinary : ∀ x ∈ hand.write document, isOrdinary x = true := ordinary_write document
  cases hwritten : hand.write document with
  | nil => rfl
  | cons x rest => exact decodeBytes_bytes (hwritten ▸ hordinary)

theorem ofBytes_write (hand : Hand) (document : Document) :
    ofBytes (Encoding.bytes (hand.write document)) = readText (hand.write document) := by
  rw [ofBytes, decodeBytes_write]
  simp only [bind, Except.bind]

end Bytes

section Reading

/-- A record is read from its text unless a key in it is too long. -/
theorem readText_write (hand : Hand) {first : String × Document} {more : List (String × Document)}
    (h : Writable documentDepth (record (first :: more))) :
    readText (hand.write (record (first :: more)))
      = if isLegible (record (first :: more)) then .ok (record (first :: more))
        else .error .malformed := by
  have hroom : Build.callsPerLevel * documentDepth ≤ maxCalls := by decide
  have htokens := ofText_write_record hand (by decide) h.each
  rw [readText, readWithin, htokens]
  cases hlegible : isLegible (record (first :: more)) with
  | true =>
    have hgraph : Graph.ofTokens maxCalls
        ((tokensOf (record (first :: more))).map hand.token ++ [.streamEnd]) none
          = .ok ⟨(nodesOf 0 (record (first :: more))).toArray, some 0⟩ := by
      have hquoted := Graph.ofTokens_map (judged_token hand) maxCalls
        (tokensOf (record (first :: more)) ++ [.streamEnd]) none
      rw [List.map_append] at hquoted
      exact hquoted.trans (ofTokens_tokensOf (Build.builds_of_writable h) hroom)
    have hvisited := visited_nodesOf h.composed (show 0 < maxCalls by decide)
    have hdocument : Graph.document (nodesOf 0 (record (first :: more))).toArray documentDepth 0
        = record (first :: more) := document_of_holds h (holds_toArray [] _)
    simp only [if_true, readTokens, bind, Except.bind, hgraph, hvisited, hdocument]
    rfl
  | false =>
    have hgraph : Graph.ofTokens maxCalls ((brokenTokens (record (first :: more))).map hand.token)
        (some .malformed) = .error .malformed :=
      (Graph.ofTokens_map (judged_token hand) ..).trans
        (ofTokens_brokenTokens (Build.breaksOff_of_writable h hlegible) hlegible hroom)
    simp only [Bool.false_eq_true, if_false, readTokens, bind, Except.bind, hgraph]

end Reading

section Lengths

theorem length_escaped_le (c : Char) : (escaped c).length ≤ 10 := by
  rw [escaped]
  split
  · simp
  · split
    · simp [Text.length_hexDigits]
    · split <;> simp [Text.length_hexDigits]

theorem length_doubleChars_le {indent column : Nat} {first afterEscape : Bool} (text : List Char) :
    (doubleChars indent false column first afterEscape text).length ≤ 10 * text.length := by
  induction text generalizing column first afterEscape with
  | nil => exact Nat.le_refl _
  | cons c text ih =>
    have hescaped := length_escaped_le c
    simp only [doubleChars, Bool.false_and, Bool.false_eq_true, if_false]
    split
    · rw [List.length_cons, List.length_cons]
      have := @ih (column + 1) false false
      omega
    · rw [List.length_append, List.length_cons]
      have := @ih (column + (escaped c).length) false true
      omega

/-- An escape has ten characters at most. -/
theorem length_scalar_le (text : List Char) :
    (scalar .str true 0 0 text).length ≤ 10 * text.length + 2 := by
  rw [scalar]
  split
  · rw [if_pos rfl]
    omega
  · have hdoubled := length_doubled_le text
    rw [if_pos rfl, List.cons_append, List.length_cons, List.length_append, List.length_singleton]
    omega
  · have hescaped := @length_doubleChars_le 0 1 true true text
    rw [List.cons_append, List.length_cons, List.length_append, List.length_singleton]
    exact Nat.add_le_add_right hescaped 2

/-- A key of up to 102 characters ends where it has to, whatever it consists of. -/
theorem fits_of_length_le {name : String} (h : name.length ≤ 102) : fits (.text name) = true := by
  have hkey : (keyChars (.text name)).length ≤ 102 := h
  have hwritten : (scalar .str true 0 0 (keyChars (.text name))).length ≤ Lexer.maxKeyLength := by
    apply Nat.le_trans (length_scalar_le _)
    rw [Lexer.maxKeyLength]
    omega
  simp [fits, hwritten]

theorem isLegible_record {fields : List (String × Document)} : isLegible (record fields) = true
    ↔ ∀ field ∈ fields, fits (.text field.1) = true ∧ isLegible field.2 = true := by
  rw [record_eq, isLegible]
  induction fields with
  | nil => simp [textual, areLegible]
  | cons field fields ih =>
    rw [textual, List.map_cons, areLegible, List.forall_mem_cons, ← ih, Bool.and_eq_true, Bool.and_eq_true]
    rfl

end Lengths

section Fields

variable {v : Vocabulary}

/-- The names of all fields. -/
def fieldNames (v : Vocabulary) : List String :=
  v.blocks.flatten ++ [v.keytabFile, v.cacheFile]

theorem fits_fieldNames : ∀ name ∈ fieldNames .yaml, fits (.text name) = true := by
  have hlength : ∀ name ∈ fieldNames .yaml, name.length ≤ 102 := by decide
  intro name hname
  exact fits_of_length_le (hlength name hname)

variable (hv : ∀ name ∈ fieldNames v, fits (.text name) = true)
include hv

theorem isLegible_ofAuthentication (a : Authentication) :
    fits (.text (ofAuthentication v a).1) = true ∧ isLegible (ofAuthentication v a).2 = true := by
  simp [fieldNames, Vocabulary.blocks] at hv
  cases a with
  | basic username password => simp [ofAuthentication, isLegible_record, isLegible, hv]
  | kerberos confFile source =>
    cases source with
    | none => simp [ofAuthentication, isLegible_record, isLegible, hv]
    | some source =>
      cases source <;> simp [ofAuthentication, ofSource, isLegible_record, isLegible, hv]

theorem isLegible_ofClient (omitEmpty : Bool) (c : Client) :
    isLegible (ofClient v omitEmpty c) = true := by
  have hcredentials := isLegible_ofAuthentication hv
  simp only [fieldNames, Vocabulary.blocks, List.flatten_cons, List.flatten_nil, List.append_nil,
    List.cons_append, List.nil_append, List.forall_mem_cons] at hv
  obtain ⟨-, -, hhost, htoken, htimeout, hdebug, -⟩ := hv
  rw [ofClient, isLegible_record]
  intro field hfield
  simp only [List.mem_cons, List.mem_append] at hfield
  obtain rfl | h | h | h | h := hfield
  · exact ⟨hhost, rfl⟩
  · rw [Document.mem_optional h]
    exact ⟨htoken, rfl⟩
  · rw [Document.mem_optional h]
    exact ⟨htimeout, rfl⟩
  · rw [Document.mem_optional h]
    exact ⟨hdebug, rfl⟩
  · obtain ⟨a, -, rfl⟩ := Option.map_eq_some_iff.mp (Option.mem_toList.mp h)
    exact hcredentials a

/-- Only the names of contexts can be too long. -/
theorem isLegible_ofConfiguration (omitEmpty : Bool) (c : Configuration) :
    isLegible (ofConfiguration v omitEmpty c) = true
      ↔ ∀ name ∈ c.contexts.names, fits (.text name) = true := by
  have hcontexts : isLegible (record (c.contexts.entries.map fun e =>
      (e.1, ofClient v omitEmpty e.2))) = true ↔ ∀ name ∈ c.contexts.names, fits (.text name) = true := by
    rw [isLegible_record, List.forall_mem_map, OrderedMap.names, List.forall_mem_map]
    exact forall₂_congr fun e _ => ⟨And.left, fun h => ⟨h, isLegible_ofClient hv ..⟩⟩
  simp only [fieldNames, Vocabulary.blocks, List.flatten_cons, List.flatten_nil, List.append_nil,
    List.cons_append, List.nil_append, List.forall_mem_cons] at hv
  obtain ⟨hcurrent, hname, -⟩ := hv
  rw [ofConfiguration, isLegible_record, List.forall_mem_cons, List.forall_mem_cons]
  simp [hcurrent, hname, hcontexts, isLegible]

end Fields

end Yaml

namespace Format

open Yaml (fits)

/-- The document of a configuration is read as it is written by any hand, exactly if the names of
all its contexts fit. -/
theorem parse_yaml_write (hand : Yaml.Hand) (path : String) (omitEmpty : Bool) (c : Configuration) :
    (yaml.parse path (Encoding.bytes (hand.write (ofConfiguration .yaml omitEmpty c)))).value
      = if ∀ name ∈ c.contexts.names, fits (.text name) then
          .ok (ofConfiguration .yaml omitEmpty c)
        else .error (.yaml path) := by
  have hread : Yaml.readText (hand.write (ofConfiguration .yaml omitEmpty c))
      = if Yaml.isLegible (ofConfiguration .yaml omitEmpty c) then
          .ok (ofConfiguration .yaml omitEmpty c)
        else .error .malformed := by
    have hwritable := Document.writable_ofConfiguration Vocabulary.distinct_yaml omitEmpty c
    rw [ofConfiguration] at hwritable ⊢
    exact Yaml.readText_write hand hwritable
  have hlegible := Yaml.isLegible_ofConfiguration Yaml.fits_fieldNames omitEmpty c
  have hbytes := Yaml.ofBytes_write hand (ofConfiguration .yaml omitEmpty c)
  by_cases h : ∀ name ∈ c.contexts.names, fits (.text name) = true
  · rw [if_pos (hlegible.mpr h)] at hread
    simp only [parse, hbytes, hread, if_pos h, pure]
  · rw [if_neg (mt hlegible.mp h)] at hread
    simp only [parse, hbytes, hread, if_neg h, Logged.bind_value]
    rfl

theorem encode_yaml (c : Configuration) :
    yaml.encode c = Encoding.bytes (Yaml.Hand.writer.write (ofConfiguration .yaml false c)) := by
  rw [Yaml.Hand.write_writer]
  rfl

theorem parse_yaml_encode (path : String) (c : Configuration) :
    (yaml.parse path (yaml.encode c)).value
      = if ∀ name ∈ c.contexts.names, fits (.text name) then .ok (ofConfiguration .yaml false c)
        else .error (.yaml path) := by
  rw [encode_yaml]
  exact parse_yaml_write .writer path false c

/-- A configuration is decoded as it is written by any hand, exactly if the names of all its contexts
fit. -/
theorem decode_yaml_write (hand : Yaml.Hand) (path : String) (omitEmpty : Bool) (c : Configuration) :
    (yaml.decode path (Encoding.bytes (hand.write (ofConfiguration .yaml omitEmpty c)))).value
      = if ∀ name ∈ c.contexts.names, fits (.text name) then .ok c else .error (.yaml path) := by
  have hparse := parse_yaml_write hand path omitEmpty c
  split
  case isTrue h =>
    rw [if_pos h] at hparse
    exact decode_of_parse hparse
  case isFalse h =>
    rw [if_neg h] at hparse
    rw [decode_value, hparse]

/-- A configuration is decoded from its YAML bytes, with its contexts in their order, exactly if the
names of all its contexts fit; otherwise the bytes are rejected. -/
theorem decode_encode_yaml (path : String) (c : Configuration) :
    (yaml.decode path (yaml.encode c)).value
      = if ∀ name ∈ c.contexts.names, fits (.text name) then .ok c else .error (.yaml path) := by
  rw [encode_yaml]
  exact decode_yaml_write .writer path false c

/-- A configuration with a name of 103 characters, each of which is written as an escape. -/
def escapedName : Configuration where
  current := "x"
  contexts := .ofList [(String.ofList (List.replicate 103 (Char.ofNat 0x1F600)), { host := "h" })]

theorem decode_encode_escapedName :
    (yaml.decode "<memory>" (yaml.encode escapedName)).value = .error (.yaml "<memory>") := by
  have hname : fits (.text (String.ofList (List.replicate 103 (Char.ofNat 0x1F600)))) = false := by
    rw [fits, Yaml.Writer.keyChars, String.toList_ofList]
    decide +kernel
  have hfits : ¬ ∀ name ∈ escapedName.contexts.names, fits (.text name) = true :=
    fun h => Bool.false_ne_true (hname.symm.trans (h _ List.mem_cons_self))
  rw [decode_value, parse_yaml_encode, if_neg hfits]

end Format

end ContextConfig
