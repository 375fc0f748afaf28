import ContextConfig.Proofs.Codec
import ContextConfig.Proofs.Encoding
import ContextConfig.Proofs.Json.Values
/-!
# Configurations in JSON

Whatever a configuration holds, its JSON bytes decode to it. The bytes are those of an ASCII text
that starts with a brace and a line break, so they are taken for UTF-8; the text is read as the
object that was printed; and the object describes the document of the configuration.
-/

namespace ContextConfig

open Document (textual)

theorem Document.entriesToJson_textual (fields : List (String × Document)) :
    entriesToJson (textual fields) = fields.map fun field => (field.1, field.2.toJson) := by
  induction fields with
  | nil => rfl
  | cons field fields ih =>
    change (field.1, field.2.toJson) :: entriesToJson (textual fields) = _
    rw [ih, List.map_cons]

/-- The JSON value of a document can be read back once it is printed. -/
theorem Document.Writable.legible {depth : Nat} {d : Document} (h : Writable depth d) :
    d.toJson.Legible depth := by
  induction h with
  | bool flag => exact .bool flag
  | text content => exact .string content
  | @record _ fields distinct each ih =>
    rw [record_eq, toJson, entriesToJson_textual]
    refine .object ?_ ?_
    · simpa [Function.comp_def] using distinct
    · intro field hfield
      obtain ⟨original, hmem, rfl⟩ := List.mem_map.mp hfield
      exact ih original hmem

/-- No document is changed by way of JSON. -/
theorem Document.Writable.toDocument_toJson {depth : Nat} {d : Document} (h : Writable depth d) :
    d.toJson.toDocument = d := by
  induction h with
  | bool flag => rfl
  | text content => rfl
  | @record _ fields distinct each ih =>
    rw [record_eq, toJson, entriesToJson_textual, Json.toDocument]
    congr 1
    clear distinct each
    induction fields with
    | nil => rfl
    | cons field fields ih' =>
      rw [List.map_cons, Json.fieldsToDocument, ih field List.mem_cons_self,
        ih' fun f hf => ih f (List.mem_cons_of_mem _ hf)]
      rfl

namespace Json

/-- The byte of an ASCII character other than the null one. -/
theorem byte_of_isAscii {c : Char} (h : Encoding.isAscii c = true) (hnull : c ≠ '\x00') :
    UInt8.ofNat c.toNat ≠ 0 ∧ UInt8.ofNat c.toNat < 128 := by
  have hc : c.toNat < 128 := by simpa [Encoding.isAscii] using h
  have hpositive : c.toNat ≠ 0 := fun hzero => hnull (Char.toNat_inj.mp hzero)
  constructor
  · intro hzero
    have hnat := congrArg UInt8.toNat hzero
    rw [UInt8.toNat_ofNat', Nat.mod_eq_of_lt (by omega)] at hnat
    exact hpositive hnat
  · rw [UInt8.lt_iff_toNat_lt, UInt8.toNat_ofNat', Nat.mod_eq_of_lt (by omega)]
    exact hc

theorem detect_ascii {a b : UInt8} (ha : a ≠ 0 ∧ a < 128) (hb : b ≠ 0 ∧ b < 128) (c d : UInt8)
    (rest : List UInt8) : detect (a :: b :: c :: d :: rest) = (.utf8, 0) := by
  have hmark : ∀ mark : UInt8, 128 ≤ mark → a ≠ mark := by
    rintro mark hmark rfl
    exact absurd hmark (UInt8.not_le.mpr ha.2)
  have hbom : ∀ mark : UInt8, 128 ≤ mark → (mark == a) = false := fun mark h =>
    beq_false_of_ne (hmark mark h).symm
  have hzero : ((0 : UInt8) == a) = false := beq_false_of_ne ha.1.symm
  simp only [detect, List.isPrefixOf, hzero, hbom 0xFE (by decide), hbom 0xFF (by decide),
    hbom 0xEF (by decide), Bool.false_and, Bool.false_eq_true, if_false, ha.1, hb.1]

/-- A text that starts with ASCII characters other than the null one is taken for UTF-8. -/
theorem decodeBytes_ascii {a b c d : Char} (rest : List Char)
    (h : [a, b, c, d].all fun c => Encoding.isAscii c && c ≠ '\x00') :
    decodeBytes (Encoding.bytes (a :: b :: c :: d :: rest)) = .ok (a :: b :: c :: d :: rest) := by
  simp only [List.all_cons, List.all_nil, Bool.and_eq_true, decide_eq_true_eq] at h
  obtain ⟨⟨ha, hanull⟩, ⟨hb, hbnull⟩, ⟨hc, -⟩, ⟨hd, -⟩, -⟩ := h
  have hdetect : detect (Encoding.bytes (a :: b :: c :: d :: rest)) = (.utf8, 0) := by
    rw [Encoding.bytes_cons_ascii ha, Encoding.bytes_cons_ascii hb,
      Encoding.bytes_cons_ascii hc, Encoding.bytes_cons_ascii hd]
    exact detect_ascii (byte_of_isAscii ha hanull) (byte_of_isAscii hb hbnull) ..
  rw [decodeBytes, hdetect]
  exact Encoding.readUtf8_bytes ..

end Json

namespace Format

theorem exists_encodeChars_json (c : Configuration) :
    ∃ rest, json.encodeChars c = '\x7b' :: '\n' :: ' ' :: ' ' :: rest := by
  simp [encodeChars, Document.ofConfiguration, Document.record, Document.toJson,
    Document.entriesToJson, Json.print, Json.Layout.lineBreak]

theorem parse_json_encode (path : String) (c : Configuration) :
    (json.parse path (json.encode c)).value
      = .ok (Document.ofConfiguration .json true c) := by
  have hwritable := Document.writable_ofConfiguration Vocabulary.distinct_json true c
  obtain ⟨rest, hrest⟩ := exists_encodeChars_json c
  have hbytes : Json.decodeBytes (json.encode c) = .ok (json.encodeChars c) := by
    rw [encode, hrest]
    exact Json.decodeBytes_ascii _ (by decide)
  have hread : Json.readText (json.encodeChars c)
      = .ok (Document.ofConfiguration .json true c).toJson :=
    Json.readWithin_print (hwritable.legible.mono (by decide)) (.indented 2) (by decide)
  simp only [parse, Json.ofBytes, hbytes, hread, pure, hwritable.toDocument_toJson]

/-- Every configuration is decoded from its JSON bytes, with its contexts in their order. -/
theorem decode_encode_json (path : String) (c : Configuration) :
    (json.decode path (json.encode c)).value = .ok c :=
  decode_of_parse (parse_json_encode path c)

/-- The YAML text of a configuration starts with the name of its first field. -/
theorem exists_encodeChars_yaml (c : Configuration) :
    ∃ rest, yaml.encodeChars c = 'C' :: 'u' :: 'r' :: 'r' :: rest := by
  have hkey : Yaml.Writer.isSimpleKey
      ['C', 'u', 'r', 'r', 'e', 'n', 't', 'C', 'o', 'n', 't', 'e', 'x', 't'] = true := by decide
  have hstyle : Yaml.Writer.style .str
      ['C', 'u', 'r', 'r', 'e', 'n', 't', 'C', 'o', 'n', 't', 'e', 'x', 't'] = .plain := by
    decide +kernel
  simp [encodeChars, Document.ofConfiguration, Document.record, vocabulary, Vocabulary.yaml,
    Yaml.Writer.write, Yaml.Writer.entry, Yaml.Writer.keyChars, hkey, Yaml.Writer.scalar, hstyle]

/-- YAML bytes of a configuration are not JSON, and reading them as such is not a fault. -/
theorem exists_parse_json_yaml (path : String) (c : Configuration) :
    ∃ error, (json.parse path (yaml.encode c)).value = .error (.json path error) := by
  obtain ⟨rest, hrest⟩ := exists_encodeChars_yaml c
  have hbytes : Json.decodeBytes (yaml.encode c) = .ok ('C' :: 'u' :: 'r' :: 'r' :: rest) := by
    rw [encode, hrest]
    exact Json.decodeBytes_ascii rest (by decide)
  have hread : Json.readText ('C' :: 'u' :: 'r' :: 'r' :: rest)
      = .error (.flaw .value ('C' :: 'u' :: 'r' :: 'r' :: rest)) := by
    simp [Json.readText, Json.readWithin, Json.skip, Json.isSpace, Json.readValue, Json.readWord, Json.words,
      Text.after?, Json.readNumber, Json.readWhole, bind, Except.bind]
  simp only [parse, Json.ofBytes, hbytes, hread]
  exact ⟨_, rfl⟩

end Format
end ContextConfig
