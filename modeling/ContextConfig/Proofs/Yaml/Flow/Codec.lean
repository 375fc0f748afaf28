import ContextConfig.Proofs.Yaml.Codec
import ContextConfig.Proofs.Yaml.Flow.Graph
/-!
# Configurations in JSON, read as YAML

The JSON bytes of a configuration are a text that YAML allows. It is malformed if the name of a
context is too long for a key; otherwise it is a document, under the names of the other vocabulary,
and so without contexts. Reading it never is a fault.
-/

namespace ContextConfig

open Document (Composed Writable textual record record_eq ofConfiguration)

namespace Yaml.Flow

open Json (print)
open Writer (isOrdinary)

section Bytes

variable {depth : Nat}

theorem ordinary_fieldChars {field : String × Document}
    (h : ∀ x ∈ print (.indented 2) depth field.2.toJson, isOrdinary x = true) :
    ∀ x ∈ fieldChars depth field, isOrdinary x = true := by
  rw [fieldChars, List.forall_mem_append, List.forall_mem_cons, List.forall_mem_cons]
  exact ⟨fun x hx => isOrdinary_iff.mpr (.inr (printable_printString _ x hx)), rfl, rfl, h⟩

theorem ordinary_moreChars {fields : List (String × Document)}
    (h : ∀ field ∈ fields, ∀ x ∈ print (.indented 2) depth field.2.toJson, isOrdinary x = true) :
    ∀ x ∈ moreChars depth fields, isOrdinary x = true := by
  induction fields with
  | nil => simp [moreChars]
  | cons field fields ih =>
    rw [List.forall_mem_cons] at h
    rw [moreChars, List.forall_mem_cons, List.forall_mem_append, List.forall_mem_append]
    exact ⟨rfl, ordinary_newLine _, ordinary_fieldChars h.1, ih h.2⟩

/-- What is printed as JSON is ASCII in lines. -/
theorem ordinary_print {document : Document} (h : Composed document) :
    ∀ x ∈ print (.indented 2) depth document.toJson, isOrdinary x = true := by
  induction h generalizing depth with
  | bool flag =>
    have hwords : ("true".toList ++ "false".toList).all isOrdinary = true := by decide
    rw [List.all_append, Bool.and_eq_true, List.all_eq_true, List.all_eq_true] at hwords
    cases flag with
    | true => exact hwords.1
    | false => exact hwords.2
  | text content =>
    exact fun x hx => isOrdinary_iff.mpr (.inr (printable_printString content.toList x hx))
  | @record fields _ ih =>
    cases fields with
    | nil =>
      have hbraces : ['\x7b', '\x7d'].all isOrdinary = true := by decide
      exact List.all_eq_true.mp hbraces
    | cons field fields =>
      rw [print_record, List.forall_mem_cons, List.forall_mem_append, List.forall_mem_append,
        List.forall_mem_append, List.forall_mem_append]
      exact ⟨rfl, ordinary_newLine _, ordinary_fieldChars (ih field (by simp)),
        ordinary_moreChars fun other hother => ih other (List.mem_cons_of_mem _ hother),
        ordinary_newLine _, List.all_eq_true.mp (by decide)⟩

end Bytes

section Reading

variable {fields : List (String × Document)}

theorem map_fst_namesOf (start : Nat) (fields : List (String × Document)) :
    (namesOf start fields).map (fun named => named.2.1)
      = fields.map fun field => .text field.1 := by
  induction fields generalizing start with
  | nil => rfl
  | cons field fields ih =>
    rw [namesOf, List.map_cons, List.map_cons, ih]

/-- The names of a record are found among its nodes, whatever stands under them. -/
theorem document_nodesOf (hdistinct : (fields.map Prod.fst).Nodup) (depth : Nat) :
    ∃ entries, Graph.document (nodesOf 0 (record fields)).toArray (depth + 1) 0 = .mapping entries ∧
      entries.map Prod.fst = fields.map fun field => .text field.1 := by
  have hnodes := holds_toArray [] (nodesOf 0 (record fields))
  rw [List.nil_append] at hnodes
  generalize (nodesOf 0 (record fields)).toArray = nodes at hnodes ⊢
  rw [List.length_nil, record_eq, nodesOf, Holds] at hnodes
  have hnamed : Graph.namedEntries nodes (partsOf (0 + 1) (textual fields))
      = (namesOf (0 + 1) fields).map Prod.snd := by
    rw [Graph.namedEntries, foldl_addEntry hdistinct (by simp) hnodes.2, List.nil_append]
  refine ⟨(Graph.namedEntries nodes (partsOf (0 + 1) (textual fields))).map
    fun entry => (entry.1, Graph.document nodes depth entry.2), ?_, ?_⟩
  · rw [Graph.document, getD_eq hnodes.1]
  · rw [hnamed, List.map_map, List.map_map]
    exact map_fst_namesOf _ _

/-- A record that is printed as JSON is read under its own names, unless one in it is too long. -/
theorem readText_print {first : String × Document} {more : List (String × Document)}
    (h : Writable documentDepth (record (first :: more)))
    (hdistinct : ((first :: more).map fun field => unpairedText field.1.toList).Nodup) :
    ∃ entries, entries.map Prod.fst
        = (first :: more).map (fun field => .text (unpairedText field.1.toList)) ∧
      readText (print (.indented 2) 0 (record (first :: more)).toJson ++ ['\n'])
        = granted (hasShortNames (record (first :: more))) (.mapping entries) := by
  have htokens := ofText_print h.each
  have hgraph := ofTokens_flowTokens h (show Build.callsPerLevel * documentDepth ≤ maxCalls by decide)
  have hvisited := visited_nodesOf (composed_unpairedDocument h.composed) (show 0 < maxCalls by decide)
  rw [unpairedDocument_record] at hgraph hvisited
  generalize hfields : (first :: more).map (fun field =>
    (unpairedText field.1.toList, unpairedDocument field.2)) = fields at hgraph hvisited
  have hnames : fields.map Prod.fst
      = (first :: more).map fun field => unpairedText field.1.toList := by
    rw [← hfields, List.map_map]
    rfl
  obtain ⟨entries, hdocument, hentries⟩ := document_nodesOf (hnames ▸ hdistinct) 4
  refine ⟨entries, ?_, ?_⟩
  · rw [hentries, ← hfields, List.map_map]
    rfl
  rw [readText, readWithin, htokens]
  simp only [readTokens, bind, Except.bind, hgraph]
  cases hasShortNames (record (first :: more)) with
  | false => rfl
  | true => simp [granted, hvisited, documentDepth, hdocument, pure, Except.pure]

end Reading

end Yaml.Flow

namespace Format

open Yaml.Flow (hasShortNames unpairedText granted)

theorem decodeBytes_encode_json (c : Configuration) :
    Yaml.decodeBytes (json.encode c) = .ok (json.encodeChars c) := by
  have hwritable := Document.writable_ofConfiguration Vocabulary.distinct_json true c
  have hordinary : ∀ x ∈ json.encodeChars c, Yaml.Writer.isOrdinary x = true := by
    have hbreak : ['\n'].all Yaml.Writer.isOrdinary = true := by decide
    have hprint := @Yaml.Flow.ordinary_print 0 _ hwritable.composed
    exact List.forall_mem_append.mpr ⟨hprint, List.all_eq_true.mp hbreak⟩
  obtain ⟨rest, hrest⟩ := exists_encodeChars_json c
  rw [encode, hrest]
  exact Yaml.decodeBytes_bytes (hrest ▸ hordinary)

/-- The document of JSON bytes in YAML: its names are those of the JSON vocabulary. -/
theorem parse_yaml_encode_json (path : String) (c : Configuration) :
    ∃ entries : List (Key × Document),
      entries.map Prod.fst = [.text Vocabulary.json.current, .text Vocabulary.json.contexts] ∧
      (yaml.parse path (json.encode c)).value
        = if hasShortNames (ofConfiguration .json true c) then .ok (.mapping entries)
          else .error (.yaml path) := by
  have hnames : [Vocabulary.json.current, Vocabulary.json.contexts].map
      (fun name => unpairedText name.toList)
        = [Vocabulary.json.current, Vocabulary.json.contexts] := by
    decide +kernel
  have hdistinct : ([Vocabulary.json.current, Vocabulary.json.contexts].map
      fun name => unpairedText name.toList).Nodup := by
    rw [hnames]
    decide
  have hwritable := Document.writable_ofConfiguration Vocabulary.distinct_json true c
  have hchars : json.encodeChars c
      = (ofConfiguration .json true c).toJson.print (.indented 2) 0 ++ ['\n'] := rfl
  have hbytes : Yaml.ofBytes (json.encode c) = Yaml.readText (json.encodeChars c) := by
    rw [Yaml.ofBytes, decodeBytes_encode_json]
    simp only [bind, Except.bind]
  rw [ofConfiguration] at hwritable hchars ⊢
  obtain ⟨entries, hentries, hread⟩ := Yaml.Flow.readText_print hwritable hdistinct
  refine ⟨entries, hentries.trans ?_, ?_⟩
  · simpa using hnames
  · rw [hchars] at hbytes
    generalize hasShortNames (record _) = short at hread ⊢
    cases short with
    | true =>
      simp only [parse, hbytes, hread, granted, if_true]
      rfl
    | false =>
      simp only [parse, hbytes, hread, granted, Bool.false_eq_true, if_false]
      rfl

/-- JSON bytes are no configuration in YAML: they are malformed if a name is too long, and otherwise
a document without contexts. -/
theorem decode_yaml_encode_json (path : String) (c : Configuration) :
    (yaml.decode path (json.encode c)).value
      = .error (if hasShortNames (ofConfiguration .json true c) then
          .document path .yaml (.missingContexts Vocabulary.yaml.contexts)
        else .yaml path) := by
  obtain ⟨entries, hnames, hparse⟩ := parse_yaml_encode_json path c
  have hmissing : (Document.mapping entries).configuration yaml.vocabulary
      = .error (.missingContexts Vocabulary.yaml.contexts) :=
    Document.configuration_of_missing (by rw [hnames]; decide)
  rw [decode_value, hparse]
  cases hasShortNames (ofConfiguration .json true c) with
  | true => simp only [if_true, interpret, hmissing]
  | false => rfl

end Format

end ContextConfig
