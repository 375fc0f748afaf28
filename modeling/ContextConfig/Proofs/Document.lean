import ContextConfig.Document.Schema
import Mathlib.Data.List.Nodup
/-!
# Documents describe their configurations

A configuration written as a document under a vocabulary with distinct names is read back as it
was, whether or not empty fields are left out. The lemmas look fields up in records and follow the
readers from the innermost block of the document outwards.
-/

namespace ContextConfig.Document

/-- The entries of a record. -/
def textual (fields : List (String × Document)) : List (Key × Document) :=
  fields.map fun entry => (.text entry.1, entry.2)

theorem record_eq (fields : List (String × Document)) : record fields = mapping (textual fields) :=
  rfl

@[simp] theorem readMapping_mapping (place : String) (entries : List (Key × Document)) :
    readMapping place (mapping entries) = .ok entries := rfl

@[simp] theorem readMapping_record (place : String) (fields : List (String × Document)) :
    readMapping place (record fields) = .ok (textual fields) := rfl

@[simp] theorem readText_null (place : String) : readText place null = .ok "" := rfl

@[simp] theorem readText_text (place content : String) :
    readText place (text content) = .ok content := rfl

@[simp] theorem readBool_null (place : String) : readBool place null = .ok false := rfl

@[simp] theorem readBool_bool (place : String) (flag : Bool) :
    readBool place (bool flag) = .ok flag := rfl

/-- What is left out of a record without need is empty. -/
theorem readText_ite (place : String) {p : Prop} [Decidable p] {content : String}
    (h : ¬p → content = "") :
    readText place (if p then text content else null) = .ok content := by
  split
  case isTrue => rfl
  case isFalse hp => rw [h hp, readText_null]

theorem readBool_ite (place : String) {p : Prop} [Decidable p] {flag : Bool}
    (h : ¬p → flag = false) : readBool place (if p then bool flag else null) = .ok flag := by
  split
  case isTrue => rfl
  case isFalse hp => rw [h hp, readBool_null]

@[simp] theorem isNull_null : isNull null = true := rfl

@[simp] theorem isNull_record (fields : List (String × Document)) :
    isNull (record fields) = false := rfl

section Fields

@[simp] theorem field_textual_nil (name : String) : field name (textual []) = null := rfl

theorem field_textual_cons (name key : String) (value : Document)
    (fields : List (String × Document)) :
    field name (textual ((key, value) :: fields)) =
      if key = name then value else field name (textual fields) := by
  by_cases h : key = name <;> simp [textual, field, find, h]

theorem field_textual_optional (omitEmpty isEmpty : Bool) (name key : String) (value : Document)
    (fields : List (String × Document)) :
    field name (textual (optional omitEmpty isEmpty key value ++ fields)) =
      if key = name ∧ (omitEmpty && isEmpty) = false then value
      else field name (textual fields) := by
  rw [optional]
  cases omitEmpty && isEmpty <;> simp [field_textual_cons]

theorem find_eq_none {name : String} {entries : List (Key × Document)}
    (h : Key.text name ∉ entries.map Prod.fst) : find name entries = none := by
  induction entries with
  | nil => rfl
  | cons entry entries ih =>
    rw [List.map_cons, List.mem_cons, not_or] at h
    rw [find_cons_ne (Ne.symm h.1), ih h.2]

end Fields

/-- A mapping without contexts describes no configuration. -/
theorem configuration_of_missing {v : Vocabulary} {entries : List (Key × Document)}
    (h : Key.text v.contexts ∉ entries.map Prod.fst) :
    (mapping entries).configuration v = .error (.missingContexts v.contexts) := by
  rw [configuration, readMapping_mapping]
  simp only [bind, Except.bind, find_eq_none h]

variable {v : Vocabulary} (hv : v.Distinct)
include hv

theorem readSource_ofSource (place : String) (confFile : Document) (source : Option TicketSource) :
    readSource v place (textual ((v.confFile, confFile) :: (source.map (ofSource v)).toList))
      = .ok source := by
  have hblock := hv [v.confFile, v.withPassword, v.withKeytab, v.fromCache]
    (by simp [Vocabulary.blocks])
  have hfields := hv [v.username, v.password, v.realm] (by simp [Vocabulary.blocks])
  have hback := List.nodup_reverse.mpr hblock
  simp at hblock hback hfields
  rw [readSource, present]
  cases source with
  | none => simp [field_textual_cons, hblock]
  | some source =>
    cases source <;>
      simp [field_textual_cons, hblock, hback, hfields, ofSource, readField, bind, Except.bind,
        pure, Except.pure]

/-- Credentials are read back from entries that agree with them about the two kinds. -/
theorem readAuthentication_ofAuthentication (place : String) (a : Option Authentication)
    {entries : List (Key × Document)}
    (hbasic : field v.basic entries = field v.basic (textual (a.map (ofAuthentication v)).toList))
    (hkerberos : field v.kerberos entries
      = field v.kerberos (textual (a.map (ofAuthentication v)).toList)) :
    readAuthentication v place entries = .ok a := by
  have hblock := hv [v.host, v.token, v.timeout, v.debug, v.basic, v.kerberos]
    (by simp [Vocabulary.blocks])
  have hfields := hv [v.username, v.password] (by simp [Vocabulary.blocks])
  have hback := List.nodup_reverse.mpr hblock
  simp at hblock hback hfields
  rw [readAuthentication, present]
  simp only [List.filter_cons, List.filter_nil, hbasic, hkerberos]
  cases a with
  | none => simp
  | some a =>
    cases a <;>
      simp [field_textual_cons, hbasic, hkerberos, ofAuthentication, hblock, hback, hfields,
        readSource_ofSource hv, readField, bind, Except.bind, pure, Except.pure]

theorem readClient_ofClient (place : String) (omitEmpty : Bool) (c : Client) :
    readClient v place (ofClient v omitEmpty c) = .ok c := by
  have hblock := hv [v.host, v.token, v.timeout, v.debug, v.basic, v.kerberos]
    (by simp [Vocabulary.blocks])
  have hback := List.nodup_reverse.mpr hblock
  simp at hblock hback
  have hcredentials : ∀ name, v.basic ≠ name → v.kerberos ≠ name →
      field name (textual (c.authentication.map (ofAuthentication v)).toList) = null := by
    intro name hbasic hkerberos
    cases c.authentication with
    | none => rfl
    | some a => cases a <;> simp [ofAuthentication, field_textual_cons, hbasic, hkerberos]
  have htoken := hcredentials v.token (by simp [hback]) (by simp [hback])
  have htimeout := hcredentials v.timeout (by simp [hback]) (by simp [hback])
  have hdebug := hcredentials v.debug (by simp [hback]) (by simp [hback])
  rw [ofClient, record_eq, readClient]
  · simp only [readMapping_mapping, bind, Except.bind, readField, field_textual_cons,
      field_textual_optional]
    rw [readAuthentication_ofAuthentication hv place c.authentication
      (by simp [field_textual_cons, field_textual_optional, hblock])
      (by simp [field_textual_cons, field_textual_optional, hblock])]
    simp [hblock, hback, htoken, htimeout, hdebug, readText_ite, readBool_ite, pure, Except.pure]
  · simp

/-- Clients under distinct names are read in their order, after those that are there. -/
theorem readContexts_ofClients (omitEmpty : Bool) (entries : List (String × Client))
    (contexts : OrderedMap Client)
    (h : ((contexts.entries ++ entries).map Prod.fst).Nodup) :
    readContexts v contexts (textual (entries.map fun e => (e.1, ofClient v omitEmpty e.2)))
      = .ok ⟨contexts.entries ++ entries, h⟩ := by
  induction entries generalizing contexts with
  | nil => simp [textual, readContexts]
  | cons entry entries ih =>
    obtain ⟨name, client⟩ := entry
    have hnew : contexts.get? name = none := by
      rw [OrderedMap.get?, OrderedMap.find_eq_none_iff]
      rw [List.map_append, List.nodup_append] at h
      intro hmem
      exact h.2.2 name hmem name (by simp) rfl
    have hinsert : (contexts.insert name client).entries = contexts.entries ++ [(name, client)] :=
      OrderedMap.entries_insert_of_get?_none hnew
    have hsplit : contexts.entries ++ (name, client) :: entries
        = (contexts.insert name client).entries ++ entries := by
      rw [hinsert, List.append_assoc]
      rfl
    have hrest := ih (contexts.insert name client) (hsplit ▸ h)
    simp only [List.map_cons, textual, readContexts, readName, bind, Except.bind,
      readClient_ofClient hv]
    simp only [textual] at hrest
    rw [hrest]
    simp only [hsplit]

/-- A configuration is read back from the document that it is written as. -/
theorem configuration_ofConfiguration (omitEmpty : Bool) (c : Configuration) :
    (ofConfiguration v omitEmpty c).configuration v = .ok c := by
  have hnames := hv [v.current, v.contexts] (by simp [Vocabulary.blocks])
  simp at hnames
  have hcontexts := readContexts_ofClients hv omitEmpty c.contexts.entries .empty c.contexts.distinct
  have hfind : find v.contexts (textual [(v.current, text c.current),
      (v.contexts, record (c.contexts.entries.map fun e => (e.1, ofClient v omitEmpty e.2)))])
      = some (record (c.contexts.entries.map fun e => (e.1, ofClient v omitEmpty e.2))) := by
    simp [textual, find, hnames]
  rw [ofConfiguration, configuration]
  simp only [readMapping_record, bind, Except.bind, hfind, field_textual_cons, if_true,
    readText_text]
  rw [record_eq]
  simp only [readMapping_mapping, hcontexts]
  rfl

omit hv

/-- Translation loses nothing under any vocabulary that does not use a name twice in one mapping,
and the vocabularies of the formats do not. -/
theorem configuration_translated : Vocabulary.json.Distinct ∧ Vocabulary.yaml.Distinct ∧
    ∀ v : Vocabulary, v.Distinct → ∀ (omitEmpty : Bool) (c : Configuration),
      (ofConfiguration v omitEmpty c).configuration v = .ok c :=
  ⟨Vocabulary.distinct_json, Vocabulary.distinct_yaml,
    fun _ hv omitEmpty c => configuration_ofConfiguration hv omitEmpty c⟩

/-- A vocabulary that uses names again where they stand in different mappings. -/
def terse : Vocabulary where
  current := "a"
  contexts := "b"
  host := "a"
  token := "b"
  timeout := "c"
  debug := "d"
  basic := "e"
  kerberos := "f"
  username := "a"
  password := "b"
  realm := "c"
  confFile := "a"
  withPassword := "b"
  withKeytab := "c"
  keytabFile := "a"
  fromCache := "d"
  cacheFile := "a"

/-- Two contexts, one with credentials that are empty. -/
def twoContexts : Configuration where
  current := "b"
  contexts := (OrderedMap.empty.insert "b" { authentication := some (.basic "" "") }).insert "a"
    { host := "h", authentication := some (.kerberos "" (some (.password "u" "" "r"))) }

theorem configuration_terse : terse.Distinct ∧
    (ofConfiguration terse true twoContexts).configuration terse = .ok twoContexts := by
  have hterse : terse.Distinct := by decide +kernel
  exact ⟨hterse, configuration_translated.2.2 terse hterse true twoContexts⟩

/-- The documents that configurations are written as: records of texts, switches and records, each
of them under distinct names, down to a depth. -/
inductive Writable : Nat → Document → Prop where
  | bool {depth : Nat} (flag : Bool) : Writable depth (.bool flag)
  | text {depth : Nat} (content : String) : Writable depth (.text content)
  | record {depth : Nat} {fields : List (String × Document)} (distinct : (fields.map Prod.fst).Nodup)
      (each : ∀ field ∈ fields, Writable depth field.2) : Writable (depth + 1) (record fields)

/-- Documents made of texts, switches and records, whatever their names. -/
inductive Composed : Document → Prop where
  | bool (flag : Bool) : Composed (.bool flag)
  | text (content : String) : Composed (.text content)
  | record {fields : List (String × Document)} (each : ∀ field ∈ fields, Composed field.2) :
      Composed (record fields)

theorem Writable.composed {depth : Nat} {document : Document} (h : Writable depth document) :
    Composed document := by
  induction h with
  | bool flag => exact .bool flag
  | text content => exact .text content
  | record _ _ ih => exact .record ih

theorem textual_injective {fields fields' : List (String × Document)}
    (h : textual fields = textual fields') : fields = fields' :=
  List.map_injective_iff.mpr (fun field field' h => by
    obtain ⟨hname, hvalue⟩ := Prod.mk.inj h
    exact Prod.ext (Key.text.inj hname) hvalue) h

/-- What stands in a record goes down less far than the record. -/
theorem Writable.each {depth : Nat} {fields : List (String × Document)}
    (h : Writable (depth + 1) (Document.record fields)) : ∀ field ∈ fields, Writable depth field.2 := by
  generalize hrecord : Document.record fields = document at h
  cases h with
  | bool flag => cases hrecord
  | text content => cases hrecord
  | record distinct each => exact textual_injective (Document.mapping.inj hrecord) ▸ each

theorem optional_sublist (omitEmpty isEmpty : Bool) (name : String) (value : Document) :
    ((optional omitEmpty isEmpty name value).map Prod.fst).Sublist [name] := by
  rw [optional]
  split <;> simp

theorem mem_optional {omitEmpty isEmpty : Bool} {name : String} {value : Document}
    {field : String × Document} (h : field ∈ optional omitEmpty isEmpty name value) :
    field = (name, value) := by
  rw [optional] at h
  split at h <;> simp_all

include hv

theorem writable_ofSource (source : TicketSource) : Writable 1 (ofSource v source).2 := by
  have hfields := hv [v.username, v.password, v.realm] (by simp [Vocabulary.blocks])
  cases source with
  | password username password realm => exact .record hfields (by simp [Writable.text])
  | keytab file => exact .record (by simp) (by simp [Writable.text])
  | cache file => exact .record (by simp) (by simp [Writable.text])

theorem writable_ofAuthentication (a : Authentication) :
    Writable 2 (ofAuthentication v a).2 := by
  cases a with
  | basic username password =>
    have hfields := hv [v.username, v.password] (by simp [Vocabulary.blocks])
    exact .record hfields (by simp [Writable.text])
  | kerberos confFile source =>
    have hblock := hv [v.confFile, v.withPassword, v.withKeytab, v.fromCache]
      (by simp [Vocabulary.blocks])
    simp at hblock
    cases source with
    | none => exact .record (by simp) (by simp [Writable.text])
    | some source =>
      refine .record ?_ (by simp [Writable.text, writable_ofSource hv])
      cases source <;> simp [ofSource, hblock]

theorem writable_ofClient (omitEmpty : Bool) (c : Client) :
    Writable 3 (ofClient v omitEmpty c) := by
  have hblock := hv [v.host, v.token, v.timeout, v.debug, v.basic, v.kerberos]
    (by simp [Vocabulary.blocks])
  have hcredentials : ((c.authentication.map (ofAuthentication v)).toList.map Prod.fst).Sublist
      [v.basic, v.kerberos] := by
    cases c.authentication with
    | none => simp
    | some a => cases a <;> simp [ofAuthentication]
  refine .record (hblock.sublist ?_) ?_
  · rw [List.map_cons, List.map_append, List.map_append, List.map_append]
    exact ((optional_sublist ..).append ((optional_sublist ..).append
      ((optional_sublist ..).append hcredentials))).cons_cons v.host
  · intro field hfield
    simp only [List.mem_cons, List.mem_append] at hfield
    obtain rfl | h | h | h | h := hfield
    · exact .text _
    · rw [mem_optional h]; exact .text _
    · rw [mem_optional h]; exact .text _
    · rw [mem_optional h]; exact .bool _
    · cases ha : c.authentication with
      | none => simp [ha] at h
      | some a =>
        simp [ha] at h
        exact h ▸ writable_ofAuthentication hv a

theorem writable_ofConfiguration (omitEmpty : Bool) (c : Configuration) :
    Writable 5 (ofConfiguration v omitEmpty c) := by
  have hnames := hv [v.current, v.contexts] (by simp [Vocabulary.blocks])
  have hcontexts : (c.contexts.entries.map fun e => (e.1, ofClient v omitEmpty e.2)).map Prod.fst
      = c.contexts.entries.map Prod.fst := by simp
  refine .record hnames ?_
  intro field hfield
  simp only [List.mem_cons, List.not_mem_nil, or_false] at hfield
  obtain rfl | rfl := hfield
  · exact .text _
  · refine .record (hcontexts ▸ c.contexts.distinct) ?_
    intro field hfield
    obtain ⟨entry, -, rfl⟩ := List.mem_map.mp hfield
    exact writable_ofClient hv omitEmpty entry.2

end ContextConfig.Document
