import ContextConfig.Proofs.Codec
import ContextConfig.Proofs.Document.Grammar
import ContextConfig.Proofs.Faults
/-!
# What matters of a document

A document says the same when it is cut to what its vocabulary names: at every level the fields
under other names and the fields that are null can be left out. Only the field of the contexts has
to be there, and so has every context in it, whether null or not.
-/

namespace ContextConfig

namespace Document

/-- What matters of a value. A value that is there does not disappear. -/
structure Part where
  trim : Document → Document
  isNull_trim (document : Document) : (trim document).isNull = document.isNull

/-- What a rule for textual fields leaves of entries. -/
def sift (rule : String → Document → Option Document) :
    List (Key × Document) → List (Key × Document) :=
  List.filterMap fun
    | (.text name, value) => (rule name value).map (.text name, ·)
    | _ => none

/-- A field matters if it has a name that matters and is not null. -/
def given (parts : List (String × Part)) (name : String) (value : Document) : Option Document :=
  if value.isNull then none else (parts.lookup name).map (·.trim value)

namespace Part

/-- Everything. -/
def whole : Part := ⟨id, fun _ => rfl⟩

/-- Fields that are not cut. -/
def texts (names : List String) : List (String × Part) := names.map (·, whole)

/-- The parts of a mapping, each under its name. -/
def block (parts : List (String × Part)) : Part where
  trim
    | .mapping entries => .mapping (sift (given parts) entries)
    | document => document
  isNull_trim document := by cases document <;> rfl

/-- A part of each value of a mapping. -/
def each (part : Part) : Part where
  trim
    | .mapping entries => .mapping (entries.map fun entry => (entry.1, part.trim entry.2))
    | document => document
  isNull_trim document := by cases document <;> rfl

theorem trim_null (part : Part) : part.trim null = null := isNull_iff.mp (part.isNull_trim null)

end Part

open Document.Part

/-- The parts of Kerberos credentials. -/
def kerberosParts (v : Vocabulary) : List (String × Part) :=
  [(v.confFile, whole),
    (v.withPassword, block (texts [v.username, v.password, v.realm])),
    (v.withKeytab, block (texts [v.keytabFile])),
    (v.fromCache, block (texts [v.cacheFile]))]

/-- The parts of a context. -/
def clientParts (v : Vocabulary) : List (String × Part) :=
  [(v.host, whole), (v.token, whole), (v.timeout, whole), (v.debug, whole),
    (v.basic, block (texts [v.username, v.password])),
    (v.kerberos, block (kerberosParts v))]

/-- The contexts matter even if they are null; the current one matters unless it is. -/
def documentPart (v : Vocabulary) (name : String) (value : Document) : Option Document :=
  if name = v.contexts then some ((block (clientParts v)).each.trim value)
  else given (texts [v.current]) name value

/-- What matters of a document. -/
def relevant (v : Vocabulary) : Document → Document
  | mapping entries => mapping (sift (documentPart v) entries)
  | document => document

section Sifting

variable {α : Type} {entries : List (Key × Document)} {rule : String → Document → Option Document}
  {parts : List (String × Part)} {part : Part} {name place : String} {names : List String}

theorem Keyed.of_field (h : Keyed (.mapping entries)) : (field name entries).Keyed := by
  rw [field]
  cases hfind : find name entries with
  | none => exact .null
  | some document => exact h.of_find hfind

theorem find_textual_cons (name key : String) (value : Document)
    (fields : List (String × Document)) :
    find name (textual ((key, value) :: fields)) =
      if key = name then some value else find name (textual fields) := by
  by_cases h : key = name <;> simp [textual, find, h]

theorem find_textual_eq_none {fields : List (String × Document)}
    (h : name ∉ fields.map Prod.fst) : find name (textual fields) = none := by
  refine find_eq_none fun hmem => h ?_
  simpa [textual] using hmem

/-- Under distinct names a field that is left out does not uncover another one. -/
theorem find_sift (h : Keyed (.mapping entries)) :
    find name (sift rule entries) = (find name entries).bind (rule name) := by
  obtain ⟨fields, rfl, hdistinct, -⟩ := h.exists_fields
  clear h
  induction fields with
  | nil => rfl
  | cons field fields ih =>
    obtain ⟨key, value⟩ := field
    obtain ⟨hnew, hdistinct⟩ := List.nodup_cons.mp hdistinct
    have ih := ih hdistinct
    have hsift : sift rule (textual ((key, value) :: fields)) =
        ((rule key value).map (Key.text key, ·)).toList ++ sift rule (textual fields) := by
      cases hrule : rule key value <;> simp [sift, textual, hrule]
    rw [hsift, find_textual_cons]
    by_cases hkey : key = name
    · subst hkey
      rw [find_textual_eq_none hnew] at ih
      cases hrule : rule key value <;> simp [hrule, ih]
    · rw [if_neg hkey, ← ih]
      cases rule key value with
      | none => rfl
      | some value => exact find_cons_ne (fun h => hkey (Key.text.inj h)) ..

theorem lookup_of_mem (hdistinct : (parts.map Prod.fst).Nodup) (h : (name, part) ∈ parts) :
    parts.lookup name = some part := by
  induction parts with
  | nil => cases h
  | cons first parts ih =>
    obtain ⟨hnew, hdistinct⟩ := List.nodup_cons.mp hdistinct
    obtain rfl | h := List.mem_cons.mp h
    · exact List.lookup_cons_self
    · have hne : name ≠ first.1 := fun hname => hnew (hname ▸ List.mem_map.mpr ⟨_, h, rfl⟩)
      rw [List.lookup_cons, beq_false_of_ne hne]
      exact ih hdistinct h

theorem lookup_texts (h : name ∈ names) : (texts names).lookup name = some whole := by
  induction names with
  | nil => cases h
  | cons first names ih =>
    rw [texts, List.map_cons, List.lookup_cons]
    split
    case h_1 => rfl
    case h_2 hname => exact ih ((List.mem_cons.mp h).resolve_left (ne_of_beq_false hname))

theorem field_sift (h : Keyed (.mapping entries)) (hpart : parts.lookup name = some part) :
    field name (sift (given parts) entries) = part.trim (field name entries) := by
  rw [field, field, find_sift h]
  cases hfind : find name entries with
  | none => exact part.trim_null.symm
  | some value =>
    rw [Option.bind_some, given]
    split
    case isTrue hnull =>
      obtain rfl := isNull_iff.mp hnull
      exact part.trim_null.symm
    case isFalse => rw [hpart]; rfl

theorem readField_sift (h : Keyed (.mapping entries)) (hpart : parts.lookup name = some whole) :
    readField place (sift (given parts) entries) name = readField place entries name := by
  rw [readField, field_sift h hpart]
  rfl

/-- The same fields are there. -/
theorem present_sift (h : Keyed (.mapping entries)) (hdistinct : (parts.map Prod.fst).Nodup)
    (hnames : names ⊆ parts.map Prod.fst) :
    present (sift (given parts) entries) names = present entries names := by
  apply List.filter_congr
  intro name hname
  obtain ⟨⟨_, part⟩, hpart, rfl⟩ := List.mem_map.mp (hnames hname)
  rw [field_sift h (lookup_of_mem hdistinct hpart), part.isNull_trim]

/-- A block can be trimmed if what is read from its entries does not depend on the rest. -/
theorem readMapping_trim {document : Document} (h : document.Keyed)
    {f : List (Key × Document) → Read α}
    (hf : ∀ entries, Keyed (.mapping entries) → f (sift (given parts) entries) = f entries) :
    (readMapping place ((block parts).trim document) >>= f) =
      (readMapping place document >>= f) := by
  cases document with
  | mapping entries => exact hf entries h
  | _ => rfl

end Sifting

section Reading

variable {v : Vocabulary} {place : String} {entries : List (Key × Document)} (hv : v.Distinct)
include hv

theorem readSource_sift (h : Keyed (.mapping entries)) :
    readSource v place (sift (given (kerberosParts v)) entries) = readSource v place entries := by
  have hparts : ((kerberosParts v).map Prod.fst).Nodup :=
    hv [v.confFile, v.withPassword, v.withKeytab, v.fromCache] (by simp [Vocabulary.blocks])
  have hpresent : present (sift (given (kerberosParts v)) entries)
      [v.withPassword, v.withKeytab, v.fromCache] = _ :=
    present_sift h hparts (List.subset_cons_self _ _)
  have hne := List.nodup_reverse.mpr (List.nodup_cons.mp hparts).2
  simp at hne
  rw [readSource, readSource, hpresent]
  split
  case h_1 => rfl
  case h_2 name hsingle =>
    obtain ⟨hname, -⟩ := mem_present.mp (hsingle ▸ List.mem_singleton_self name)
    simp only [List.mem_cons, List.not_mem_nil, or_false] at hname
    obtain rfl | rfl | rfl := hname
    · rw [field_sift h (lookup_of_mem hparts (.tail _ (.head _)))]
      refine readMapping_trim h.of_field fun block hblock => ?_
      simp [readField_sift hblock (lookup_texts _)]
    · rw [field_sift h (lookup_of_mem hparts (.tail _ (.tail _ (.head _))))]
      refine readMapping_trim h.of_field fun block hblock => ?_
      simp [hne, readField_sift hblock (lookup_texts _)]
    · rw [field_sift h (lookup_of_mem hparts (.tail _ (.tail _ (.tail _ (.head _)))))]
      refine readMapping_trim h.of_field fun block hblock => ?_
      simp [hne, readField_sift hblock (lookup_texts _)]
  case h_3 => rfl

theorem readAuthentication_sift (h : Keyed (.mapping entries)) :
    readAuthentication v place (sift (given (clientParts v)) entries)
      = readAuthentication v place entries := by
  have hparts : ((clientParts v).map Prod.fst).Nodup :=
    hv [v.host, v.token, v.timeout, v.debug, v.basic, v.kerberos] (by simp [Vocabulary.blocks])
  have hkerberos : (kerberosParts v).lookup v.confFile = some whole := List.lookup_cons_self
  have hpresent : present (sift (given (clientParts v)) entries) [v.basic, v.kerberos] = _ :=
    present_sift h hparts (List.drop_subset 4 ((clientParts v).map Prod.fst))
  have hkinds : [v.basic, v.kerberos].Nodup := (List.drop_sublist 4 _).nodup hparts
  have hne : v.kerberos ≠ v.basic := by simpa [eq_comm] using hkinds
  rw [readAuthentication, readAuthentication, hpresent]
  split
  case h_1 => rfl
  case h_2 name hsingle =>
    obtain ⟨hname, -⟩ := mem_present.mp (hsingle ▸ List.mem_singleton_self name)
    simp only [List.mem_cons, List.not_mem_nil, or_false] at hname
    obtain rfl | rfl := hname
    · have hpart : (v.basic, block (texts [v.username, v.password])) ∈ clientParts v := by
        simp [clientParts]
      rw [field_sift h (lookup_of_mem hparts hpart)]
      refine readMapping_trim h.of_field fun block hblock => ?_
      simp [readField_sift hblock (lookup_texts _)]
    · have hpart : (v.kerberos, block (kerberosParts v)) ∈ clientParts v := by simp [clientParts]
      rw [field_sift h (lookup_of_mem hparts hpart)]
      refine readMapping_trim h.of_field fun block hblock => ?_
      simp [hne, readField_sift hblock hkerberos, readSource_sift hv hblock]
  case h_3 => rfl

theorem readClient_trim {document : Document} (h : document.Keyed) :
    readClient v place ((block (clientParts v)).trim document) = readClient v place document := by
  have hparts : ((clientParts v).map Prod.fst).Nodup :=
    hv [v.host, v.token, v.timeout, v.debug, v.basic, v.kerberos] (by simp [Vocabulary.blocks])
  have htext {entries : List (Key × Document)} (h : Keyed (.mapping entries)) {name : String}
      (hname : (name, whole) ∈ clientParts v) :
      field name (sift (given (clientParts v)) entries) = field name entries :=
    field_sift h (lookup_of_mem hparts hname)
  cases document with
  | mapping entries =>
    have hhost : (v.host, whole) ∈ clientParts v := by simp [clientParts]
    have htoken : (v.token, whole) ∈ clientParts v := by simp [clientParts]
    have htimeout : (v.timeout, whole) ∈ clientParts v := by simp [clientParts]
    have hdebug : (v.debug, whole) ∈ clientParts v := by simp [clientParts]
    change readClient v place (.mapping (sift (given (clientParts v)) entries)) = _
    simp only [readClient, readMapping_mapping, ok_bind, readField, readAuthentication_sift hv h,
      htext h hhost, htext h htoken, htext h htimeout, htext h hdebug]
  | _ => rfl

theorem readContexts_trim {fields : List (String × Document)} (h : ∀ field ∈ fields, field.2.Keyed)
    (before : OrderedMap Client) :
    readContexts v before ((textual fields).map fun entry =>
        (entry.1, (block (clientParts v)).trim entry.2)) =
      readContexts v before (textual fields) := by
  induction fields generalizing before with
  | nil => rfl
  | cons field fields ih =>
    obtain ⟨hfield, hfields⟩ := List.forall_mem_cons.mp h
    have ih := ih hfields
    rw [textual] at ih ⊢
    simp only [List.map_cons, readContexts, readClient_trim hv hfield, ih]

/-- The contexts of a trimmed field are those of the field. -/
theorem readRow_trim {contexts : Document} (h : contexts.Keyed) {α : Type}
    {f : OrderedMap Client → Read α} :
    (readRow v ((block (clientParts v)).each.trim contexts) >>=
        fun row => readContexts v .empty row >>= f) =
      (readRow v contexts >>= fun row => readContexts v .empty row >>= f) := by
  cases contexts with
  | mapping entries =>
    obtain ⟨fields, rfl, -, hfields⟩ := h.exists_fields
    change (readContexts v .empty (List.map _ (textual fields)) >>= f) = _
    rw [readContexts_trim hv hfields]
    rfl
  | _ => rfl

/-- Reading a document is reading what matters of it. -/
theorem configuration_relevant {document : Document} (h : document.Keyed) :
    (document.relevant v).configuration v = document.configuration v := by
  have hnames := hv [v.current, v.contexts] (by simp [Vocabulary.blocks])
  have hne : v.current ≠ v.contexts := by simpa using hnames
  cases document with
  | mapping entries =>
    have hcontexts : find v.contexts (sift (documentPart v) entries) =
        (find v.contexts entries).map (block (clientParts v)).each.trim := by
      rw [find_sift h]
      cases find v.contexts entries with
      | none => rfl
      | some contexts => exact if_pos rfl
    have hcurrent : field v.current (sift (documentPart v) entries) = field v.current entries := by
      have hrule : documentPart v v.current = given (texts [v.current]) v.current := by
        funext value
        exact if_neg hne
      have hwhole := field_sift h (lookup_texts (List.mem_singleton_self v.current))
      rw [field, find_sift h, hrule, ← find_sift h]
      exact hwhole
    rw [relevant, configuration_mapping, configuration_mapping, hcontexts, hcurrent]
    cases hfind : find v.contexts entries with
    | none => rfl
    | some contexts =>
      dsimp only [Option.map_some]
      exact congrArg _ (funext fun current => readRow_trim hv (h.of_find hfind))
  | _ => rfl

end Reading

end Document

namespace Format

open Document

/-- The decoder accepts the documents that describe a configuration, and gives that configuration.
It refuses the others because of their form. Of a document only what is relevant matters. -/
theorem interpret_eq_ok_iff_describes (format : Format) (path : String) {document : Document}
    (h : document.Keyed) :
    (∀ c, format.interpret path document = .ok c ↔ Describes format.vocabulary document c) ∧
    ((¬ ∃ c, Describes format.vocabulary document c) →
      ∃ error, format.interpret path document = .error (.document path format error)) ∧
    format.interpret path (document.relevant format.vocabulary)
      = format.interpret path document := by
  have hread (c : Configuration) :
      format.interpret path document = .ok c ↔ Describes format.vocabulary document c := by
    rw [← configuration_eq_ok_iff format.distinct_vocabulary h, interpret]
    cases document.configuration format.vocabulary with
    | ok c' => simp
    | error error => cases error <;> simp
  refine ⟨hread, fun hrefused => ?_, ?_⟩
  · have hfault (fault : Fault) : format.interpret path document ≠ .error (.fault fault) :=
      interpret_of_shows h.shows format path fault
    cases hresult : document.configuration format.vocabulary with
    | ok c =>
      exact absurd ⟨c, (configuration_eq_ok_iff format.distinct_vocabulary h).mp hresult⟩ hrefused
    | error error =>
      rw [interpret, hresult] at hfault ⊢
      cases error with
      | unshowableName => exact absurd rfl (hfault _)
      | _ => exact ⟨_, rfl⟩
  · rw [interpret, interpret, configuration_relevant format.distinct_vocabulary h]

/-- A context with null fields and a field under another name. -/
def looseContext : Document :=
  record [("Host", .text "http://lenses"), ("Token", .null), ("Colour", .other .integer),
    ("KerberosAuthentication", record [("ConfFile", .null), ("WithPassword", .null),
      ("FromCCache", record [("CCacheFile", .text "cc")])])]

/-- A document with such a context and one that is null. -/
def loose : Document :=
  record [("Contexts", record [("dev", looseContext), ("bare", .null)]), ("CurrentContext", .null),
    ("currentContext", .bool true)]

/-- The configuration that it describes. -/
def looseConfiguration : Configuration where
  current := ""
  contexts := (OrderedMap.empty.insert "dev"
    { host := "http://lenses", authentication := some (.kerberos "" (some (.cache "cc"))) }).insert
      "bare" {}

theorem keyed_loose : loose.Keyed := by
  have hcache : (record [("CCacheFile", .text "cc")]).Keyed :=
    .record (by decide) (by simp [Keyed.text])
  have hkerberos : (record [("ConfFile", .null), ("WithPassword", .null),
      ("FromCCache", record [("CCacheFile", .text "cc")])]).Keyed :=
    .record (by decide) (by simp [Keyed.null, hcache])
  have hcontext : looseContext.Keyed :=
    .record (by decide +kernel) (by simp [Keyed.null, Keyed.text, Keyed.other, hkerberos])
  have hcontexts : (record [("dev", looseContext), ("bare", .null)]).Keyed :=
    .record (by decide) (by simp [Keyed.null, hcontext])
  exact .record (by decide +kernel) (by simp [Keyed.null, Keyed.bool, hcontexts])

theorem interpret_loose : loose.Keyed ∧
    Format.yaml.interpret "<memory>" loose = .ok looseConfiguration ∧
    Describes .yaml loose looseConfiguration ∧
    Format.yaml.interpret "<memory>" (loose.relevant .yaml) = .ok looseConfiguration ∧
    ∃ error, Format.json.interpret "<memory>" loose
      = .error (.document "<memory>" .json error) := by
  obtain ⟨hyaml, -, hrelevant⟩ := interpret_eq_ok_iff_describes .yaml "<memory>" keyed_loose
  obtain ⟨hjson, hrefused, -⟩ := interpret_eq_ok_iff_describes .json "<memory>" keyed_loose
  have hread : Format.yaml.interpret "<memory>" loose = .ok looseConfiguration := by decide +kernel
  refine ⟨keyed_loose, hread, (hyaml _).mp hread, hrelevant.trans hread, hrefused ?_⟩
  rintro ⟨c, hc⟩
  cases (hjson c).mpr hc

end Format

end ContextConfig
