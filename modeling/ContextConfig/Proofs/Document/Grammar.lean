import ContextConfig.Proofs.Document
import ContextConfig.Proofs.Faults
/-!
# The grammar of configuration documents

`Describes` says which configuration a document under textual names stands for, and so which
documents stand for one at all. The readers of a configuration find exactly this configuration, and
refuse every other document because of its form.
-/

namespace ContextConfig

namespace Document

/-- A document under textual names, in which no mapping has a name twice. -/
inductive Keyed : Document → Prop where
  | null : Keyed .null
  | bool (flag : Bool) : Keyed (.bool flag)
  | text (content : String) : Keyed (.text content)
  | other (kind : Kind) : Keyed (.other kind)
  | record {fields : List (String × Document)} (distinct : (fields.map Prod.fst).Nodup)
      (each : ∀ field ∈ fields, Keyed field.2) : Keyed (record fields)

/-- The text of a field, which is empty if the field is null or missing. -/
inductive HoldsText : Document → String → Prop where
  | null : HoldsText .null ""
  | text (content : String) : HoldsText (.text content) content

/-- The switch of a field, which is off if the field is null or missing. -/
inductive HoldsFlag : Document → Bool → Prop where
  | null : HoldsFlag .null false
  | bool (flag : Bool) : HoldsFlag (.bool flag) flag

/-- Of some fields one is a block and the others are null or missing. -/
def OnlyBlock (names : List String) (name : String) (entries block : List (Key × Document)) :
    Prop :=
  field name entries = mapping block ∧ ∀ other ∈ names, other ≠ name → field other entries = null

/-- The source of tickets that the fields of Kerberos credentials describe. -/
inductive DescribesSource (v : Vocabulary) (entries : List (Key × Document)) :
    Option TicketSource → Prop where
  | none (missing : ∀ name ∈ [v.withPassword, v.withKeytab, v.fromCache],
        field name entries = null) :
      DescribesSource v entries none
  | password {block : List (Key × Document)} {username password realm : String}
      (only : OnlyBlock [v.withPassword, v.withKeytab, v.fromCache] v.withPassword entries block)
      (husername : HoldsText (field v.username block) username)
      (hpassword : HoldsText (field v.password block) password)
      (hrealm : HoldsText (field v.realm block) realm) :
      DescribesSource v entries (some (.password username password realm))
  | keytab {block : List (Key × Document)} {file : String}
      (only : OnlyBlock [v.withPassword, v.withKeytab, v.fromCache] v.withKeytab entries block)
      (hfile : HoldsText (field v.keytabFile block) file) :
      DescribesSource v entries (some (.keytab file))
  | cache {block : List (Key × Document)} {file : String}
      (only : OnlyBlock [v.withPassword, v.withKeytab, v.fromCache] v.fromCache entries block)
      (hfile : HoldsText (field v.cacheFile block) file) :
      DescribesSource v entries (some (.cache file))

/-- The credentials that the fields of a context describe. -/
inductive DescribesAuthentication (v : Vocabulary) (entries : List (Key × Document)) :
    Option Authentication → Prop where
  | none (missing : ∀ name ∈ [v.basic, v.kerberos], field name entries = null) :
      DescribesAuthentication v entries none
  | basic {block : List (Key × Document)} {username password : String}
      (only : OnlyBlock [v.basic, v.kerberos] v.basic entries block)
      (husername : HoldsText (field v.username block) username)
      (hpassword : HoldsText (field v.password block) password) :
      DescribesAuthentication v entries (some (.basic username password))
  | kerberos {block : List (Key × Document)} {confFile : String} {source : Option TicketSource}
      (only : OnlyBlock [v.basic, v.kerberos] v.kerberos entries block)
      (hconfFile : HoldsText (field v.confFile block) confFile)
      (hsource : DescribesSource v block source) :
      DescribesAuthentication v entries (some (.kerberos confFile source))

/-- The client that a context describes; a null one describes the empty client. -/
inductive DescribesClient (v : Vocabulary) : Document → Client → Prop where
  | null : DescribesClient v .null {}
  | mapping {entries : List (Key × Document)} {c : Client}
      (host : HoldsText (field v.host entries) c.host)
      (token : HoldsText (field v.token entries) c.token)
      (timeout : HoldsText (field v.timeout entries) c.timeout)
      (debug : HoldsFlag (field v.debug entries) c.debug)
      (authentication : DescribesAuthentication v entries c.authentication) :
      DescribesClient v (.mapping entries) c

/-- The clients that contexts describe, one for each of them and in their order. -/
def DescribesClients (v : Vocabulary) : List (Key × Document) → List (String × Client) → Prop :=
  List.Forall₂ fun entry context => entry.1 = .text context.1 ∧ DescribesClient v entry.2 context.2

/-- The clients that the field of the contexts describes; a null one describes none. -/
inductive DescribesContexts (v : Vocabulary) : Document → List (String × Client) → Prop where
  | null : DescribesContexts v .null []
  | mapping {entries : List (Key × Document)} {clients : List (String × Client)}
      (each : DescribesClients v entries clients) : DescribesContexts v (.mapping entries) clients

/-- The configuration that a document describes. The field of the contexts has to be there. -/
inductive Describes (v : Vocabulary) : Document → Configuration → Prop where
  | mapping {entries : List (Key × Document)} {contexts : Document} {c : Configuration}
      (hpresent : find v.contexts entries = some contexts)
      (hcurrent : HoldsText (field v.current entries) c.current)
      (hcontexts : DescribesContexts v contexts c.contexts.entries) :
      Describes v (.mapping entries) c

namespace Keyed

variable {entries : List (Key × Document)} {document : Document} {name : String}

theorem exists_fields (h : Keyed (.mapping entries)) : ∃ fields : List (String × Document),
    entries = textual fields ∧ (fields.map Prod.fst).Nodup ∧ ∀ field ∈ fields, Keyed field.2 := by
  generalize hmapping : Document.mapping entries = document at h
  cases h with
  | record distinct each => exact ⟨_, Document.mapping.inj hmapping, distinct, each⟩
  | _ => cases hmapping

theorem shows (h : document.Keyed) : document.Shows := by
  induction h with
  | record _ _ ih =>
    refine .mapping ?_ (List.forall_mem_map.mpr ih)
    exact List.forall_mem_map.mpr fun _ _ => nofun
  | _ => exact .leaf nofun

theorem of_find (h : Keyed (.mapping entries)) (hfind : find name entries = some document) :
    document.Keyed := by
  obtain ⟨fields, rfl, -, heach⟩ := h.exists_fields
  clear h
  induction fields with
  | nil => cases hfind
  | cons field fields ih =>
    rw [List.forall_mem_cons] at heach
    rw [textual, List.map_cons, find] at hfind
    split at hfind
    · cases hfind
      exact heach.1
    · exact ih hfind heach.2

end Keyed

section Reading

variable {α β : Type} {v : Vocabulary} {place : String} {entries block : List (Key × Document)}

theorem ok_bind {a : α} {f : α → Read β} : (.ok a : Read α) >>= f = f a := rfl

theorem bind_eq_ok_iff {x : Read α} {f : α → Read β} {b : β} :
    x >>= f = .ok b ↔ ∃ a, x = .ok a ∧ f a = .ok b := by
  cases x with
  | ok a => simp [bind, Except.bind]
  | error error => simp [bind, Except.bind]

theorem pure_eq_ok_iff {a b : α} : (pure a : Read α) = .ok b ↔ a = b := by simp [pure, Except.pure]

theorem readText_eq_ok_iff {document : Document} {content : String} :
    readText place document = .ok content ↔ HoldsText document content := by
  constructor
  · intro h
    cases document <;> cases h
    · exact .null
    · exact .text _
  · rintro (_ | _) <;> rfl

theorem readBool_eq_ok_iff {document : Document} {flag : Bool} :
    readBool place document = .ok flag ↔ HoldsFlag document flag := by
  constructor
  · intro h
    cases document <;> cases h
    · exact .null
    · exact .bool _
  · rintro (_ | _) <;> rfl

theorem readField_eq_ok_iff {name content : String} :
    readField place entries name = .ok content ↔ HoldsText (field name entries) content :=
  readText_eq_ok_iff

theorem readMapping_eq_ok_iff {document : Document} :
    readMapping place document = .ok block ↔ document = mapping block := by
  cases document <;> simp [readMapping]

theorem isNull_iff {document : Document} : document.isNull = true ↔ document = null := by
  cases document <;> simp [isNull]

theorem present_eq_nil_iff {names : List String} :
    present entries names = [] ↔ ∀ name ∈ names, field name entries = null := by
  simp [present, List.filter_eq_nil_iff, isNull_iff]

theorem mem_present {names : List String} {name : String} :
    name ∈ present entries names ↔ name ∈ names ∧ field name entries ≠ null := by
  simp [present, ← isNull_iff]

/-- Of distinct fields exactly one is given. -/
theorem present_eq_singleton_iff {names : List String} (hdistinct : names.Nodup) {name : String} :
    present entries names = [name] ↔ name ∈ names ∧ field name entries ≠ null ∧
      ∀ other ∈ names, other ≠ name → field other entries = null := by
  have hsingle : present entries names = [name] ↔
      ∀ other, other ∈ present entries names ↔ other ∈ [name] := by
    rw [← List.perm_singleton]
    exact List.perm_ext_iff_of_nodup (hdistinct.filter _) (List.nodup_singleton name)
  simp only [hsingle, mem_present, List.mem_singleton]
  constructor
  · intro h
    obtain ⟨hmem, hgiven⟩ := (h name).mpr rfl
    refine ⟨hmem, hgiven, fun other hother hne => ?_⟩
    exact by_contra fun hnull => hne ((h other).mp ⟨hother, hnull⟩)
  · rintro ⟨hmem, hgiven, hothers⟩ other
    constructor
    · rintro ⟨hother, hnull⟩
      exact by_contra fun hne => hnull (hothers other hother hne)
    · rintro rfl
      exact ⟨hmem, hgiven⟩

/-- The only block among distinct fields is the only field that is given. -/
theorem OnlyBlock.present_eq {names : List String} (hdistinct : names.Nodup) {name : String}
    (hname : name ∈ names) (h : OnlyBlock names name entries block) :
    present entries names = [name] :=
  (present_eq_singleton_iff hdistinct).mpr ⟨hname, by rw [h.1]; exact nofun, h.2⟩

/-- The only field that is given is read as the only block. -/
theorem OnlyBlock.of_read {names : List String} (hdistinct : names.Nodup) {name : String}
    (hpresent : present entries names = [name])
    (hblock : readMapping place (field name entries) = .ok block) :
    name ∈ names ∧ OnlyBlock names name entries block := by
  obtain ⟨hname, -, hothers⟩ := (present_eq_singleton_iff hdistinct).mp hpresent
  exact ⟨hname, readMapping_eq_ok_iff.mp hblock, hothers⟩

theorem describesClients_cons {name : String} {document : Document}
    {fields : List (String × Document)} {clients : List (String × Client)} :
    DescribesClients v (textual ((name, document) :: fields)) clients ↔
      ∃ client rest, DescribesClient v document client ∧ DescribesClients v (textual fields) rest ∧
        clients = (name, client) :: rest := by
  rw [textual, List.map_cons, DescribesClients, List.forall₂_cons_left_iff]
  constructor
  · rintro ⟨⟨_, client⟩, rest, ⟨hname, hclient⟩, hrest, rfl⟩
    cases hname
    exact ⟨client, rest, hclient, hrest, rfl⟩
  · rintro ⟨client, rest, hclient, hrest, rfl⟩
    exact ⟨(name, client), rest, ⟨rfl, hclient⟩, hrest, rfl⟩

/-- The entries of the field of the contexts; a null one has none. -/
def readRow (v : Vocabulary) : Document → Read (List (Key × Document))
  | .null => .ok []
  | contexts => readMapping v.contexts contexts

theorem configuration_mapping : (mapping entries).configuration v =
    match find v.contexts entries with
    | none => .error (.missingContexts v.contexts)
    | some contexts => do
      let current ← readText v.current (field v.current entries)
      let contexts ← readContexts v .empty (← readRow v contexts)
      return { current, contexts } := by
  simp only [configuration, readMapping_mapping, bind, Except.bind]
  cases find v.contexts entries with
  | none => rfl
  | some contexts => cases contexts <;> rfl

section Names

variable (hv : v.Distinct)
include hv

/-- The source that is read is the one that is described. -/
theorem readSource_eq_ok_iff {source : Option TicketSource} :
    readSource v place entries = .ok source ↔ DescribesSource v entries source := by
  have hblock := hv [v.confFile, v.withPassword, v.withKeytab, v.fromCache]
    (by simp [Vocabulary.blocks])
  obtain ⟨-, hnames⟩ := List.nodup_cons.mp hblock
  have hdistinct := hnames
  simp only [List.nodup_cons, List.mem_cons, List.not_mem_nil, or_false, not_or] at hdistinct
  rw [readSource]
  constructor
  · intro h
    split at h
    case h_1 hpresent =>
      cases h
      exact .none (present_eq_nil_iff.mp hpresent)
    case h_2 name hpresent =>
      obtain ⟨block, hblock, h⟩ := bind_eq_ok_iff.mp h
      obtain ⟨hname, honly⟩ := OnlyBlock.of_read hnames hpresent hblock
      simp only [List.mem_cons, List.not_mem_nil, or_false] at hname
      split at h
      case isTrue hkind =>
        subst hkind
        simp only [bind_eq_ok_iff, pure_eq_ok_iff, readField_eq_ok_iff] at h
        obtain ⟨username, husername, password, hpassword, realm, hrealm, rfl⟩ := h
        exact .password honly husername hpassword hrealm
      case isFalse hpassword =>
        split at h
        case isTrue hkind =>
          subst hkind
          simp only [bind_eq_ok_iff, pure_eq_ok_iff, readField_eq_ok_iff] at h
          obtain ⟨file, hfile, rfl⟩ := h
          exact .keytab honly hfile
        case isFalse hkeytab =>
          obtain rfl : name = v.fromCache := by simpa [hpassword, hkeytab] using hname
          simp only [bind_eq_ok_iff, pure_eq_ok_iff, readField_eq_ok_iff] at h
          obtain ⟨file, hfile, rfl⟩ := h
          exact .cache honly hfile
    case h_3 => cases h
  · intro h
    cases h with
    | none missing => rw [present_eq_nil_iff.mpr missing]
    | password only husername hpassword hrealm =>
      rw [only.present_eq hnames (by simp)]
      simp only [bind_eq_ok_iff, if_true, readMapping_eq_ok_iff, readField_eq_ok_iff,
        pure_eq_ok_iff]
      exact ⟨_, only.1, _, husername, _, hpassword, _, hrealm, rfl⟩
    | keytab only hfile =>
      rw [only.present_eq hnames (by simp)]
      simp only [bind_eq_ok_iff, if_neg (Ne.symm hdistinct.1.1), if_true, readMapping_eq_ok_iff,
        readField_eq_ok_iff, pure_eq_ok_iff]
      exact ⟨_, only.1, _, hfile, rfl⟩
    | cache only hfile =>
      rw [only.present_eq hnames (by simp)]
      simp only [bind_eq_ok_iff, if_neg (Ne.symm hdistinct.1.2), if_neg (Ne.symm hdistinct.2.1),
        readMapping_eq_ok_iff, readField_eq_ok_iff, pure_eq_ok_iff]
      exact ⟨_, only.1, _, hfile, rfl⟩

/-- The credentials that are read are those that are described. -/
theorem readAuthentication_eq_ok_iff {a : Option Authentication} :
    readAuthentication v place entries = .ok a ↔ DescribesAuthentication v entries a := by
  have hblock := hv [v.host, v.token, v.timeout, v.debug, v.basic, v.kerberos]
    (by simp [Vocabulary.blocks])
  have hnames : [v.basic, v.kerberos].Nodup := (List.drop_sublist 4 _).nodup hblock
  have hne : v.kerberos ≠ v.basic := by simpa [eq_comm] using hnames
  rw [readAuthentication]
  constructor
  · intro h
    split at h
    case h_1 hpresent =>
      cases h
      exact .none (present_eq_nil_iff.mp hpresent)
    case h_2 name hpresent =>
      obtain ⟨block, hblock, h⟩ := bind_eq_ok_iff.mp h
      obtain ⟨hname, honly⟩ := OnlyBlock.of_read hnames hpresent hblock
      simp only [List.mem_cons, List.not_mem_nil, or_false] at hname
      split at h
      case isTrue hkind =>
        subst hkind
        simp only [bind_eq_ok_iff, pure_eq_ok_iff, readField_eq_ok_iff] at h
        obtain ⟨username, husername, password, hpassword, rfl⟩ := h
        exact .basic honly husername hpassword
      case isFalse hkind =>
        obtain rfl : name = v.kerberos := by simpa [hkind] using hname
        simp only [bind_eq_ok_iff, pure_eq_ok_iff, readField_eq_ok_iff,
          readSource_eq_ok_iff hv] at h
        obtain ⟨confFile, hconfFile, source, hsource, rfl⟩ := h
        exact .kerberos honly hconfFile hsource
    case h_3 => cases h
  · intro h
    cases h with
    | none missing => rw [present_eq_nil_iff.mpr missing]
    | basic only husername hpassword =>
      rw [only.present_eq hnames (by simp)]
      simp only [bind_eq_ok_iff, if_true, readMapping_eq_ok_iff, readField_eq_ok_iff,
        pure_eq_ok_iff]
      exact ⟨_, only.1, _, husername, _, hpassword, rfl⟩
    | kerberos only hconfFile hsource =>
      rw [only.present_eq hnames (by simp)]
      simp only [bind_eq_ok_iff, if_neg hne, readMapping_eq_ok_iff, readField_eq_ok_iff,
        readSource_eq_ok_iff hv, pure_eq_ok_iff]
      exact ⟨_, only.1, _, hconfFile, _, hsource, rfl⟩

theorem readClient_eq_ok_iff {document : Document} {c : Client} :
    readClient v place document = .ok c ↔ DescribesClient v document c := by
  constructor
  · intro h
    rw [readClient.eq_def] at h
    split at h
    case h_1 =>
      cases h
      exact .null
    case h_2 =>
      simp only [bind_eq_ok_iff, pure_eq_ok_iff, readMapping_eq_ok_iff, readField_eq_ok_iff,
        readAuthentication_eq_ok_iff hv, readBool_eq_ok_iff] at h
      obtain ⟨entries, rfl, host, hhost, a, ha, token, htoken, timeout, htimeout, debug, hdebug,
        rfl⟩ := h
      exact .mapping hhost htoken htimeout hdebug ha
  · intro h
    cases h with
    | null => rfl
    | mapping host token timeout debug authentication =>
      rw [readClient]
      · simp only [bind_eq_ok_iff, pure_eq_ok_iff, readMapping_eq_ok_iff, readField_eq_ok_iff,
          readAuthentication_eq_ok_iff hv, readBool_eq_ok_iff]
        exact ⟨_, rfl, _, host, _, authentication, _, token, _, timeout, _, debug, rfl⟩
      · intro hnull
        cases hnull

/-- Contexts under distinct names are read one by one, after the clients that are there. -/
theorem readContexts_eq_ok_iff {fields : List (String × Document)}
    {before after : OrderedMap Client}
    (hdistinct : (before.names ++ fields.map Prod.fst).Nodup) :
    readContexts v before (textual fields) = .ok after ↔
      ∃ clients, DescribesClients v (textual fields) clients ∧
        after.entries = before.entries ++ clients := by
  induction fields generalizing before with
  | nil =>
    have hend : readContexts v before (textual []) = .ok before := rfl
    rw [hend]
    constructor
    · rintro ⟨⟩
      exact ⟨[], .nil, (List.append_nil _).symm⟩
    · rintro ⟨clients, hclients, hafter⟩
      cases hclients
      exact congrArg Except.ok (OrderedMap.ext (by rw [hafter, List.append_nil]))
  | cons field fields ih =>
    obtain ⟨name, document⟩ := field
    have hnew : name ∉ before.names := by
      intro hmem
      rw [List.nodup_append] at hdistinct
      exact hdistinct.2.2 name hmem name (by simp) rfl
    have hinsert (client : Client) :
        (before.insert name client).entries = before.entries ++ [(name, client)] :=
      OrderedMap.put_of_not_mem hnew
    have hrest (client : Client) :
        ((before.insert name client).names ++ fields.map Prod.fst).Nodup := by
      rw [OrderedMap.names, hinsert, List.map_append, List.append_assoc]
      exact hdistinct
    have hread : readContexts v before (textual ((name, document) :: fields)) = .ok after ↔
        ∃ client, DescribesClient v document client ∧
          readContexts v (before.insert name client) (textual fields) = .ok after := by
      rw [textual, List.map_cons, readContexts, bind_eq_ok_iff]
      simp only [readName, Except.ok.injEq, exists_eq_left', bind_eq_ok_iff,
        readClient_eq_ok_iff hv]
      rfl
    simp only [hread, ih (hrest _), describesClients_cons, hinsert, List.append_assoc]
    constructor
    · rintro ⟨client, hclient, clients, hclients, hafter⟩
      exact ⟨_, ⟨client, clients, hclient, hclients, rfl⟩, hafter⟩
    · rintro ⟨_, ⟨client, clients, hclient, hclients, rfl⟩, hafter⟩
      exact ⟨client, hclient, clients, hclients, hafter⟩

/-- A field of contexts is read as its entries, and a null one as none. -/
theorem readRow_eq_ok_iff {contexts : Document} (h : contexts.Keyed) {m : OrderedMap Client} :
    (∃ row, readRow v contexts = .ok row ∧ readContexts v .empty row = .ok m) ↔
      DescribesContexts v contexts m.entries := by
  have hcontexts (fields : List (String × Document)) (hdistinct : (fields.map Prod.fst).Nodup) :
      readContexts v .empty (textual fields) = .ok m ↔
        ∃ clients, DescribesClients v (textual fields) clients ∧ m.entries = clients :=
    readContexts_eq_ok_iff hv hdistinct
  constructor
  · rintro ⟨row, hrow, hread⟩
    rw [readRow.eq_def] at hrow
    split at hrow
    case h_1 =>
      cases hrow
      obtain ⟨clients, hclients, hm⟩ := (hcontexts [] .nil).mp hread
      cases hclients
      exact hm ▸ .null
    case h_2 =>
      obtain rfl := readMapping_eq_ok_iff.mp hrow
      obtain ⟨fields, rfl, hdistinct, -⟩ := h.exists_fields
      obtain ⟨clients, hclients, hm⟩ := (hcontexts _ hdistinct).mp hread
      exact .mapping (hm ▸ hclients)
  · intro hdescribes
    generalize hm : m.entries = clients at hdescribes
    cases hdescribes with
    | null => exact ⟨[], rfl, (hcontexts [] .nil).mpr ⟨[], .nil, hm⟩⟩
    | mapping each =>
      obtain ⟨fields, rfl, hdistinct, -⟩ := h.exists_fields
      exact ⟨_, rfl, (hcontexts _ hdistinct).mpr ⟨_, each, hm⟩⟩

/-- The configuration that is read is the one that is described. -/
theorem configuration_eq_ok_iff {document : Document} (h : document.Keyed) {c : Configuration} :
    document.configuration v = .ok c ↔ Describes v document c := by
  constructor
  · intro hread
    obtain ⟨entries, hentries, -⟩ := bind_eq_ok_iff.mp hread
    obtain rfl := readMapping_eq_ok_iff.mp hentries
    rw [configuration_mapping] at hread
    split at hread
    case h_1 => cases hread
    case h_2 contexts hfind =>
      obtain ⟨current, hcurrent, hread⟩ := bind_eq_ok_iff.mp hread
      obtain ⟨row, hrow, hread⟩ := bind_eq_ok_iff.mp hread
      obtain ⟨m, hm, hread⟩ := bind_eq_ok_iff.mp hread
      cases hread
      exact .mapping hfind (readText_eq_ok_iff.mp hcurrent)
        ((readRow_eq_ok_iff hv (h.of_find hfind)).mp ⟨row, hrow, hm⟩)
  · intro hdescribes
    cases hdescribes with
    | mapping hfind hcurrent hcontexts =>
      obtain ⟨row, hrow, hm⟩ := (readRow_eq_ok_iff hv (h.of_find hfind)).mpr hcontexts
      rw [configuration_mapping, hfind]
      exact bind_eq_ok_iff.mpr ⟨_, readText_eq_ok_iff.mpr hcurrent, bind_eq_ok_iff.mpr ⟨row, hrow,
        bind_eq_ok_iff.mpr ⟨_, hm, rfl⟩⟩⟩

end Names

end Reading

end Document

end ContextConfig
