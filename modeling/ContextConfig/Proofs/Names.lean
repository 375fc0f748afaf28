import ContextConfig.Codec
/-!
# Names that can be shown

A document whose names can all be shown either is a configuration or has the wrong shape; nothing
in it asks for a value that does not exist.
-/

namespace ContextConfig.Document

/-- Every name in a document can be shown. -/
inductive Shows : Document → Prop where
  | mapping {entries : List (Key × Document)} (hkeys : ∀ entry ∈ entries, entry.1 ≠ .unshowable)
    (hvalues : ∀ entry ∈ entries, Shows entry.2) : Shows (.mapping entries)
  | leaf {document : Document} (h : ∀ entries, document ≠ .mapping entries) : Shows document

/-- What is read has the right shape, or its flaw is not about a name that cannot be shown. -/
def Named {α : Type} (x : Read α) : Prop := x ≠ .error .unshowableName

section Reading

variable {α β : Type} {v : Vocabulary} {place : String}

theorem Named.ok (a : α) : Named (.ok a : Read α) := nofun

theorem Named.bind {x : Read α} {f : α → Read β} (hx : Named x) (hf : ∀ a, x = .ok a → Named (f a)) :
    Named (x >>= f) := by
  cases x with
  | ok a => exact hf a rfl
  | error error => exact fun h => hx (congrArg Except.error (Except.error.inj h))

theorem named_readText (document : Document) : Named (readText place document) := by
  cases document <;> nofun

theorem named_readBool (document : Document) : Named (readBool place document) := by
  cases document <;> nofun

theorem named_readMapping (document : Document) : Named (readMapping place document) := by
  cases document <;> nofun

theorem named_readField (entries : List (Key × Document)) (name : String) :
    Named (readField place entries name) := named_readText _

theorem named_readSource (entries : List (Key × Document)) : Named (readSource v place entries) := by
  unfold readSource
  split
  · exact .ok _
  · refine .bind (named_readMapping _) fun block _ => ?_
    split
    · exact .bind (named_readField _ _) fun _ _ => .bind (named_readField _ _) fun _ _ =>
        .bind (named_readField _ _) fun _ _ => .ok _
    · split
      · exact .bind (named_readField _ _) fun _ _ => .ok _
      · exact .bind (named_readField _ _) fun _ _ => .ok _
  · exact nofun

theorem named_readAuthentication (entries : List (Key × Document)) :
    Named (readAuthentication v place entries) := by
  unfold readAuthentication
  split
  · exact .ok _
  · refine .bind (named_readMapping _) fun block _ => ?_
    split
    · exact .bind (named_readField _ _) fun _ _ => .bind (named_readField _ _) fun _ _ => .ok _
    · exact .bind (named_readField _ _) fun _ _ => .bind (named_readSource _) fun _ _ => .ok _
  · exact nofun

theorem named_readClient (document : Document) : Named (readClient v place document) := by
  unfold readClient
  split
  · exact .ok _
  · exact .bind (named_readMapping _) fun _ _ => .bind (named_readField _ _) fun _ _ =>
      .bind (named_readAuthentication _) fun _ _ => .bind (named_readField _ _) fun _ _ =>
      .bind (named_readField _ _) fun _ _ => .bind (named_readBool _) fun _ _ => .ok _

theorem named_readContexts (contexts : OrderedMap Client) {entries : List (Key × Document)}
    (h : ∀ entry ∈ entries, entry.1 ≠ .unshowable) : Named (readContexts v contexts entries) := by
  induction entries generalizing contexts with
  | nil => exact .ok _
  | cons entry rest ih =>
    obtain ⟨key, value⟩ := entry
    obtain ⟨hkey, hrest⟩ := List.forall_mem_cons.mp h
    have hname : Named (readName key) := by
      cases key with
      | text name => exact .ok _
      | shown name => exact .ok _
      | unshowable => exact absurd rfl hkey
    exact .bind hname fun _ _ => .bind (named_readClient _) fun _ _ => ih _ hrest

theorem Shows.of_find {name : String} {entries : List (Key × Document)} {value : Document}
    (h : ∀ entry ∈ entries, Shows entry.2) (hfind : find name entries = some value) : Shows value := by
  induction entries with
  | nil => cases hfind
  | cons entry rest ih =>
    obtain ⟨hentry, hrest⟩ := List.forall_mem_cons.mp h
    rw [find] at hfind
    split at hfind
    · cases hfind
      exact hentry
    · exact ih hrest hfind

theorem Shows.named_configuration {document : Document} (h : Shows document) :
    Named (document.configuration v) := by
  refine .bind (named_readMapping _) fun entries hentries => ?_
  split
  · exact nofun
  · rename_i contexts hfind
    refine .bind (named_readText _) fun current _ => ?_
    have hcontexts : Shows contexts := by
      cases h with
      | mapping _ hvalues =>
        cases hentries
        exact .of_find hvalues hfind
      | leaf h =>
        cases document <;> cases hentries
        exact absurd rfl (h _)
    dsimp only
    split
    · exact .bind (.ok _) fun names hnames => by
        cases hnames
        exact .bind (named_readContexts _ nofun) fun _ _ => .ok _
    · refine .bind (named_readMapping _) fun names hnames => .bind (named_readContexts _ ?_) fun _ _ => .ok _
      cases hcontexts with
      | mapping hkeys _ =>
        cases hnames
        exact hkeys
      | @leaf contexts h =>
        cases contexts <;> cases hnames
        exact absurd rfl (h _)

end Reading

mutual

/-- The names of an object are texts. -/
theorem shows_toDocument : (value : Json) → Shows value.toDocument
  | .null | .bool _ | .number _ | .string _ | .array _ => .leaf nofun
  | .object fields => .mapping (shows_fieldsToDocument fields).1 (shows_fieldsToDocument fields).2

theorem shows_fieldsToDocument : (fields : List (String × Json)) →
    (∀ entry ∈ Json.fieldsToDocument fields, entry.1 ≠ .unshowable) ∧
      ∀ entry ∈ Json.fieldsToDocument fields, Shows entry.2
  | [] => ⟨nofun, nofun⟩
  | (_, value) :: fields =>
    ⟨List.forall_mem_cons.mpr ⟨nofun, (shows_fieldsToDocument fields).1⟩,
      List.forall_mem_cons.mpr ⟨shows_toDocument value, (shows_fieldsToDocument fields).2⟩⟩

end

end ContextConfig.Document
