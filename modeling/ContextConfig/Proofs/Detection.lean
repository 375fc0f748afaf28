import ContextConfig.Proofs.Search
import ContextConfig.Proofs.Yaml.Flow.Codec
/-!
# Telling the formats apart

A file that was written in one format is never taken for one of the other, in whatever order the
formats are tried. YAML text is no JSON from its first character on, and JSON text is in YAML either
malformed or a document without contexts. Neither is a fault, so the next format is tried.
-/

namespace ContextConfig

namespace Format

/-- Whether a configuration can be read back from what a format writes for it. -/
def Recovers (format : Format) (c : Configuration) : Prop :=
  format = yaml → ∀ name ∈ c.contexts.names, Yaml.fits (.text name) = true

instance (format : Format) (c : Configuration) : Decidable (format.Recovers c) :=
  inferInstanceAs (Decidable (_ → _))

/-- Whether decoding comes to an error that lets a search go on. -/
def Rejects (format : Format) (path : String) (payload : List UInt8) : Prop :=
  ∃ error, (format.decode path payload).value = .error error ∧
    Error.ofDecode error = .format (.decode error)

theorem rejects_json_encode_yaml (path : String) (c : Configuration) :
    json.Rejects path (yaml.encode c) := by
  obtain ⟨error, hparse⟩ := exists_parse_json_yaml path c
  exact ⟨.json path error, by rw [decode_value, hparse], rfl⟩

theorem rejects_yaml_encode_json (path : String) (c : Configuration) :
    yaml.Rejects path (json.encode c) := by
  refine ⟨_, decode_yaml_encode_json path c, ?_⟩
  split <;> rfl

/-- What a format wrote is decoded by that format or rejected by all. -/
theorem decode_encode_cases (format other : Format) (path : String) (c : Configuration) :
    (other = format ∧ format.Recovers c ∧ (other.decode path (format.encode c)).value = .ok c) ∨
      (¬ (other = format ∧ format.Recovers c) ∧ other.Rejects path (format.encode c)) := by
  cases format with
  | json =>
    cases other with
    | json => exact .inl ⟨rfl, nofun, decode_encode_json path c⟩
    | yaml => exact .inr ⟨nofun, rejects_yaml_encode_json path c⟩
  | yaml =>
    cases other with
    | json => exact .inr ⟨nofun, rejects_json_encode_yaml path c⟩
    | yaml =>
      have hdecode := decode_encode_yaml path c
      by_cases hfits : ∀ name ∈ c.contexts.names, Yaml.fits (.text name) = true
      · rw [if_pos hfits] at hdecode
        exact .inl ⟨rfl, fun _ => hfits, hdecode⟩
      · rw [if_neg hfits] at hdecode
        exact .inr ⟨fun h => hfits (h.2 rfl), _, hdecode, rfl⟩

end Format

namespace World

open Format (Recovers)

variable {path : String} {c : Configuration} {format : Format} {formats : List Format}

theorem decodeFirst_rejects {other : Format} {payload : List UInt8}
    (h : other.Rejects path payload) :
    (decodeFirst path payload (other :: formats)).value
      = (decodeFirst path payload formats).value := by
  obtain ⟨error, hdecode, herror⟩ := h
  have hdecode : (Decoder.decode other path payload).value = .error error := hdecode
  rw [decodeFirst, Logged.bind_value, hdecode]
  cases error with
  | json path error => rfl
  | yaml path => rfl
  | document path format error => rfl
  | fault fault => cases herror

/-- What a format wrote is found in that format among any others, or not at all. -/
theorem decodeFirst_written (path : String) (c : Configuration) (format : Format)
    (formats : List Format) :
    (decodeFirst path (format.encode c) formats).value
      = if format ∈ formats ∧ format.Recovers c then .ok (c, format)
        else .error (.format (.noFormat path)) := by
  induction formats with
  | nil => simp [decodeFirst]
  | cons other formats ih =>
    obtain ⟨rfl, hrecovers, hdecode⟩ | ⟨hother, hrejects⟩ :=
      Format.decode_encode_cases format other path c
    · have hdecode : (Decoder.decode other path (other.encode c)).value = .ok c := hdecode
      rw [decodeFirst, Logged.bind_value, hdecode, if_pos ⟨List.mem_cons_self, hrecovers⟩]
      rfl
    · rw [decodeFirst_rejects hrejects, ih]
      congr 1
      rw [List.mem_cons, eq_iff_iff]
      constructor
      · rintro ⟨hmem, hrecovers⟩
        exact ⟨.inr hmem, hrecovers⟩
      · rintro ⟨rfl | hmem, hrecovers⟩
        · exact absurd ⟨rfl, hrecovers⟩ hother
        · exact ⟨hmem, hrecovers⟩

end World

/-- No configuration that one format wrote is accepted by the other, and so a written file is
attributed to the format that wrote it or to none, in whatever order formats are tried. -/
theorem formats_told_apart (c : Configuration) :
    (∀ path, Format.json.Rejects path (Format.yaml.encode c) ∧
      Format.yaml.Rejects path (Format.json.encode c)) ∧
    ∀ (w : World) (p : Path) (format : Format) (formats : List Format),
      w.disk.read (w.absolute p) = .ok (format.encode c) →
      (w.tryRead p formats).value = if format ∈ formats ∧ format.Recovers c then .ok (c, format)
        else .error (.format (.noFormat (w.absolute p).text)) := by
  refine ⟨fun path => ⟨?_, ?_⟩, fun w p format formats hread => ?_⟩
  · exact Format.rejects_json_encode_yaml path c
  · exact Format.rejects_yaml_encode_json path c
  · rw [World.tryRead_of_ok hread]
    exact World.decodeFirst_written _ c format formats

/-- A file in JSON, in which the name of a context is too long for a key in YAML. -/
def longName : World where
  disk := ⟨[(["a"], .directory),
    (["a", "x"], .file 0o600 (Format.json.encode Format.escapedName))], []⟩
  workingDirectory := .ofText "/a"

theorem formats_told_apart_longName :
    longName.disk.read (longName.absolute (.ofText "x"))
        = .ok (Format.json.encode Format.escapedName) ∧
      (longName.tryRead (.ofText "x") [Format.yaml, .json]).value
        = .ok (Format.escapedName, .json) := by
  have hread : longName.disk.read (longName.absolute (.ofText "x"))
      = .ok (Format.json.encode Format.escapedName) := by rfl
  refine ⟨hread, ?_⟩
  rw [(formats_told_apart Format.escapedName).2 _ _ _ _ hread, if_pos ⟨by decide, nofun⟩]

end ContextConfig
