import ContextConfig.Proofs.Codec
import ContextConfig.Proofs.Json.LongIntegers
import ContextConfig.Proofs.Json.Nesting
import ContextConfig.Proofs.Search
import ContextConfig.Proofs.Yaml.Risks
/-!
# Faults

Decoding gives a configuration or says that the bytes have the wrong form, unless they ask for a
value that does not exist or are nested too deeply. A search stops at the first file that does so,
although a file behind it could be used.
-/

namespace ContextConfig

namespace World

variable {κ : Type} [Decoder κ] (w : World) (formats : List κ)

/-- What an attempt settles: a configuration or a fault; nothing if the file cannot be read or has
the wrong form. -/
def judgement (p : Path) (format : κ) : Option (Except Fault Configuration) :=
  match w.disk.read (w.absolute p) with
  | .error _ => none
  | .ok payload =>
    match (Decoder.decode format (w.absolute p).text payload).value with
    | .ok c => some (.ok c)
    | .error (.fault fault) => some (.error fault)
    | .error _ => none

/-- What trying a candidate comes to, by the first attempt at it that settles something. -/
inductive Tried : Option (Except Fault Configuration) → Except Error (Configuration × κ) → Prop where
  | found (c : Configuration) (format : κ) : Tried (some (.ok c)) (.ok (c, format))
  | fault (fault : Fault) : Tried (some (.error fault)) (.error (.fault fault))
  | missing (what : Missing) : Tried none (.error (.missing what))
  | system (errno : Errno) (path : String) : Tried none (.error (.system errno path))
  | format (error : FormatError) : Tried none (.error (.format error))

theorem tried_decodeFirst (path : String) (payload : List UInt8) :
    Tried (formats.findSome? fun format =>
      match (Decoder.decode format path payload).value with
      | .ok c => some (.ok c)
      | .error (.fault fault) => some (.error fault)
      | .error _ => none) (decodeFirst path payload formats).value := by
  induction formats with
  | nil => exact .format _
  | cons format rest ih =>
    rw [decodeFirst, Logged.bind_value, List.findSome?_cons]
    cases (Decoder.decode format path payload).value with
    | ok c => exact .found c format
    | error error =>
      cases error with
      | fault fault => exact .fault fault
      | json path error => exact ih
      | yaml path => exact ih
      | document path format error => exact ih

theorem tried (p : Path) :
    Tried (formats.findSome? (w.judgement p)) (w.tryRead p formats).value := by
  cases hread : w.disk.read (w.absolute p) with
  | ok payload =>
    rw [tryRead_of_ok hread]
    unfold judgement
    simp only [hread]
    exact tried_decodeFirst formats _ _
  | error errno =>
    have hnone : formats.findSome? (w.judgement p) = none := by
      rw [List.findSome?_eq_none_iff]
      intro format _
      rw [judgement, hread]
    rw [hnone]
    obtain ⟨-, htry⟩ | ⟨-, errno', htry⟩ := tryRead_of_error formats hread
    · rw [htry]
      exact .missing _
    · rw [htry]
      exact .system _ _

theorem find?_stops_fault (paths : List Path) (fault : Fault) :
    (∃ p, paths.find? (w.stops formats) = some p ∧ w.found formats p = .error (.fault fault)) ↔
      (paths.flatMap fun p => formats.map fun format => (p, format)).findSome?
        (fun a => w.judgement a.1 a.2) = some (.error fault) := by
  induction paths with
  | nil => simp
  | cons p paths ih =>
    have htried := w.tried formats p
    rw [List.flatMap_cons, List.findSome?_append, List.findSome?_map, List.find?_cons]
    change _ ↔ (formats.findSome? (w.judgement p)).or _ = _
    generalize formats.findSome? (w.judgement p) = judged at htried
    generalize hresult : (w.tryRead p formats).value = result at htried
    cases htried with
    | found c format => simp [stops, found, hresult, Except.map]
    | fault other => simp [stops, found, hresult, Except.map]
    | missing what => simpa [stops, hresult] using ih
    | system errno path => simpa [stops, hresult] using ih
    | format error => simpa [stops, hresult] using ih

/-- A search faults exactly if the first attempt that settles something does. -/
theorem locate_eq_fault (roots : List Path) (fault : Fault) :
    (w.locate roots formats).value = .error (.fault fault) ↔
      (attempts roots formats).findSome? (fun a => w.judgement a.1 a.2) = some (.error fault) := by
  rw [attempts, ← find?_stops_fault, locate_value]
  cases (candidates roots).find? (w.stops formats) with
  | some p => simp
  | none =>
    simp only [reduceCtorEq, false_and, exists_false, iff_false]
    rw [nothingAmong]
    split <;> simp

end World

namespace Format

theorem interpret_of_shows {document : Document} (h : document.Shows) (format : Format) (path : String)
    (fault : Fault) : format.interpret path document ≠ .error (.fault fault) := by
  have hnamed := h.named_configuration (v := format.vocabulary)
  rw [interpret]
  split
  · intro h
    cases h
  · rename_i herror
    exact absurd herror hnamed
  · intro h
    cases h

/-- JSON faults where an integer is too long or too many brackets are open, and nowhere else. -/
theorem decode_json_fault (path : String) (payload : List UInt8) (fault : Fault) :
    (Format.json.decode path payload).value = .error (.fault fault) ↔
      ∃ text, Json.decodeBytes payload = .ok text ∧
        (fault = .unrepresentable ∧ Json.AsksLongInteger text ∨
          fault = .tooNested ∧ Json.readText text = .error .tooNested) := by
  rw [decode_value]
  simp only [parse, Json.ofBytes]
  cases hbytes : Json.decodeBytes payload with
  | error error => simp
  | ok text =>
    simp only [Except.ok.injEq, ↓existsAndEq, true_and, ← Json.readText_eq_tooManyDigits]
    cases hread : Json.readText text with
    | ok value =>
      have hinterpret := interpret_of_shows (Document.shows_toDocument value) .json path fault
      simpa using hinterpret
    | error stop =>
      cases stop with
      | tooManyDigits => simp [eq_comm]
      | tooNested => simp [eq_comm]
      | flaw flaw rest => simp

/-- A file that may fault: in JSON by an integer that is too long or by brackets inside one another,
in YAML as `Yaml.Risky` says. -/
def Risky (format : Format) (payload : List UInt8) : Prop :=
  match format with
  | json => ∃ text, Json.decodeBytes payload = .ok text ∧
      (Json.AsksLongInteger text ∨ Json.readWithin safeCalls text = .error .tooNested)
  | yaml => ∃ text, Yaml.decodeBytes payload = .ok text ∧ Yaml.Risky text

theorem risky_json_of_decode {path : String} {payload : List UInt8} {fault : Fault}
    (h : (Format.json.decode path payload).value = .error (.fault fault)) :
    Format.json.Risky payload := by
  obtain ⟨text, hbytes, ⟨-, hlong⟩ | ⟨-, hnested⟩⟩ := (decode_json_fault ..).mp h
  · exact ⟨text, hbytes, .inl hlong⟩
  · exact ⟨text, hbytes, .inr (Json.tooNested_safe hnested)⟩

theorem risky_yaml_of_decode {path : String} {payload : List UInt8} {fault : Fault}
    (h : (Format.yaml.decode path payload).value = .error (.fault fault)) :
    Format.yaml.Risky payload := by
  by_contra hrisky
  have hread := Yaml.sure_ofBytes fun text hbytes h => hrisky ⟨text, hbytes, h⟩
  rw [decode_value] at h
  simp only [parse] at h
  generalize Yaml.ofBytes payload = result at hread h
  cases hread with
  | document hshows => exact interpret_of_shows hshows .yaml path fault h
  | malformed => cases h

/-- Only risky files fault. -/
theorem risky_of_decode {format : Format} {path : String} {payload : List UInt8} {fault : Fault}
    (h : (format.decode path payload).value = .error (.fault fault)) : format.Risky payload := by
  cases format with
  | json => exact risky_json_of_decode h
  | yaml => exact risky_yaml_of_decode h

end Format

namespace World

theorem judges_of_not_risky {w : World} {formats : List Format} {p : Path}
    (h : ∀ payload, w.disk.read (w.absolute p) = .ok payload → ∀ format ∈ formats,
      ¬ format.Risky payload) : w.Judges formats p :=
  fun payload hread format hformat _ hfault =>
    h payload hread format hformat (Format.risky_of_decode hfault)

theorem decode_of_judgement {κ : Type} [Decoder κ] {w : World} {p : Path} {format : κ} {fault : Fault}
    (h : w.judgement p format = some (.error fault)) : ∃ payload,
      w.disk.read (w.absolute p) = .ok payload ∧
      (Decoder.decode format (w.absolute p).text payload).value = .error (.fault fault) := by
  unfold judgement at h
  split at h
  · cases h
  · rename_i payload hread
    refine ⟨payload, hread, ?_⟩
    split at h
    · cases h
    · cases h
      assumption
    · cases h

/-- Decoding gives a configuration or says that the form is wrong unless the file is risky, and for
JSON it is known exactly when it does not. A search faults exactly if the first attempt that settles
something does. Among files that are not risky no search faults, and the first one that can be decoded
is found. -/
theorem locate_faults (w : World) (roots : List Path) (formats : List Format) :
    (∀ (format : Format) path payload fault,
      (format.decode path payload).value = .error (.fault fault) → format.Risky payload) ∧
    (∀ path payload fault, (Format.json.decode path payload).value = .error (.fault fault) ↔
      ∃ text, Json.decodeBytes payload = .ok text ∧
        (fault = .unrepresentable ∧ Json.AsksLongInteger text ∨
          fault = .tooNested ∧ Json.readText text = .error .tooNested)) ∧
    (∀ fault, (w.locate roots formats).value = .error (.fault fault) ↔
      (attempts roots formats).findSome? (fun a => w.judgement a.1 a.2) = some (.error fault)) ∧
    ((∀ p ∈ candidates roots, ∀ payload, w.disk.read (w.absolute p) = .ok payload →
        ∀ format ∈ formats, ¬ format.Risky payload) →
      ∀ fault, (w.locate roots formats).value ≠ .error (.fault fault)) ∧
    ∀ before p format after c, attempts roots formats = before ++ (p, format) :: after →
      (∀ a ∈ before, w.decodes? a.1 a.2 = none) → w.decodes? p format = some c →
      (∀ q, q = p ∨ q ∈ before.map Prod.fst → ∀ payload, w.disk.read (w.absolute q) = .ok payload →
        ∀ format ∈ formats, ¬ format.Risky payload) →
      (w.locate roots formats).value = .ok { configuration := c, path := p, format } := by
  refine ⟨fun _ _ _ _ => Format.risky_of_decode, Format.decode_json_fault,
    w.locate_eq_fault formats roots, ?_, ?_⟩
  · intro hsafe fault hfault
    rw [locate_eq_fault, attempts] at hfault
    obtain ⟨a, ha, hjudgement⟩ := List.exists_of_findSome?_eq_some hfault
    obtain ⟨p, hp, ha⟩ := List.mem_flatMap.mp ha
    obtain ⟨format, hformat, rfl⟩ := List.mem_map.mp ha
    obtain ⟨payload, hread, hdecode⟩ := decode_of_judgement hjudgement
    exact hsafe p hp payload hread format hformat (Format.risky_of_decode hdecode)
  · intro before p format after c hattempts hbefore hdecodes hsafe
    exact locate_of_first hattempts (fun q hq => judges_of_not_risky (hsafe q hq)) hbefore hdecodes

/-- A file that asks for a truth value of an unknown name, ahead of one that can be decoded. -/
def unknownWord : World where
  disk := ⟨[(["a"], .directory), (["a", "lenses.yml"], .file 0o600 (Encoding.bytes "!!bool x".toList)),
    (["a", "lenses.json"], .file 0o600 (Encoding.bytes "\x7b\x22contexts\x22:\x7b\x7d\x7d".toList))], []⟩
  workingDirectory := .ofText "/"

theorem not_locate_unknownWord :
    (Format.yaml.decode "<memory>" (Encoding.bytes "!!bool x".toList)).value
      = .error (.fault .unknownWord) ∧
    unknownWord.decodes? (.ofText "/a/lenses.json") Format.json = some .empty ∧
    (unknownWord.locate [.ofText "/a"] [Format.json, .yaml]).value = .error (.fault .unknownWord) := by
  decide +kernel

end World
end ContextConfig
