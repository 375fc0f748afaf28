import ContextConfig.Proofs.Consistency
import ContextConfig.Proofs.Saving
import ContextConfig.Proofs.Session.Operations
/-!
# Operations succeed as a whole or not at all

What a session holds, the file it came from and the format of that file go together. An operation
that fails leaves all three as they were, and so does loading where nothing is found. A file that is
loaded gives all three, and there is a file exactly if there is a format, whatever was done before.
-/

namespace ContextConfig.Session

variable {s s' : Session}

section Loading

/-- A file that is found is taken over, and otherwise only broken files that are to be discarded
change anything. -/
theorem load_cases (s : Session) (w : World) (discardInvalid : Bool) :
    (∃ located, (w.locate (s.locations.roots w.workingDirectory).value s.formats).value = .ok located ∧
      (s.load w discardInvalid).value = (.ok (s.adopt located).1, (s.adopt located).2)) ∨
    (∃ error, (s.load w discardInvalid).value = (.ok .discarded, (s.discard error).value)) ∨
    (s.load w discardInvalid).value = (.ok .nothing, s) ∨
    ∃ error, (s.load w discardInvalid).value = (.error error, s) := by
  rw [load_value]
  cases (w.locate (s.locations.roots w.workingDirectory).value s.formats).value with
  | ok located => exact .inl ⟨located, rfl, rfl⟩
  | error error =>
    cases error with
    | missing => exact .inr (.inr (.inl rfl))
    | format error =>
      cases discardInvalid with
      | true => exact .inr (.inl ⟨error, rfl⟩)
      | false => exact .inr (.inr (.inr ⟨.format error, rfl⟩))
    | invalid | system | fault => exact .inr (.inr (.inr ⟨_, rfl⟩))

theorem loadFile_cases (s : Session) (w : World) (p : Path) :
    (∃ c format, (w.tryRead p s.formats).value = .ok (c, format) ∧
      (s.loadFile w p).value = (.ok (s.adopt ⟨c, p, format⟩).1, (s.adopt ⟨c, p, format⟩).2)) ∨
    ∃ error, (s.loadFile w p).value = (.error error, s) := by
  rw [loadFile, Logged.bind_value]
  cases (w.tryRead p s.formats).value with
  | ok read => exact .inl ⟨read.1, read.2, rfl, rfl⟩
  | error error => exact .inr ⟨error, rfl⟩

end Loading

section Failing

theorem eq_of_load {w : World} {discardInvalid : Bool} {result : Except Error Loaded}
    (h : (s.load w discardInvalid).value = (result, s'))
    (hnothing : ∀ loaded, result = .ok loaded → loaded = .nothing) : s' = s := by
  obtain ⟨located, -, hload⟩ | ⟨error, hload⟩ | hload | ⟨error, hload⟩ := s.load_cases w discardInvalid
  · rw [hload] at h
    cases h
    cases hnothing _ rfl
  · rw [hload] at h
    cases h
    cases hnothing _ rfl
  · exact (Prod.mk.inj (hload.symm.trans h)).2.symm
  · exact (Prod.mk.inj (hload.symm.trans h)).2.symm

theorem eq_of_loadFile {w : World} {p : Path} {error : Error}
    (h : (s.loadFile w p).value = (.error error, s')) : s' = s := by
  obtain ⟨c, format, -, hload⟩ | ⟨error, hload⟩ := s.loadFile_cases w p
  · rw [hload] at h
    cases h
  · exact (Prod.mk.inj (hload.symm.trans h)).2.symm

theorem eq_of_useContext {name : String} {requireExisting : Bool} {error : Error}
    (h : (s.useContext name requireExisting).value = (.error error, s')) : s' = s := by
  rw [useContext] at h
  split at h
  · exact (Prod.mk.inj h).2.symm
  · cases h

/-- Where a staged configuration is refused, neither it nor the session is changed. -/
theorem run_commitStaged_eq_error_iff {staged : Configuration} {error : Error}
    {after : Session × Configuration} :
    commitStaged.run.run (s, staged) = (.error error, after) ↔
      s.commit staged = .error error ∧ after = (s, staged) := by
  rw [run_commitStaged]
  cases s.commit staged with
  | error refused =>
    constructor
    · intro h
      cases h
      exact ⟨rfl, rfl⟩
    · rintro ⟨h, rfl⟩
      cases h
      rfl
  | ok s' =>
    constructor
    · intro h
      cases h
    · rintro ⟨h, -⟩
      cases h

end Failing

section Adopting

/-- A session takes over a file: it holds what the first of its formats that decodes the file makes
of it, with the hosts in normal form, and it remembers the file and that format. -/
def Adopts (s : Session) (w : World) (p : Path) (s' : Session) : Prop :=
  ∃ before format after c, s.formats = before ++ format :: after ∧
    (∀ other ∈ before, w.decodes? p other = none) ∧ w.decodes? p format = some c ∧
    s' = { s with configuration := c.normalizeHosts, source := some p, format := some format }

theorem adopts_of_tryRead {w : World} {p : Path} {c : Configuration} {format : Format}
    (h : (w.tryRead p s.formats).value = .ok (c, format)) :
    s.Adopts w p (s.adopt ⟨c, p, format⟩).2 := by
  obtain ⟨before, after, hformats, hbefore, hdecodes⟩ := World.exists_of_tryRead h
  exact ⟨before, format, after, c, hformats, hbefore, hdecodes, rfl⟩

/-- What is found is one of the candidates of the search. -/
theorem adopts_of_locate {w : World} {located : Located}
    (h : (w.locate (s.locations.roots w.workingDirectory).value s.formats).value = .ok located) :
    ∃ p ∈ candidates (s.locations.roots w.workingDirectory).value,
      s.Adopts w p (s.adopt located).2 := by
  obtain ⟨hfind, hread⟩ := World.found_of_locate h
  exact ⟨located.path, List.mem_of_find?_eq_some hfind, adopts_of_tryRead hread⟩

theorem adopts_of_load {w : World} {discardInvalid valid : Bool}
    (h : (s.load w discardInvalid).value = (.ok (.adopted valid), s')) :
    ∃ p ∈ candidates (s.locations.roots w.workingDirectory).value, s.Adopts w p s' := by
  obtain ⟨located, hlocate, hload⟩ | ⟨error, hload⟩ | hload | ⟨error, hload⟩ :=
    s.load_cases w discardInvalid
  · rw [hload] at h
    cases h
    exact adopts_of_locate hlocate
  · rw [hload] at h
    cases h
  · rw [hload] at h
    cases h
  · rw [hload] at h
    cases h

theorem adopts_of_loadFile {w : World} {p : Path} {loaded : Loaded}
    (h : (s.loadFile w p).value = (.ok loaded, s')) : s.Adopts w p s' := by
  obtain ⟨c, format, hread, hload⟩ | ⟨error, hload⟩ := s.loadFile_cases w p
  · rw [hload] at h
    cases h
    exact adopts_of_tryRead hread
  · rw [hload] at h
    cases h

end Adopting

section Remembering

/-- A session remembers a file and its format, or neither of them. -/
def IsPaired (s : Session) : Prop := s.source = none ↔ s.format = none

theorem Adopts.isPaired {w : World} {p : Path} (h : s.Adopts w p s') : s'.IsPaired := by
  obtain ⟨before, format, after, c, -, -, -, rfl⟩ := h
  exact ⟨nofun, nofun⟩

theorem isPaired_discard (s : Session) (error : FormatError) : (s.discard error).value.IsPaired :=
  Option.map_eq_none_iff.symm

theorem isPaired_load (h : s.IsPaired) (w : World) (discardInvalid : Bool) :
    (s.load w discardInvalid).value.2.IsPaired := by
  obtain ⟨located, hlocate, hload⟩ | ⟨error, hload⟩ | hload | ⟨error, hload⟩ :=
    s.load_cases w discardInvalid
  · obtain ⟨p, -, hadopts⟩ := adopts_of_locate hlocate
    rw [hload]
    exact hadopts.isPaired
  · rw [hload]
    exact s.isPaired_discard error
  · rw [hload]
    exact h
  · rw [hload]
    exact h

theorem isPaired_loadFile (h : s.IsPaired) (w : World) (p : Path) :
    (s.loadFile w p).value.2.IsPaired := by
  obtain ⟨c, format, hread, hload⟩ | ⟨error, hload⟩ := s.loadFile_cases w p
  · rw [hload]
    exact (adopts_of_tryRead hread).isPaired
  · rw [hload]
    exact h

theorem isPaired_save (h : s.IsPaired) (w : World) (refusals : Refusals) (p : Option Path)
    (format : Option Format) : (s.save w refusals p format).value.2.1.IsPaired := by
  rcases hsave : (s.save w refusals p format).value with ⟨result, s', w'⟩
  cases result with
  | error error => exact (save_eq_error hsave).1 ▸ h
  | ok written =>
    obtain ⟨given, disk, -, rfl, -⟩ := save_eq_ok hsave
    exact ⟨nofun, nofun⟩

/-- Loading and saving set the file and the format together, and nothing else sets either of
them. -/
theorem isPaired_step (h : s.IsPaired) (op : Operation) : (s.step op).IsPaired := by
  cases op with
  | load w discardInvalid => exact isPaired_load h w discardInvalid
  | loadFile w p => exact isPaired_loadFile h w p
  | save w refusals p format => exact isPaired_save h w refusals p format
  | useContext name requireExisting =>
    rw [step, useContext]
    split <;> exact h
  | commit staged =>
    rw [step]
    cases hcommit : s.commit staged with
    | error error => exact h
    | ok s' =>
      obtain ⟨-, rfl⟩ := commit_eq_ok hcommit
      exact h
  | readCurrent | removeContext | applyOverrides | validate | edit => exact h

end Remembering

/-- Where an operation fails, or loading finds nothing, the session is as it was; so is a staged
configuration that is refused. Where a file is taken over, the configuration, the file and the
format all come from it. A session that started without a file remembers a file exactly if it
remembers a format, whatever it was told to do and whatever came of it. -/
theorem allOrNothing (s : Session) :
    (∀ w discardInvalid error s',
      (s.load w discardInvalid).value = (.error error, s') → s' = s) ∧
    (∀ w discardInvalid s', (s.load w discardInvalid).value = (.ok .nothing, s') → s' = s) ∧
    (∀ w p error s', (s.loadFile w p).value = (.error error, s') → s' = s) ∧
    (∀ name requireExisting error s',
      (s.useContext name requireExisting).value = (.error error, s') → s' = s) ∧
    (∀ staged error after, commitStaged.run.run (s, staged) = (.error error, after) ↔
      s.commit staged = .error error ∧ after = (s, staged)) ∧
    (∀ w refusals p format error s' w',
      (s.save w refusals p format).value = (.error error, s', w') → s' = s) ∧
    (∀ w discardInvalid valid s', (s.load w discardInvalid).value = (.ok (.adopted valid), s') →
      ∃ p ∈ candidates (s.locations.roots w.workingDirectory).value, s.Adopts w p s') ∧
    (∀ w p loaded s', (s.loadFile w p).value = (.ok loaded, s') → s.Adopts w p s') ∧
    (s.source = none → s.format = none → ∀ ops,
      ((s.run ops).source = none ↔ (s.run ops).format = none)) := by
  refine ⟨fun _ _ _ _ h => eq_of_load h nofun, fun _ _ _ h => eq_of_load h ?_,
    fun _ _ _ _ => eq_of_loadFile, fun _ _ _ _ => eq_of_useContext,
    fun _ _ _ => run_commitStaged_eq_error_iff, fun _ _ _ _ _ _ _ h => (save_eq_error h).1,
    fun _ _ _ _ => adopts_of_load, fun _ _ _ _ => adopts_of_loadFile, ?_⟩
  · intro loaded hloaded
    exact (Except.ok.inj hloaded).symm
  · intro hsource hformat ops
    have hnew : s.IsPaired := iff_of_true hsource hformat
    exact run_keeps (P := IsPaired) (fun _ op _ h => isPaired_step h op) hnew

end ContextConfig.Session
