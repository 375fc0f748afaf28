import ContextConfig.Proofs.Storing
import ContextConfig.Search
/-!
# Writing is atomic and private

A configuration that is written replaces the file in its place as a whole, and only its owner can
read it. Where a step fails, all files keep their content and their mode and the temporary file is
gone. Directories may have been made, however far that got.
-/

namespace ContextConfig

/-- The same files at all places but one. Directories may be new, but none is lost. -/
structure Disk.SameFilesBut (d d' : Disk) (place : Place) : Prop where
  denied : d'.denied = d.denied
  directories : ∀ q, d.get? q = some .directory → d'.get? q = some .directory
  files : ∀ q, q ≠ place → ∀ mode content,
    d'.get? q = some (.file mode content) ↔ d.get? q = some (.file mode content)

namespace Storing

variable {d d' between : Disk} {place : Place} {content : List UInt8}

theorem Writes.sameFilesBut (h : Writes between d' place content) (hsame : d.SameFiles between) :
    d.SameFilesBut d' place := by
  refine ⟨h.denied.trans hsame.denied, fun q hq => ?_, fun q hq mode content => ?_⟩
  · exact (h.isDirectory q).mpr (hsame.kept q .directory hq)
  · rw [h.others q hq]
    exact ⟨hsame.noFile q mode content, hsame.kept q (.file mode content)⟩

theorem Writes.stat {p : Path} (h : Writes d d' place content) (hlocate : d.locate p = .ok place) :
    d'.stat p = .ok (place, .file privateMode content) := by
  have hlocate' : d'.locate p = .ok place := h.locate.mpr hlocate
  simp [Disk.stat, hlocate', h.written, bind, Except.bind, pure, Except.pure]

/-- What is stored lies at the end of its path, for its owner alone. -/
theorem stat_of_store {refusals : Refusals} {target : Path}
    (h : store refusals d target content = (d', .ok ())) :
    ∃ place, d'.stat target = .ok (place, .file privateMode content) ∧ d.SameFilesBut d' place := by
  obtain ⟨between, place, hbetween, hlocate, hwrites⟩ := store_eq_ok h
  have hsame := d.sameFiles_makeDirectories target.parent
  rw [hbetween] at hsame
  exact ⟨place, hwrites.stat hlocate, hwrites.sameFilesBut hsame⟩

end Storing

namespace World

variable {w w' : World} {refusals : Refusals} {c : Configuration} {target : Path}
  {format : Option Format}

theorem write_eq_ok {written : Path} :
    (w.write refusals c target format).value = (w', .ok written) ↔
      written = target ∧ ∃ disk, w' = { w with disk } ∧
        Storing.store refusals w.disk (w.absolute target)
          ((format.getD (formatForPath target)).encode c) = (disk, .ok ()) := by
  unfold write
  dsimp only
  constructor
  · intro h
    split at h
    · cases h
    · rename_i disk hstore
      cases h
      exact ⟨rfl, disk, rfl, hstore⟩
  · rintro ⟨rfl, disk, rfl, hstore⟩
    rw [absolute] at hstore
    rw [hstore]
    rfl

theorem write_eq_error {error : Error}
    (h : (w.write refusals c target format).value = (w', .error error)) :
    (∃ errno path, error = .system errno path) ∧
      ∃ disk, w' = { w with disk } ∧ w.disk.SameFiles disk := by
  unfold write at h
  dsimp only at h
  split at h
  · rename_i disk errno hstore
    cases h
    exact ⟨⟨errno, _, rfl⟩, disk, rfl, Storing.store_eq_error hstore⟩
  · cases h

/-- Writing succeeds exactly where no step is refused, the directories can be made and the path leads
to a place that is not that of a directory. Otherwise it gives an error of the system, and all files are as
they were; and on success the file holds what the format writes, its owner alone can read it, and
all other files are as they were. However far making directories gets, it makes no files. -/
theorem write_isAtomic (w : World) (refusals : Refusals) (c : Configuration) (target : Path)
    (format : Option Format) :
    ((∃ w' written, (w.write refusals c target format).value = (w', .ok written)) ↔
      (∀ step, refusals step = none) ∧
        ∃ between place, w.disk.makeDirectories (w.absolute target).parent = (between, .ok ()) ∧
          between.locate (w.absolute target) = .ok place ∧ between.get? place ≠ some .directory) ∧
    (∀ w' error, (w.write refusals c target format).value = (w', .error error) →
      (∃ errno path, error = .system errno path) ∧
        ∃ disk, w' = { w with disk } ∧ w.disk.SameFiles disk) ∧
    (∀ w' written, (w.write refusals c target format).value = (w', .ok written) →
      written = target ∧ ∃ disk place, w' = { w with disk } ∧ w.disk.SameFilesBut disk place ∧
        disk.stat (w.absolute target)
          = .ok (place, .file 0o600 ((format.getD (formatForPath target)).encode c))) ∧
    ∀ p, w.disk.SameFiles (w.disk.makeDirectories p).1 := by
  refine ⟨?_, fun _ _ => write_eq_error, ?_, w.disk.sameFiles_makeDirectories⟩
  · rw [← Storing.store_isOk_iff]
    constructor
    · rintro ⟨w', written, h⟩
      obtain ⟨-, disk, -, hstore⟩ := write_eq_ok.mp h
      exact ⟨disk, hstore⟩
    · rintro ⟨disk, hstore⟩
      exact ⟨_, target, write_eq_ok.mpr ⟨rfl, disk, rfl, hstore⟩⟩
  · intro w' written h
    obtain ⟨rfl, disk, rfl, hstore⟩ := write_eq_ok.mp h
    obtain ⟨place, hstat, hsame⟩ := Storing.stat_of_store hstore
    exact ⟨rfl, disk, place, rfl, hsame, hstat⟩

end World

end ContextConfig
