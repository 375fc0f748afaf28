import ContextConfig.Proofs.Disk
import ContextConfig.Storing
import Mathlib.Data.List.Nodup
import Mathlib.Tactic.ByContra
/-!
# What storing a file changes

A file that is stored is found at its path with its bytes, and no other place changes but for the
directories above it. The temporary file cannot be in the way of anything: its name is taken
nowhere in the directory.
-/

namespace ContextConfig.Storing

theorem temporaryName_injective : Function.Injective temporaryName := by
  intro m n h
  have hrepr : m.repr = n.repr := (String.append_right_inj ".lenses-config-").mp h
  have hdigits := congrArg (fun text => Nat.ofDigitChars 10 text.toList 0) hrepr
  simpa using hdigits

/-- More names than there are entries cannot all be taken. -/
theorem get?_freshPlace (d : Disk) (directory : Place) :
    d.get? (freshPlace d directory) = none := by
  have hfresh : ∃ name ∈ (List.range (d.entries.length + 1)).map temporaryName,
      d.get? (directory ++ [name]) = none := by
    by_contra htaken
    push Not at htaken
    let places := (List.range (d.entries.length + 1)).map fun n => directory ++ [temporaryName n]
    have hnodup : places.Nodup := by
      apply List.nodup_range.map
      intro m n h
      exact temporaryName_injective (List.singleton_inj.mp (List.append_cancel_left h))
    have hsubset : places ⊆ d.entries.map Prod.fst := by
      intro place hplace
      obtain ⟨n, hn, rfl⟩ := List.mem_map.mp hplace
      have hget := htaken (temporaryName n) (List.mem_map_of_mem hn)
      rw [Disk.get?_of_ne_root _ (by simp), ne_eq, Option.map_eq_none_iff,
        List.find?_eq_none] at hget
      push Not at hget
      obtain ⟨entry, hentry, heq⟩ := hget
      exact List.mem_map.mpr ⟨entry, hentry, by simpa using heq⟩
    have hlength := hnodup.length_le_of_subset hsubset
    simp only [places, List.length_map, List.length_range] at hlength
    omega
  obtain ⟨name, hname, hnone⟩ := hfresh
  have hsome : (((List.range (d.entries.length + 1)).map temporaryName).find? fun name =>
      (d.get? (directory ++ [name])).isNone).isSome = true :=
    List.find?_isSome.mpr ⟨name, hname, by rw [hnone]; rfl⟩
  obtain ⟨found, hfound⟩ := Option.isSome_iff_exists.mp hsome
  rw [freshPlace, hfound, Option.getD_some]
  simpa using List.find?_some hfound

/-- A tree in which one file was written and nothing else was changed. -/
structure Writes (d d' : Disk) (place : Place) (content : List UInt8) : Prop where
  denied : d'.denied = d.denied
  written : d'.get? place = some (.file privateMode content)
  others : ∀ q, q ≠ place → d'.get? q = d.get? q
  noDirectory : d.get? place ≠ some .directory

theorem Writes.isDirectory {d d' : Disk} {place : Place} {content : List UInt8}
    (h : Writes d d' place content) (q : Place) :
    d'.get? q = some .directory ↔ d.get? q = some .directory := by
  by_cases hq : q = place
  · subst hq
    simp [h.written, h.noDirectory]
  · rw [h.others q hq]

/-- Where a file was written paths lead to the same places. -/
theorem Writes.locate {d d' : Disk} {place : Place} {content : List UInt8}
    (h : Writes d d' place content) {p : Path} {q : Place} :
    d'.locate p = .ok q ↔ d.locate p = .ok q :=
  ⟨Disk.locate_mono h.denied.symm fun q => (h.isDirectory q).mp,
    Disk.locate_mono h.denied fun q => (h.isDirectory q).mpr⟩

/-- Where a file was written, the check at another place gives what it gave before. -/
theorem Writes.checkFile {d d' : Disk} {place : Place} {content : List UInt8}
    (h : Writes d d' place content) {p : Path} (hother : d.locate p ≠ .ok place) :
    d'.checkFile p = d.checkFile p := by
  cases hlocate : d.locate p with
  | error errno => exact Disk.checkFile_congr h.denied h.isDirectory hlocate
  | ok q =>
    have hq : q ≠ place := by
      rintro rfl
      exact hother hlocate
    rw [Disk.checkFile_of_locate hlocate, Disk.checkFile_of_locate (h.locate.mpr hlocate),
      Disk.isFileAt, Disk.isFileAt, h.others q hq]

/-- Where a file is written over another one, the same paths lead to files. -/
theorem Writes.isFile {d d' : Disk} {place : Place} {content : List UInt8}
    (h : Writes d d' place content) (hfile : d.isFileAt place = true) (p : Path) :
    d'.isFile p = d.isFile p := by
  by_cases hlocate : d.locate p = .ok place
  · have hwritten : d'.isFileAt place = true := by rw [Disk.isFileAt, h.written]
    rw [Disk.isFile_of_locate hlocate, Disk.isFile_of_locate (h.locate.mpr hlocate), hfile, hwritten]
  · rw [Disk.isFile, Disk.isFile, h.checkFile hlocate]

/-- What can be read where a file was written is what was written. -/
theorem Writes.read {d d' : Disk} {place : Place} {content payload : List UInt8} {p : Path}
    (h : Writes d d' place content) (hlocate : d.locate p = .ok place)
    (hread : d'.read p = .ok payload) : payload = content := by
  have hlocate' : d'.locate p = .ok place := h.locate.mpr hlocate
  rw [Disk.read_of_locate hlocate', Disk.readAt, h.written] at hread
  dsimp only at hread
  split at hread
  · cases hread
  · exact (Except.ok.inj hread).symm

/-- A file that could be read can be read after it was written over. -/
theorem Writes.read_over {d d' : Disk} {place : Place} {content payload : List UInt8} {p : Path}
    (h : Writes d d' place content) (hlocate : d.locate p = .ok place)
    (hread : d.read p = .ok payload) : d'.read p = .ok content := by
  have hallowed : d.denied.contains place = false := by
    rw [Disk.read_of_locate hlocate, Disk.readAt] at hread
    split at hread
    · cases hread
    · cases hread
    · split at hread
      · cases hread
      · rename_i hallowed
        simpa using hallowed
  have hlocate' : d'.locate p = .ok place := h.locate.mpr hlocate
  rw [Disk.read_of_locate hlocate', Disk.readAt, h.written]
  dsimp only
  rw [h.denied, if_neg (by rw [hallowed]; exact Bool.false_ne_true)]

theorem rename_eq_ok {d d' : Disk} {source : Place} {target : Path} :
    rename d source target = .ok d' ↔
      ∃ place entry, d.locate target = .ok place ∧ d.get? place ≠ some .directory ∧
        d.get? source = some entry ∧ d' = (d.remove source).put place entry := by
  rw [rename]
  cases hlocate : d.locate target with
  | error errno => simp [bind, Except.bind]
  | ok place =>
    simp only [bind, Except.bind]
    constructor
    · intro h
      split at h
      · cases h
      · rename_i entry hsource hdirectory
        cases h
        exact ⟨place, entry, rfl, hdirectory, hsource, rfl⟩
      · cases h
    · rintro ⟨_, entry, hplace, hdirectory, hsource, rfl⟩
      cases hplace
      split
      · contradiction
      · rename_i other hother _
        rw [hsource] at hother
        cases hother
        rfl
      · rename_i hnone _
        rw [hsource] at hnone
        cases hnone

/-- A file at a free place is in nobody's way. -/
theorem locate_put {d : Disk} {source place : Place} {target : Path} {mode : Nat}
    {content : List UInt8} (hfree : d.get? source = none) :
    (d.put source (.file mode content)).locate target = .ok place ↔ d.locate target = .ok place := by
  have hroot := Disk.ne_root_of_get?_none hfree
  have hdenied : (d.put source (.file mode content)).denied = d.denied := rfl
  constructor
  · refine Disk.locate_mono hdenied.symm fun q hq => ?_
    rw [Disk.get?_put _ _ _ hroot] at hq
    split at hq
    · cases hq
    · exact hq
  · refine Disk.locate_mono hdenied fun q hq => ?_
    rw [Disk.get?_put _ _ _ hroot, if_neg, hq]
    rintro rfl
    rw [hfree] at hq
    cases hq

/-- A file that goes through a free place is written where its path leads. -/
theorem complete_eq_ok {refusals : Refusals} {d d' : Disk} {source : Place} {target : Path}
    {payload : List UInt8} (hfree : d.get? source = none)
    (h : complete refusals d source target payload = (d', .ok ())) :
    ∃ place, d.locate target = .ok place ∧ Writes d d' place payload := by
  have hroot := Disk.ne_root_of_get?_none hfree
  rw [complete] at h
  split at h
  · cases h
  split at h
  · cases h
  split at h
  · cases h
  dsimp only at h
  split at h
  · cases h
  rename_i made hrename
  cases h
  rw [Disk.put_put] at hrename
  obtain ⟨place, entry, hlocate, hplace, hsource, rfl⟩ := rename_eq_ok.mp hrename
  rw [Disk.get?_put _ _ _ hroot, if_pos rfl] at hsource
  cases hsource
  have hplaceRoot : place ≠ [] := by
    rintro rfl
    exact hplace rfl
  rw [Disk.get?_put _ _ _ hroot] at hplace
  refine ⟨place, (locate_put hfree).mp hlocate, rfl, ?_, ?_, ?_⟩
  · rw [Disk.get?_put _ _ _ hplaceRoot, if_pos rfl]
  · intro q hq
    rw [Disk.get?_put _ _ _ hplaceRoot, if_neg hq]
    by_cases hqroot : q = []
    · rw [hqroot, Disk.get?_root, Disk.get?_root]
    · rw [Disk.get?_remove _ _ hqroot, Disk.get?_put _ _ _ hroot]
      split
      case isTrue hqsource => rw [hqsource, hfree]
      case isFalse => rfl
  · intro hdirectory
    rw [hdirectory] at hplace
    split at hplace
    case isTrue hsource =>
      rw [hsource, hfree] at hdirectory
      cases hdirectory
    case isFalse => exact hplace rfl

/-- Nothing but a directory in its place stops a file that is not refused. -/
theorem exists_complete {d : Disk} {source place : Place} {target : Path} (payload : List UInt8)
    (hfree : d.get? source = none) (hlocate : d.locate target = .ok place)
    (hplace : d.get? place ≠ some .directory) :
    ∃ d', complete noRefusals d source target payload = (d', .ok ()) := by
  have hroot := Disk.ne_root_of_get?_none hfree
  have hfilled : (d.put source (.file privateMode payload)).get? place ≠ some .directory := by
    rw [Disk.get?_put _ _ _ hroot]
    split
    · nofun
    · exact hplace
  have hsource : (d.put source (.file privateMode payload)).get? source
      = some (.file privateMode payload) := by
    rw [Disk.get?_put _ _ _ hroot, if_pos rfl]
  have hrename := rename_eq_ok.mpr
    ⟨place, _, (locate_put hfree).mpr hlocate, hfilled, hsource, rfl⟩
  exact ⟨_, by simp only [complete, noRefusals, Disk.put_put, hrename]; rfl⟩

/-- Storing makes the directories of the target and writes the file there. -/
theorem store_eq_ok {refusals : Refusals} {d d' : Disk} {target : Path} {payload : List UInt8}
    (h : store refusals d target payload = (d', .ok ())) :
    ∃ between place, d.makeDirectories target.parent = (between, .ok ()) ∧
      between.locate target = .ok place ∧ Writes between d' place payload := by
  rw [store] at h
  split at h
  · cases h
  split at h
  · cases h
  rename_i between hbetween
  split at h
  · cases h
  · cases h
  · split at h
    · cases h
    · obtain ⟨place, hlocate, hwrites⟩ := complete_eq_ok (get?_freshPlace between _) h
      exact ⟨between, place, hbetween, hlocate, hwrites⟩

/-- A step that is refused is not passed. -/
theorem refusals_of_store {refusals : Refusals} {d d' : Disk} {target : Path} {payload : List UInt8}
    (h : store refusals d target payload = (d', .ok ())) (step : StoringStep) :
    refusals step = none := by
  rw [store] at h
  split at h
  · cases h
  split at h
  · cases h
  split at h
  · cases h
  · cases h
  split at h
  · cases h
  rw [complete] at h
  split at h
  · cases h
  split at h
  · cases h
  split at h
  · cases h
  cases step <;> assumption

/-- Storing succeeds exactly where no step is refused, the directories can be made and the target
leads to a place that is not that of a directory. -/
theorem store_isOk_iff {refusals : Refusals} {d : Disk} {target : Path} {payload : List UInt8} :
    (∃ d', store refusals d target payload = (d', .ok ())) ↔
      (∀ step, refusals step = none) ∧
        ∃ between place, d.makeDirectories target.parent = (between, .ok ()) ∧
          between.locate target = .ok place ∧ between.get? place ≠ some .directory := by
  constructor
  · rintro ⟨d', h⟩
    obtain ⟨between, place, hbetween, hlocate, hwrites⟩ := store_eq_ok h
    exact ⟨refusals_of_store h, between, place, hbetween, hlocate, hwrites.noDirectory⟩
  · rintro ⟨hrefusals, between, place, hbetween, hlocate, hplace⟩
    obtain rfl : refusals = noRefusals := funext hrefusals
    obtain ⟨directory, hparent, hdirectory⟩ := (Disk.makeDirectories_eq_ok hbetween).2.1
    have hopen : directory ∉ between.denied := by
      refine Disk.searchable_parent hlocate hparent fun hnames => ?_
      rw [Disk.locate_eq_ok, hnames] at hlocate
      cases hlocate.2
      exact hplace rfl
    obtain ⟨d', hcomplete⟩ := exists_complete payload (get?_freshPlace between directory) hlocate hplace
    refine ⟨d', ?_⟩
    simpa [store, noRefusals, hbetween, hparent, hopen] using hcomplete

theorem sameFiles_remove_put {d : Disk} {source : Place} (hfree : d.get? source = none)
    (entry : Entry) : d.SameFiles ((d.put source entry).remove source) := by
  refine .of_get? rfl fun q => ?_
  by_cases hq : q = []
  · rw [hq, Disk.get?_root, Disk.get?_root]
  · rw [Disk.get?_remove _ _ hq, Disk.get?_put _ _ _ (Disk.ne_root_of_get?_none hfree)]
    split
    case isTrue hsource => rw [hsource, hfree]
    case isFalse => rfl

/-- A step that fails takes the new file away again. -/
theorem complete_eq_error {refusals : Refusals} {d d' : Disk} {source : Place} {target : Path}
    {payload : List UInt8} {errno : Errno} (hfree : d.get? source = none)
    (h : complete refusals d source target payload = (d', .error errno)) : d.SameFiles d' := by
  have hgone := sameFiles_remove_put hfree (.file privateMode [])
  rw [complete] at h
  split at h
  · cases h
    exact hgone
  split at h
  · cases h
    exact hgone
  split at h
  · cases h
    exact hgone
  dsimp only at h
  split at h
  · cases h
    exact hgone
  · cases h

/-- Where storing fails all files are as they were. -/
theorem store_eq_error {refusals : Refusals} {d d' : Disk} {target : Path} {payload : List UInt8}
    {errno : Errno} (h : store refusals d target payload = (d', .error errno)) :
    d.SameFiles d' := by
  rw [store] at h
  split at h
  · cases h
    exact .refl d
  have hmade := d.sameFiles_makeDirectories target.parent
  split at h
  · rename_i hfailed
    cases h
    rwa [hfailed] at hmade
  · rename_i between hbetween
    rw [hbetween] at hmade
    split at h
    · cases h
      exact hmade
    · cases h
      exact hmade
    · split at h
      · cases h
        exact hmade
      · exact hmade.trans (complete_eq_error (get?_freshPlace between _) h)

/-- Where the directory is there already, storing changes the file alone. -/
theorem store_of_hasDirectory {refusals : Refusals} {d d' : Disk} {target : Path}
    {payload : List UInt8} (hdirectory : d.HasDirectory target.parent)
    (h : store refusals d target payload = (d', .ok ())) :
    ∃ place, d.locate target = .ok place ∧ Writes d d' place payload := by
  obtain ⟨between, place, hbetween, hlocate, hwrites⟩ := store_eq_ok h
  rw [Disk.makeDirectories_of_hasDirectory hdirectory] at hbetween
  cases hbetween
  exact ⟨place, hlocate, hwrites⟩

end ContextConfig.Storing
