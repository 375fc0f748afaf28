import ContextConfig.Disk
import ContextConfig.Proofs.Path
import Mathlib.Data.List.Induction
/-!
# Following paths in changing trees

A path is followed through directories alone, so what changes at other places does not matter to
it. Making directories only adds some: what was there stays, and without a `..` on the way the new
ones are exactly those above the last.
-/

namespace ContextConfig

theorem Path.size_child {name : String} (hname : IsName name) (base : Path) :
    (base.child name).size = base.size + (nameSize name + 1) := by
  rw [size, size, names_child hname, root_child hname, List.foldl_append]
  rfl

namespace Disk

section Entries

variable (d : Disk) (place : Place) (entry : Entry)

@[simp] theorem get?_root : d.get? [] = some .directory := rfl

theorem get?_of_ne_root {q : Place} (hq : q ≠ []) :
    d.get? q = (d.entries.find? (·.1 = q)).map Prod.snd := by
  rw [get?, if_neg hq]

theorem get?_remove {q : Place} (hq : q ≠ []) :
    (d.remove place).get? q = if q = place then none else d.get? q := by
  rw [get?_of_ne_root _ hq, get?_of_ne_root _ hq]
  split
  case isTrue h =>
    subst h
    simp [remove]
  case isFalse h =>
    congr 1
    simp only [remove, List.find?_filter]
    congr 1
    funext e
    by_cases he : e.1 = q
    · simp [he, h]
    · simp [he]

theorem get?_put {q : Place} (hplace : place ≠ []) :
    (d.put place entry).get? q = if q = place then some entry else d.get? q := by
  by_cases hq : q = []
  · subst hq
    simp [Ne.symm hplace]
  · split
    case isTrue h =>
      subst h
      simp [get?, put, hq]
    case isFalse h =>
      have hremove := d.get?_remove place hq
      rw [if_neg h, get?_of_ne_root _ hq] at hremove
      rw [get?_of_ne_root _ hq, put, List.find?_cons_of_neg (by simpa using Ne.symm h)]
      exact hremove

theorem put_put (entry' : Entry) : (d.put place entry).put place entry' = d.put place entry' := by
  simp [put, remove, List.filter_filter]

end Entries

section Follow

variable {d d' : Disk}

theorem refusal_eq_none {place : Place} {name : String} :
    d.refusal place name = none ↔
      d.get? place = some .directory ∧ place ∉ d.denied ∧ nameSize name ≤ maxNameSize := by
  rw [refusal]
  split
  · rename_i h
    simp [h]
  · rename_i h
    simp [h]
  · rename_i h
    by_cases hdenied : place ∈ d.denied
    · simp [hdenied]
    · simp [h, hdenied]

theorem follow_cons_eq_ok {place q : Place} {name : String} {rest : List String} :
    d.follow place (name :: rest) = .ok q ↔
      d.refusal place name = none ∧
        d.follow (if name = ".." then place.dropLast else place ++ [name]) rest = .ok q := by
  rw [follow]
  split
  · rename_i h
    simp [h]
  · rename_i h
    rw [h]
    split <;> simp

theorem follow_append_eq_ok {place q : Place} {names rest : List String} :
    d.follow place (names ++ rest) = .ok q ↔
      ∃ middle, d.follow place names = .ok middle ∧ d.follow middle rest = .ok q := by
  induction names generalizing place with
  | nil => simp [follow]
  | cons name names ih =>
    rw [List.cons_append, follow_cons_eq_ok]
    simp only [follow_cons_eq_ok, ih]
    constructor
    · rintro ⟨hplace, middle, hnames, hrest⟩
      exact ⟨middle, ⟨hplace, hnames⟩, hrest⟩
    · rintro ⟨middle, ⟨hplace, hnames⟩, hrest⟩
      exact ⟨hplace, middle, hnames, hrest⟩

theorem locate_eq_ok {p : Path} {q : Place} :
    d.locate p = .ok q ↔ p.size ≤ maxPathSize ∧ d.follow [] p.names = .ok q := by
  rw [locate]
  split
  · simp; omega
  · simp; omega

/-- A directory that stays can be searched as before. -/
theorem refusal_mono (hdenied : d'.denied = d.denied)
    (h : ∀ place, d.get? place = some .directory → d'.get? place = some .directory)
    {place : Place} {name : String} (hrefusal : d.refusal place name = none) :
    d'.refusal place name = none := by
  rw [refusal_eq_none] at hrefusal ⊢
  obtain ⟨hplace, hopen, hsize⟩ := hrefusal
  exact ⟨h place hplace, by rwa [hdenied], hsize⟩

/-- A path that is followed through directories that stay leads to the same place. -/
theorem follow_mono (hdenied : d'.denied = d.denied)
    (h : ∀ place, d.get? place = some .directory → d'.get? place = some .directory)
    {place q : Place} {names : List String} (hfollow : d.follow place names = .ok q) :
    d'.follow place names = .ok q := by
  induction names generalizing place with
  | nil => exact hfollow
  | cons name names ih =>
    rw [follow_cons_eq_ok] at hfollow ⊢
    exact ⟨refusal_mono hdenied h hfollow.1, ih hfollow.2⟩

theorem locate_mono (hdenied : d'.denied = d.denied)
    (h : ∀ place, d.get? place = some .directory → d'.get? place = some .directory)
    {p : Path} {q : Place} (hlocate : d.locate p = .ok q) : d'.locate p = .ok q := by
  rw [locate_eq_ok] at hlocate ⊢
  exact ⟨hlocate.1, follow_mono hdenied h hlocate.2⟩

/-- Without a `..` a path leads to the place of its names. -/
theorem eq_of_follow {place q : Place} {names : List String} (hnames : ".." ∉ names)
    (hfollow : d.follow place names = .ok q) : q = place ++ names := by
  induction names generalizing place with
  | nil =>
    rw [List.append_nil]
    cases hfollow
    rfl
  | cons name names ih =>
    rw [List.mem_cons, not_or] at hnames
    rw [follow_cons_eq_ok, if_neg (Ne.symm hnames.1)] at hfollow
    rw [ih hnames.2 hfollow.2, List.append_assoc, List.singleton_append]

theorem eq_of_locate {p : Path} {q : Place} (hnames : ".." ∉ p.names) (hlocate : d.locate p = .ok q) :
    q = p.names :=
  eq_of_follow hnames (locate_eq_ok.mp hlocate).2

/-- The way to a child leads through its directory. -/
theorem locate_child {p : Path} {name : String} (hname : IsName name) (hdots : name ≠ "..")
    {q : Place} : d.locate (p.child name) = .ok q ↔
      (p.child name).size ≤ maxPathSize ∧ ∃ directory, d.locate p = .ok directory ∧
        d.refusal directory name = none ∧ q = directory ++ [name] := by
  have hsize := Path.size_child hname p
  rw [locate_eq_ok, Path.names_child hname, follow_append_eq_ok]
  constructor
  · rintro ⟨hfits, directory, hdirectory, hrest⟩
    rw [follow_cons_eq_ok, if_neg hdots] at hrest
    obtain ⟨hopen, hq⟩ := hrest
    cases hq
    exact ⟨hfits, directory, locate_eq_ok.mpr ⟨by omega, hdirectory⟩, hopen, rfl⟩
  · rintro ⟨hfits, directory, hdirectory, hopen, rfl⟩
    refine ⟨hfits, directory, (locate_eq_ok.mp hdirectory).2, ?_⟩
    rw [follow_cons_eq_ok, if_neg hdots]
    exact ⟨hopen, rfl⟩

/-- The directory of a path that leads somewhere can be searched. -/
theorem searchable_parent {p : Path} {place directory : Place} (hlocate : d.locate p = .ok place)
    (hparent : d.locate p.parent = .ok directory) (hnames : p.names ≠ []) : directory ∉ d.denied := by
  obtain ⟨name, hsplit⟩ : ∃ name, p.names = p.parent.names ++ [name] :=
    ⟨_, (List.dropLast_concat_getLast hnames).symm⟩
  obtain ⟨-, hfollow⟩ := locate_eq_ok.mp hlocate
  rw [hsplit, follow_append_eq_ok] at hfollow
  obtain ⟨middle, hmiddle, hlast⟩ := hfollow
  obtain rfl : middle = directory := by
    have hboth := hmiddle.symm.trans (locate_eq_ok.mp hparent).2
    exact Except.ok.inj hboth
  exact (refusal_eq_none.mp (follow_cons_eq_ok.mp hlast).1).2.1

end Follow

section Files

variable {d : Disk} {p : Path} {place : Place}

/-- The bytes of the file at a place. -/
def readAt (d : Disk) (place : Place) : Except Errno (List UInt8) :=
  match d.get? place with
  | none => .error .noEntry
  | some .directory => .error .isADirectory
  | some (.file _ content) => if d.denied.contains place then .error .denied else .ok content

/-- Whether there is a file at a place. -/
def isFileAt (d : Disk) (place : Place) : Bool :=
  match d.get? place with
  | some (.file ..) => true
  | _ => false

theorem read_of_locate (h : d.locate p = .ok place) : d.read p = d.readAt place := by
  rw [read, stat, readAt]
  rw [h]
  cases hget : d.get? place with
  | none => simp [hget, bind, Except.bind, throw, throwThe, MonadExceptOf.throw]
  | some entry =>
    cases entry <;>
      simp [hget, bind, Except.bind, pure, Except.pure, throw, throwThe, MonadExceptOf.throw]

theorem checkFile_of_locate (h : d.locate p = .ok place) : d.checkFile p = .ok (d.isFileAt place) := by
  rw [checkFile, stat, isFileAt]
  rw [h]
  cases hget : d.get? place with
  | none => simp [hget, bind, Except.bind, throw, throwThe, MonadExceptOf.throw, Errno.isAbsence]
  | some entry => cases entry <;> simp [hget, bind, Except.bind, pure, Except.pure]

theorem checkFile_of_locate_error {errno : Errno} (h : d.locate p = .error errno) :
    d.checkFile p = if errno.isAbsence then .ok false else .error errno := by
  rw [checkFile, stat]
  rw [h]
  rfl

theorem isFile_of_locate (h : d.locate p = .ok place) : d.isFile p = d.isFileAt place := by
  rw [isFile, checkFile_of_locate h]
  cases d.isFileAt place <;> rfl

theorem isFile_of_locate_error {errno : Errno} (h : d.locate p = .error errno) :
    d.isFile p = false := by
  rw [isFile, checkFile_of_locate_error h]
  cases errno.isAbsence <;> rfl

theorem read_eq_ok {payload : List UInt8} :
    d.read p = .ok payload ↔ ∃ place, d.locate p = .ok place ∧ d.readAt place = .ok payload := by
  cases h : d.locate p with
  | error errno => simp [read, stat, h, bind, Except.bind]
  | ok place => simp [read_of_locate h]

end Files

section SameDirectories

variable {d d' : Disk} (hdenied : d'.denied = d.denied)
  (hdirectories : ∀ place, d'.get? place = some .directory ↔ d.get? place = some .directory)

include hdenied hdirectories

/-- Where a name cannot be looked up in one tree, it cannot be in another one with the same
directories, and it is missing in both or in none. -/
theorem refusal_congr {place : Place} {name : String} {errno : Errno}
    (h : d.refusal place name = some errno) : ∃ errno', d'.refusal place name = some errno' ∧
      (errno' = errno ∨ errno'.isAbsence = true ∧ errno.isAbsence = true) := by
  have hplace := hdirectories place
  rw [refusal] at h ⊢
  cases hget : d.get? place with
  | some entry =>
    cases entry with
    | directory =>
      rw [hget] at h
      rw [hplace.mpr hget, hdenied]
      exact ⟨errno, h, .inl rfl⟩
    | file mode content =>
      rw [hget] at h hplace
      cases h
      cases hget' : d'.get? place with
      | none => exact ⟨_, rfl, .inr ⟨rfl, rfl⟩⟩
      | some entry' =>
        cases entry' with
        | directory => cases hplace.mp hget'
        | file => exact ⟨_, rfl, .inl rfl⟩
  | none =>
    rw [hget] at h hplace
    cases h
    cases hget' : d'.get? place with
    | none => exact ⟨_, rfl, .inl rfl⟩
    | some entry' =>
      cases entry' with
      | directory => cases hplace.mp hget'
      | file => exact ⟨_, rfl, .inr ⟨rfl, rfl⟩⟩

theorem follow_error {place : Place} {names : List String} {errno : Errno}
    (h : d.follow place names = .error errno) : ∃ errno', d'.follow place names = .error errno' ∧
      (errno' = errno ∨ errno'.isAbsence = true ∧ errno.isAbsence = true) := by
  induction names generalizing place with
  | nil => cases h
  | cons name names ih =>
    rw [follow] at h ⊢
    cases hrefusal : d.refusal place name with
    | some refused =>
      rw [hrefusal] at h
      cases h
      obtain ⟨errno', hrefusal', hsame⟩ := refusal_congr hdenied hdirectories hrefusal
      rw [hrefusal']
      exact ⟨errno', rfl, hsame⟩
    | none =>
      rw [hrefusal] at h
      rw [refusal_mono hdenied (fun place => (hdirectories place).mpr) hrefusal]
      dsimp only at h ⊢
      split at h
      case isTrue hdots =>
        rw [if_pos hdots]
        exact ih h
      case isFalse hdots =>
        rw [if_neg hdots]
        exact ih h

/-- Whether there is a file at the end of a path that leads nowhere is answered alike. -/
theorem checkFile_congr {p : Path} {errno : Errno} (h : d.locate p = .error errno) :
    d'.checkFile p = d.checkFile p := by
  have hlocate : ∃ errno', d'.locate p = .error errno' ∧
      (errno' = errno ∨ errno'.isAbsence = true ∧ errno.isAbsence = true) := by
    rw [locate] at h ⊢
    split at h
    case isTrue hlong =>
      rw [if_pos hlong]
      exact ⟨errno, h, .inl rfl⟩
    case isFalse hlong =>
      rw [if_neg hlong]
      exact follow_error hdenied hdirectories h
  obtain ⟨errno', h', rfl | ⟨habsence', habsence⟩⟩ := hlocate
  · rw [checkFile_of_locate_error h, checkFile_of_locate_error h']
  · rw [checkFile_of_locate_error h, checkFile_of_locate_error h', habsence, habsence']
    rfl

end SameDirectories

/-- Nothing is lost from one tree to the other, and what can be read does not change. -/
structure Grows (d d' : Disk) : Prop where
  denied : d'.denied = d.denied
  kept : ∀ place entry, d.get? place = some entry → d'.get? place = some entry

namespace Grows

variable {d d' d'' : Disk}

theorem refl (d : Disk) : d.Grows d := ⟨rfl, fun _ _ h => h⟩

theorem trans (h : d.Grows d') (h' : d'.Grows d'') : d.Grows d'' :=
  ⟨h'.denied.trans h.denied, fun place entry hentry => h'.kept place entry (h.kept place entry hentry)⟩

theorem locate (h : d.Grows d') {p : Path} {q : Place} (hlocate : d.locate p = .ok q) :
    d'.locate p = .ok q :=
  locate_mono h.denied (fun place => h.kept place .directory) hlocate

end Grows

/-- Whether a path leads to a directory. -/
def HasDirectory (d : Disk) (p : Path) : Prop :=
  ∃ place, d.locate p = .ok place ∧ d.get? place = some .directory

section MakeDirectories

variable {d d' : Disk} {p : Path}

instance : Decidable (d.HasDirectory p) :=
  decidable_of_iff (∃ place ∈ (d.locate p).toOption, d.get? place = some .directory) (by
    rw [HasDirectory]
    cases d.locate p <;> simp [Except.toOption])

theorem hasDirectory_iff : d.HasDirectory p ↔ ∃ place, d.stat p = .ok (place, .directory) := by
  rw [HasDirectory, stat]
  cases hlocate : d.locate p with
  | error errno => simp [bind, Except.bind]
  | ok place =>
    cases hget : d.get? place with
    | none => simp [bind, Except.bind, hget, throw, throwThe, MonadExceptOf.throw]
    | some entry => simp [bind, Except.bind, hget, pure, Except.pure]

theorem makeDirectory_eq_ok :
    d.makeDirectory p = .ok d' ↔
      ∃ place, d.locate p = .ok place ∧ d.get? place = none ∧ d' = d.put place .directory := by
  rw [makeDirectory]
  cases hlocate : d.locate p with
  | error errno => simp [bind, Except.bind]
  | ok place =>
    cases hget : d.get? place with
    | none => simp [bind, Except.bind, hget, pure, Except.pure, eq_comm]
    | some entry => simp [bind, Except.bind, hget, throw, throwThe, MonadExceptOf.throw]

theorem ne_root_of_get?_none {place : Place} (h : d.get? place = none) : place ≠ [] := by
  rintro rfl
  cases h

/-- One new directory. -/
theorem grows_makeDirectory (h : d.makeDirectory p = .ok d') : d.Grows d' ∧ d'.HasDirectory p := by
  obtain ⟨place, hlocate, hnone, rfl⟩ := makeDirectory_eq_ok.mp h
  have hroot := ne_root_of_get?_none hnone
  have hgrows : d.Grows (d.put place .directory) := by
    refine ⟨rfl, fun q entry hq => ?_⟩
    rw [get?_put d place .directory hroot, if_neg, hq]
    rintro rfl
    rw [hnone] at hq
    cases hq
  refine ⟨hgrows, place, hgrows.locate hlocate, ?_⟩
  rw [get?_put d place .directory hroot, if_pos rfl]

theorem settle_eq_ok {result : Except Errno Disk}
    (h : makeDirectories.settle d p result = (d', .ok ())) :
    result = .ok d' ∨ d' = d ∧ d.HasDirectory p := by
  cases result with
  | ok made =>
    cases h
    exact .inl rfl
  | error errno =>
    rw [makeDirectories.settle] at h
    split at h
    · rename_i place hstat
      cases h
      exact .inr ⟨rfl, hasDirectory_iff.mpr ⟨place, hstat⟩⟩
    · cases h

/-- Every place that is not above a path, or at it, is as it was. -/
def ChangedAlong (d d' : Disk) (p : Path) : Prop :=
  ∀ q, ¬ q <+: p.names → d'.get? q = d.get? q

theorem changedAlong_makeDirectory (hnames : ".." ∉ p.names) (h : d.makeDirectory p = .ok d') :
    d.ChangedAlong d' p := by
  obtain ⟨place, hlocate, hnone, rfl⟩ := makeDirectory_eq_ok.mp h
  obtain rfl : place = p.names := eq_of_locate hnames hlocate
  intro q hq
  rw [get?_put d _ .directory (ne_root_of_get?_none hnone), if_neg]
  rintro rfl
  exact hq (List.prefix_refl _)

theorem makeDirectory_makes (h : d.makeDirectory p = .ok d') :
    d.Grows d' ∧ d'.HasDirectory p ∧ (".." ∉ p.names → d.ChangedAlong d' p) := by
  obtain ⟨hgrows, hdirectory⟩ := grows_makeDirectory h
  exact ⟨hgrows, hdirectory, fun hnames => changedAlong_makeDirectory hnames h⟩

/-- Making directories makes the last one, and loses nothing. -/
theorem go_eq_ok {fuel : Nat} (h : makeDirectories.go fuel d p = (d', .ok ())) :
    d.Grows d' ∧ d'.HasDirectory p ∧ (".." ∉ p.names → d.ChangedAlong d' p) := by
  induction fuel generalizing d d' p with
  | zero =>
    rw [makeDirectories.go] at h
    split at h
    · rename_i made hmade
      cases h
      exact makeDirectory_makes hmade
    · cases h
    · obtain hresult | ⟨rfl, hdirectory⟩ := settle_eq_ok h
      · cases hresult
      · exact ⟨.refl _, hdirectory, fun _ _ _ => rfl⟩
  | succ fuel ih =>
    rw [makeDirectories.go] at h
    split at h
    · rename_i made hmade
      cases h
      exact makeDirectory_makes hmade
    · split at h
      · cases h
      · rename_i above habove
        obtain ⟨hgrows, -, hchanged⟩ := ih habove
        have hparent : ".." ∉ p.names → d.ChangedAlong above p := by
          intro hnames q hq
          apply hchanged (fun hmem => hnames (List.dropLast_subset _ hmem)) q
          intro hmem
          exact hq (hmem.trans (List.dropLast_prefix _))
        obtain hmade | ⟨rfl, hdirectory⟩ := settle_eq_ok h
        · obtain ⟨hgrows', hdirectory, hchanged'⟩ := makeDirectory_makes hmade
          refine ⟨hgrows.trans hgrows', hdirectory, fun hnames q hq => ?_⟩
          rw [hchanged' hnames q hq, hparent hnames q hq]
        · exact ⟨hgrows, hdirectory, hparent⟩
    · obtain hresult | ⟨rfl, hdirectory⟩ := settle_eq_ok h
      · cases hresult
      · exact ⟨.refl _, hdirectory, fun _ _ _ => rfl⟩

theorem makeDirectories_eq_ok (h : d.makeDirectories p = (d', .ok ())) :
    d.Grows d' ∧ d'.HasDirectory p ∧ (".." ∉ p.names → d.ChangedAlong d' p) :=
  go_eq_ok h

/-- Nothing is made where there is a directory already. -/
theorem makeDirectories_of_hasDirectory (h : d.HasDirectory p) :
    d.makeDirectories p = (d, .ok ()) := by
  obtain ⟨place, hlocate, hdirectory⟩ := h
  obtain ⟨_, hstat⟩ := hasDirectory_iff.mp ⟨place, hlocate, hdirectory⟩
  have hmake : d.makeDirectory p = .error .fileExists := by
    simp [makeDirectory, hlocate, hdirectory, bind, Except.bind, throw, throwThe, MonadExceptOf.throw]
  rw [makeDirectories]
  cases p.names.length <;> simp [makeDirectories.go, makeDirectories.settle, hmake, hstat]

theorem hasDirectory_of_locate_child {name : String} (hname : IsName name) (hdots : name ≠ "..")
    {q : Place} (h : d.locate (p.child name) = .ok q) : d.HasDirectory p := by
  obtain ⟨-, directory, hlocate, hopen, -⟩ := (locate_child hname hdots).mp h
  exact ⟨directory, hlocate, (refusal_eq_none.mp hopen).1⟩

/-- The same files in both trees: nothing is lost, and what is new are directories. -/
structure SameFiles (d d' : Disk) : Prop extends d.Grows d' where
  noFile : ∀ place mode content, d'.get? place = some (.file mode content) →
    d.get? place = some (.file mode content)

namespace SameFiles

variable {d'' : Disk}

theorem refl (d : Disk) : d.SameFiles d := ⟨.refl d, fun _ _ _ h => h⟩

theorem trans (h : d.SameFiles d') (h' : d'.SameFiles d'') : d.SameFiles d'' :=
  ⟨h.toGrows.trans h'.toGrows, fun place mode content hfile =>
    h.noFile place mode content (h'.noFile place mode content hfile)⟩

theorem of_get? (hdenied : d'.denied = d.denied) (hget : ∀ place, d'.get? place = d.get? place) :
    d.SameFiles d' := by
  refine ⟨⟨hdenied, fun place entry h => ?_⟩, fun place mode content h => ?_⟩
  · rw [hget, h]
  · rw [← hget, h]

end SameFiles

theorem sameFiles_makeDirectory (h : d.makeDirectory p = .ok d') : d.SameFiles d' := by
  refine ⟨(grows_makeDirectory h).1, fun q mode content hq => ?_⟩
  obtain ⟨place, -, hnone, rfl⟩ := makeDirectory_eq_ok.mp h
  rw [get?_put d place .directory (ne_root_of_get?_none hnone)] at hq
  split at hq
  · cases hq
  · exact hq

theorem sameFiles_settle {result : Except Errno Disk} (h : ∀ made, result = .ok made → d.SameFiles made) :
    d.SameFiles (makeDirectories.settle d p result).1 := by
  cases result with
  | ok made => exact h made rfl
  | error errno =>
    rw [makeDirectories.settle]
    split <;> exact .refl d

/-- Making directories makes no files, also where it fails. -/
theorem sameFiles_go (fuel : Nat) : d.SameFiles (makeDirectories.go fuel d p).1 := by
  induction fuel generalizing d p with
  | zero =>
    rw [makeDirectories.go]
    split
    · exact sameFiles_makeDirectory ‹_›
    · exact .refl d
    · exact sameFiles_settle nofun
  | succ fuel ih =>
    rw [makeDirectories.go]
    split
    · exact sameFiles_makeDirectory ‹_›
    · have habove := ih (d := d) (p := p.parent)
      split
      · rename_i hfailed
        rwa [hfailed] at habove
      · rename_i above hmade
        rw [hmade] at habove
        exact habove.trans (sameFiles_settle fun made => sameFiles_makeDirectory)
    · exact sameFiles_settle nofun

theorem sameFiles_makeDirectories (d : Disk) (p : Path) : d.SameFiles (d.makeDirectories p).1 :=
  sameFiles_go _

end MakeDirectories

/-- What lies at a place lies in a directory. -/
def IsTree (d : Disk) : Prop :=
  ∀ place name, d.get? (place ++ [name]) ≠ none → d.get? place = some .directory

theorem isTree_iff {d : Disk} :
    d.IsTree ↔ ∀ entry ∈ d.entries, entry.1 ≠ [] → d.get? entry.1.dropLast = some .directory := by
  have hmem : ∀ place name, d.get? (place ++ [name]) ≠ none ↔
      ∃ entry ∈ d.entries, entry.1 = place ++ [name] := by
    intro place name
    rw [get?_of_ne_root d (by simp), ne_eq, Option.map_eq_none_iff, List.find?_eq_none]
    simp
  constructor
  · intro h entry hentry hne
    obtain ⟨place, name, hplace⟩ : ∃ place name, entry.1 = place ++ [name] :=
      ⟨_, _, (List.dropLast_concat_getLast hne).symm⟩
    rw [hplace, List.dropLast_concat]
    exact h place name ((hmem place name).mpr ⟨entry, hentry, hplace⟩)
  · intro h place name hentry
    obtain ⟨entry, hentry, hplace⟩ := (hmem place name).mp hentry
    have hdirectory := h entry hentry (by simp [hplace])
    rwa [hplace, List.dropLast_concat] at hdirectory

instance (d : Disk) : Decidable d.IsTree := decidable_of_iff _ isTree_iff.symm

/-- In a tree the way to an entry leads through directories. They can be searched if they can be in
another tree. -/
theorem IsTree.follow {d d' : Disk} (h : d.IsTree) (hdenied : d'.denied = d.denied)
    {names : List String} (hnames : ".." ∉ names) (hentry : d.get? names ≠ none)
    (hfollow : d'.follow [] names = .ok names) : d.follow [] names = .ok names := by
  induction names using List.reverseRecOn with
  | nil => rfl
  | append_singleton names name ih =>
    rw [List.mem_append, List.mem_singleton, not_or] at hnames
    have hdirectory := h names name hentry
    obtain ⟨middle, hmiddle, hlast⟩ := follow_append_eq_ok.mp hfollow
    obtain rfl : middle = names := eq_of_follow hnames.1 hmiddle
    have hbefore := ih hnames.1 (by rw [hdirectory]; exact Option.some_ne_none _) hmiddle
    obtain ⟨-, hopen, hsize⟩ := refusal_eq_none.mp (follow_cons_eq_ok.mp hlast).1
    refine follow_append_eq_ok.mpr ⟨middle, hbefore, ?_⟩
    rw [follow_cons_eq_ok, refusal_eq_none, if_neg (Ne.symm hnames.2)]
    exact ⟨⟨hdirectory, hdenied ▸ hopen, hsize⟩, rfl⟩

end Disk
end ContextConfig
