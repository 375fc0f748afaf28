import ContextConfig.Search
/-!
# What a search finds

A search goes through the candidate files of its directories as through one list. It stops at the
first file that decodes or asks for a value that does not exist; `locate_value` says so for every
world. Where every format accepts or rejects what it is given, the first file that decodes is the
answer, and without one the answer tells missing files from files that cannot be used.
-/

namespace ContextConfig

/-- The files that a search tries, in its order. -/
def candidates (roots : List Path) : List Path := roots.flatMap candidatePaths

instance decidableEqExcept {ε α : Type} [DecidableEq ε] [DecidableEq α] : DecidableEq (Except ε α)
  | .ok a, .ok b => decidable_of_iff (a = b) (by rw [Except.ok.injEq])
  | .error a, .error b => decidable_of_iff (a = b) (by rw [Except.error.injEq])
  | .ok _, .error _ => .isFalse nofun
  | .error _, .ok _ => .isFalse nofun

namespace BrokenFiles

def none : BrokenFiles := ⟨[], []⟩

instance : Append BrokenFiles :=
  ⟨fun a b => ⟨a.invalid ++ b.invalid, a.unreadable ++ b.unreadable⟩⟩

@[simp] theorem invalid_append (a b : BrokenFiles) : (a ++ b).invalid = a.invalid ++ b.invalid := rfl

@[simp] theorem unreadable_append (a b : BrokenFiles) :
    (a ++ b).unreadable = a.unreadable ++ b.unreadable := rfl

theorem ext {a b : BrokenFiles} (hinvalid : a.invalid = b.invalid)
    (hunreadable : a.unreadable = b.unreadable) : a = b := by
  cases a
  cases b
  cases hinvalid
  cases hunreadable
  rfl

theorem append_none (a : BrokenFiles) : a ++ none = a :=
  ext (List.append_nil _) (List.append_nil _)

theorem append_assoc (a b c : BrokenFiles) : a ++ b ++ c = a ++ (b ++ c) :=
  ext (List.append_assoc ..) (List.append_assoc ..)

theorem append_eq_none {a b : BrokenFiles} : a ++ b = none ↔ a = none ∧ b = none := by
  obtain ⟨invalid, unreadable⟩ := a
  obtain ⟨invalid', unreadable'⟩ := b
  change mk (invalid ++ invalid') (unreadable ++ unreadable') = mk [] [] ↔ _
  simp [none, and_and_and_comm]

end BrokenFiles

namespace World

variable {κ : Type} [Decoder κ]

section Candidates

variable (w : World) (formats : List κ)

/-- Whether a candidate ends a search. -/
def stops (p : Path) : Bool :=
  match (w.tryRead p formats).value with
  | .error (.missing _) | .error (.format _) | .error (.system ..) => false
  | _ => true

/-- Whether a candidate is read but not decoded. -/
def isInvalid (p : Path) : Bool :=
  match (w.tryRead p formats).value with
  | .error (.format _) => true
  | _ => false

/-- Whether a candidate is there but cannot be read. -/
def isUnreadable (p : Path) : Bool :=
  match (w.tryRead p formats).value with
  | .error (.system ..) => true
  | _ => false

/-- The candidates that are there but cannot be used. -/
def brokenAmong (paths : List Path) : BrokenFiles where
  invalid := (paths.filter (w.isInvalid formats)).map Path.text
  unreadable := (paths.filter (w.isUnreadable formats)).map Path.text

/-- What a search gives back for the candidate that it stops at. -/
def found (p : Path) : Except Error (Found κ) :=
  (w.tryRead p formats).value.map fun (configuration, format) => { configuration, path := p, format }

/-- What a directory without a usable file comes to. -/
def nothingIn (directory : Path) (broken : BrokenFiles) : Except Error (Found κ) :=
  if broken = .none then .error (.missing (.inDirectory directory.text))
  else .error (.format (.directory broken))

/-- What directories without a usable file come to. -/
def nothingAmong (roots : List Path) (broken : List BrokenFiles) : Except Error (Found κ) :=
  if broken = [] then .error (.missing (.anywhere (roots.map Path.text)))
  else .error (.format (.search broken))

/-- The files that cannot be used, directory by directory. -/
def brokenIn (roots : List Path) : List BrokenFiles :=
  (roots.map fun root => w.brokenAmong formats (candidatePaths root)).filter (· ≠ .none)

theorem brokenAmong_cons (p : Path) (paths : List Path) :
    w.brokenAmong formats (p :: paths) = w.brokenAmong formats [p] ++ w.brokenAmong formats paths := by
  apply BrokenFiles.ext
  · simp only [brokenAmong, List.filter_cons, BrokenFiles.invalid_append]
    split <;> simp
  · simp only [brokenAmong, List.filter_cons, BrokenFiles.unreadable_append]
    split <;> simp

theorem brokenIn_cons (root : Path) (roots : List Path) :
    w.brokenIn formats (root :: roots)
      = [w.brokenAmong formats (candidatePaths root)].filter (· ≠ .none)
        ++ w.brokenIn formats roots := by
  simp only [brokenIn, List.map_cons, List.filter_cons, List.filter_nil]
  split <;> rfl

/-- A candidate that does not end the search is added to the broken files as far as it is one. -/
theorem lookupAmong_cons (directory p : Path) (rest : List Path) (broken : BrokenFiles) :
    (w.lookupAmong directory formats broken (p :: rest)).value =
      if w.stops formats p then w.found formats p
      else (w.lookupAmong directory formats (broken ++ w.brokenAmong formats [p]) rest).value := by
  rw [lookupAmong, Logged.bind_value]
  rw [stops, found]
  cases h : (w.tryRead p formats).value with
  | ok result => rfl
  | error error =>
    cases error with
    | missing what =>
      have hp : w.brokenAmong formats [p] = .none := by
        simp [brokenAmong, isInvalid, isUnreadable, h, BrokenFiles.none]
      rw [hp, BrokenFiles.append_none]
      rfl
    | format error =>
      have hp : w.brokenAmong formats [p] = ⟨[p.text], []⟩ := by
        simp [brokenAmong, isInvalid, isUnreadable, h]
      have hbroken : broken ++ w.brokenAmong formats [p]
          = { broken with invalid := broken.invalid ++ [p.text] } := by
        rw [hp]
        exact BrokenFiles.ext rfl (List.append_nil _)
      rw [hbroken]
      rfl
    | system errno path =>
      have hp : w.brokenAmong formats [p] = ⟨[], [p.text]⟩ := by
        simp [brokenAmong, isInvalid, isUnreadable, h]
      have hbroken : broken ++ w.brokenAmong formats [p]
          = { broken with unreadable := broken.unreadable ++ [p.text] } := by
        rw [hp]
        exact BrokenFiles.ext (List.append_nil _) rfl
      rw [hbroken]
      rfl
    | invalid why => rfl
    | fault fault => rfl

/-- A directory is searched up to the first candidate that ends the search. -/
theorem lookupAmong_value (directory : Path) (paths : List Path) (broken : BrokenFiles) :
    (w.lookupAmong directory formats broken paths).value =
      match paths.find? (w.stops formats) with
      | some p => w.found formats p
      | none => nothingIn directory (broken ++ w.brokenAmong formats paths) := by
  induction paths generalizing broken with
  | nil =>
    have hnone : w.brokenAmong formats [] = .none := rfl
    rw [hnone, BrokenFiles.append_none, lookupAmong, nothingIn]
    obtain ⟨invalid, unreadable⟩ := broken
    by_cases h : invalid = [] ∧ unreadable = []
    · simp [h, BrokenFiles.none]
    · simp [h, BrokenFiles.none]
  | cons p rest ih =>
    rw [lookupAmong_cons, List.find?_cons]
    cases h : w.stops formats p with
    | true => rfl
    | false =>
      rw [if_neg Bool.false_ne_true, ih, brokenAmong_cons w formats p rest,
        BrokenFiles.append_assoc]

theorem lookup_value (directory : Path) :
    (w.lookup directory formats).value =
      match (candidatePaths directory).find? (w.stops formats) with
      | some p => w.found formats p
      | none => nothingIn directory (w.brokenAmong formats (candidatePaths directory)) := by
  rw [lookup, lookupAmong_value]
  rfl

/-- Only faults and results end a search. -/
theorem found_of_stops {p : Path} (h : w.stops formats p = true) :
    (∃ result, w.found formats p = .ok result) ∨
      (∃ fault, w.found formats p = .error (.fault fault)) ∨
      ∃ why, w.found formats p = .error (.invalid why) := by
  rw [stops] at h
  rw [found]
  cases hp : (w.tryRead p formats).value with
  | ok result => exact .inl ⟨_, rfl⟩
  | error error => 
    rw [hp] at h
    cases error with
    | missing what => cases h
    | format error => cases h
    | system errno path => cases h
    | invalid why => exact .inr (.inr ⟨why, rfl⟩)
    | fault fault => exact .inr (.inl ⟨fault, rfl⟩)

/-- All directories are searched up to the first candidate that ends the search. -/
theorem locateFrom_value (roots rest : List Path) (broken : List BrokenFiles) :
    (w.locateFrom roots formats broken rest).value =
      match (candidates rest).find? (w.stops formats) with
      | some p => w.found formats p
      | none => nothingAmong roots (broken ++ w.brokenIn formats rest) := by
  induction rest generalizing broken with
  | nil =>
    have hnone : w.brokenIn formats [] = [] := rfl
    rw [hnone, List.append_nil, locateFrom, nothingAmong]
    split <;> rfl
  | cons root rest ih =>
    have hcandidates : candidates (root :: rest) = candidatePaths root ++ candidates rest := rfl
    rw [locateFrom, Logged.bind_value, lookup_value, hcandidates, List.find?_append]
    cases h : (candidatePaths root).find? (w.stops formats) with
    | some p =>
      obtain ⟨result, hp⟩ | ⟨fault, hp⟩ | ⟨why, hp⟩ :=
        w.found_of_stops formats (List.find?_some h)
      · simp [hp]
      · simp [hp]
      · simp [hp]
    | none =>
      rw [brokenIn_cons, ← List.append_assoc]
      by_cases hnone : w.brokenAmong formats (candidatePaths root) = .none
      · simp [nothingIn, hnone, ih]
      · simp [nothingIn, hnone, ih]

/-- A search stops at the first candidate that decodes or asks for a value that does not exist. -/
theorem locate_value (roots : List Path) :
    (w.locate roots formats).value =
      match (candidates roots).find? (w.stops formats) with
      | some p => w.found formats p
      | none => nothingAmong roots (w.brokenIn formats roots) := by
  rw [locate, locateFrom_value, List.nil_append]

end Candidates

/-- Candidate files and formats in the order in which a search tries them. -/
def attempts (roots : List Path) (formats : List κ) : List (Path × κ) :=
  (candidates roots).flatMap fun p => formats.map fun format => (p, format)

/-- The configuration that a format makes of a file, if that is regular and can be read. -/
def decodes? (w : World) (p : Path) (format : κ) : Option Configuration :=
  match w.disk.read (w.absolute p) with
  | .error _ => none
  | .ok payload => (Decoder.decode format (w.absolute p).text payload).value.toOption

/-- Every format accepts the content of a file or rejects it; none asks for a value that does not
exist. -/
def Judges (w : World) (formats : List κ) (p : Path) : Prop :=
  ∀ payload, w.disk.read (w.absolute p) = .ok payload → ∀ format ∈ formats, ∀ fault,
    (Decoder.decode format (w.absolute p).text payload).value ≠ .error (.fault fault)

instance (w : World) (formats : List κ) (p : Path) : Decidable (w.Judges formats p) :=
  match hread : w.disk.read (w.absolute p) with
  | .error errno => isTrue fun payload h => by rw [hread] at h; cases h
  | .ok payload =>
    have (format : κ) : Decidable (∀ fault,
        (Decoder.decode format (w.absolute p).text payload).value ≠ .error (.fault fault)) :=
      match h : (Decoder.decode format (w.absolute p).text payload).value with
      | .error (.fault fault) => isFalse fun hnot => hnot fault rfl
      | .ok _ | .error (.json ..) | .error (.yaml _) | .error (.document ..) =>
        isTrue fun _ => nofun
    decidable_of_iff (∀ format ∈ formats, ∀ fault,
        (Decoder.decode format (w.absolute p).text payload).value ≠ .error (.fault fault))
      ⟨fun h payload' hread' => by rw [hread] at hread'; cases hread'; exact h,
        fun h => h payload hread⟩

section Reading

variable {w : World} {formats : List κ} {p : Path}

theorem absolute_absolute (w : World) (p : Path) : w.absolute (w.absolute p) = w.absolute p :=
  Path.absolute_of_isAbsolute (p.isAbsolute_absolute _) _

/-- Where the check says that there is no file, the candidate is missing. -/
theorem tryRead_of_absent (h : w.disk.checkFile (w.absolute p) = .ok false) :
    (w.tryRead p formats).value = .error (.missing (.file (w.absolute p).text)) := by
  simp [tryRead, readFile, absolute_absolute, h]

/-- A candidate that is not read is missing where the check says that there is no file; otherwise
the operating system refuses it. -/
theorem tryRead_of_error (formats : List κ) {errno : Errno}
    (h : w.disk.read (w.absolute p) = .error errno) :
    (w.disk.checkFile (w.absolute p) = .ok false ∧
      (w.tryRead p formats).value = .error (.missing (.file (w.absolute p).text))) ∨
    (w.disk.checkFile (w.absolute p) ≠ .ok false ∧ ∃ errno,
      (w.tryRead p formats).value = .error (.system errno (w.absolute p).text)) := by
  cases hcheck : w.disk.checkFile (w.absolute p) with
  | error errno' =>
    exact .inr ⟨nofun, errno', by simp [tryRead, readFile, absolute_absolute, hcheck]⟩
  | ok found =>
    cases found with
    | false => exact .inl ⟨rfl, tryRead_of_absent hcheck⟩
    | true => exact .inr ⟨nofun, errno, by simp [tryRead, readFile, absolute_absolute, hcheck, h]⟩

theorem checkFile_of_read {d : Disk} {payload : List UInt8} (h : d.read p = .ok payload) :
    d.checkFile p = .ok true := by
  rw [Disk.read] at h
  rw [Disk.checkFile]
  cases hstat : d.stat p with
  | error errno => simp [hstat, bind, Except.bind] at h
  | ok found =>
    obtain ⟨place, entry⟩ := found
    cases entry with
    | directory => simp [hstat, bind, Except.bind, throw, throwThe, MonadExceptOf.throw] at h
    | file mode content => rfl

theorem isFile_of_read {d : Disk} {payload : List UInt8} (h : d.read p = .ok payload) :
    d.isFile p = true := by
  rw [Disk.isFile, checkFile_of_read h]

theorem tryRead_of_ok {payload : List UInt8} (h : w.disk.read (w.absolute p) = .ok payload) :
    (w.tryRead p formats).value = (decodeFirst (w.absolute p).text payload formats).value := by
  simp [tryRead, readFile, absolute_absolute, checkFile_of_read h, h]

/-- What is found in bytes that no format faults on. -/
theorem decodeFirst_value {path : String} {payload : List UInt8}
    (h : ∀ format ∈ formats, ∀ fault,
      (Decoder.decode format path payload).value ≠ .error (.fault fault)) :
    (decodeFirst path payload formats).value =
      match formats.findSome? fun format =>
        (Decoder.decode format path payload).value.toOption.map fun c => (c, format) with
      | some result => .ok result
      | none => .error (.format (.noFormat path)) := by
  induction formats with
  | nil => rfl
  | cons format rest ih =>
    have hrest := ih fun other hother => h other (List.mem_cons_of_mem _ hother)
    rw [decodeFirst, Logged.bind_value, List.findSome?_cons]
    cases hdecode : (Decoder.decode format path payload).value with
    | ok c => rfl
    | error error =>
      cases error with
      | json path error => exact hrest
      | yaml path => exact hrest
      | document path format error => exact hrest
      | fault fault => exact absurd hdecode (h format List.mem_cons_self fault)

theorem exists_of_decodeFirst {path : String} {payload : List UInt8} {c : Configuration} {format : κ}
    (h : (decodeFirst path payload formats).value = .ok (c, format)) :
    ∃ before after, formats = before ++ format :: after ∧
      (∀ other ∈ before, (Decoder.decode other path payload).value.toOption = none) ∧
      (Decoder.decode format path payload).value = .ok c := by
  induction formats with
  | nil => cases h
  | cons first rest ih =>
    rw [decodeFirst, Logged.bind_value] at h
    cases hdecode : (Decoder.decode first path payload).value with
    | ok found =>
      rw [hdecode] at h
      cases h
      exact ⟨[], rest, rfl, nofun, hdecode⟩
    | error error =>
      rw [hdecode] at h
      have hrest : (decodeFirst path payload rest).value = .ok (c, format) := by
        cases error with
        | json path error => exact h
        | yaml path => exact h
        | document path format error => exact h
        | fault fault => cases h
      obtain ⟨before, after, rfl, hbefore, hfound⟩ := ih hrest
      refine ⟨first :: before, after, rfl, List.forall_mem_cons.mpr ⟨?_, hbefore⟩, hfound⟩
      rw [hdecode]
      rfl

/-- What is found in a file is what the first format makes of it that decodes it. -/
theorem exists_of_tryRead {c : Configuration} {format : κ}
    (h : (w.tryRead p formats).value = .ok (c, format)) :
    ∃ before after, formats = before ++ format :: after ∧
      (∀ other ∈ before, w.decodes? p other = none) ∧ w.decodes? p format = some c := by
  unfold decodes?
  cases hread : w.disk.read (w.absolute p) with
  | error errno =>
    obtain ⟨-, htry⟩ | ⟨-, errno', htry⟩ := tryRead_of_error formats hread
    all_goals
      rw [htry] at h
      cases h
  | ok payload =>
    rw [tryRead_of_ok hread] at h
    obtain ⟨before, after, hformats, hbefore, hfound⟩ := exists_of_decodeFirst h
    exact ⟨before, after, hformats, hbefore, congrArg Except.toOption hfound⟩

/-- A candidate that some format decodes is found in the first such format. -/
theorem tryRead_of_decodes (h : w.Judges formats p) {before after : List κ} {format : κ}
    {c : Configuration} (hformats : formats = before ++ format :: after)
    (hbefore : ∀ other ∈ before, w.decodes? p other = none)
    (hdecodes : w.decodes? p format = some c) :
    (w.tryRead p formats).value = .ok (c, format) := by
  unfold decodes? at hbefore hdecodes
  cases hread : w.disk.read (w.absolute p) with
  | error errno => simp [hread] at hdecodes
  | ok payload =>
    simp only [hread] at hbefore hdecodes
    rw [tryRead_of_ok hread, decodeFirst_value (h payload hread)]
    have hfirst : formats.findSome? (fun format =>
        (Decoder.decode format (w.absolute p).text payload).value.toOption.map fun c => (c, format))
          = some (c, format) := by
      rw [List.findSome?_eq_some_iff]
      refine ⟨before, format, after, hformats, ?_, ?_⟩
      · rw [hdecodes, Option.map_some]
      · intro other hother
        rw [hbefore other hother, Option.map_none]
    rw [hfirst]

/-- A candidate that is read but decoded by no format is invalid. -/
theorem tryRead_of_decodes_none (h : w.Judges formats p)
    (hnone : ∀ format ∈ formats, w.decodes? p format = none) {payload : List UInt8}
    (hread : w.disk.read (w.absolute p) = .ok payload) :
    (w.tryRead p formats).value = .error (.format (.noFormat (w.absolute p).text)) := by
  simp only [decodes?, hread] at hnone
  rw [tryRead_of_ok hread, decodeFirst_value (h payload hread)]
  have hfirst : formats.findSome? (fun format =>
      (Decoder.decode format (w.absolute p).text payload).value.toOption.map fun c => (c, format))
        = none := by
    rw [List.findSome?_eq_none_iff]
    intro format hformat
    rw [hnone format hformat, Option.map_none]
  rw [hfirst]

/-- A search goes on after a candidate that no format decodes. -/
theorem stops_eq_false (h : w.Judges formats p)
    (hnone : ∀ format ∈ formats, w.decodes? p format = none) : w.stops formats p = false := by
  rw [stops]
  cases hread : w.disk.read (w.absolute p) with
  | ok payload => rw [tryRead_of_decodes_none h hnone hread]
  | error errno =>
    obtain ⟨-, htry⟩ | ⟨-, errno', htry⟩ := tryRead_of_error formats hread
    all_goals rw [htry]

end Reading

omit [Decoder κ] in
/-- An attempt splits the candidates and the formats before it from those after it. -/
theorem exists_of_attempts {paths : List Path} {formats : List κ} {before after : List (Path × κ)}
    {p : Path} {format : κ}
    (h : (paths.flatMap fun p => formats.map fun format => (p, format))
      = before ++ (p, format) :: after) :
    ∃ earlier later tried untried, paths = earlier ++ p :: later ∧
      formats = tried ++ format :: untried ∧
      before = (earlier.flatMap fun p => formats.map fun format => (p, format))
        ++ tried.map fun format => (p, format) := by
  induction paths generalizing before with
  | nil => simp at h
  | cons q paths ih =>
    rw [List.flatMap_cons, List.append_eq_append_iff] at h
    obtain ⟨between, hbefore, hrest⟩ | ⟨between, hmap, hrest⟩ := h
    · obtain ⟨earlier, later, tried, untried, hpaths, hformats, hbetween⟩ := ih hrest
      refine ⟨q :: earlier, later, tried, untried, ?_, hformats, ?_⟩
      · rw [hpaths, List.cons_append]
      · rw [hbefore, hbetween, List.flatMap_cons, List.append_assoc]
    · cases between with
      | nil =>
        rw [List.nil_append, ← List.nil_append ((p, format) :: after)] at hrest
        obtain ⟨earlier, later, tried, untried, hpaths, hformats, hbetween⟩ := ih hrest.symm
        refine ⟨q :: earlier, later, tried, untried, ?_, hformats, ?_⟩
        · rw [hpaths, List.cons_append]
        · rw [List.append_nil] at hmap
          rw [List.flatMap_cons, List.append_assoc, ← hbetween, List.append_nil, hmap]
      | cons a between =>
        obtain ⟨rfl, -⟩ := List.cons.inj hrest
        obtain ⟨tried, untried, hformats, htried, huntried⟩ := List.map_eq_append_iff.mp hmap
        obtain ⟨other, untried, rfl, hother, -⟩ := List.map_eq_cons_iff.mp huntried
        obtain ⟨rfl, rfl⟩ := Prod.mk.inj hother
        exact ⟨[], paths, tried, untried, rfl, hformats, htried.symm⟩

section Correctness

variable {w : World} {formats : List κ}

/-- The first attempt that succeeds is the result, in every world in which the files up to it are
read the same. -/
theorem locate_of_first {roots : List Path} {before after : List (Path × κ)} {p : Path}
    {format : κ} {c : Configuration}
    (hattempts : attempts roots formats = before ++ (p, format) :: after)
    (hjudges : ∀ q, q = p ∨ q ∈ before.map Prod.fst → w.Judges formats q)
    (hbefore : ∀ a ∈ before, w.decodes? a.1 a.2 = none)
    (hdecodes : w.decodes? p format = some c) :
    (w.locate roots formats).value = .ok { configuration := c, path := p, format } := by
  obtain ⟨earlier, later, tried, untried, hpaths, hformats, rfl⟩ := exists_of_attempts hattempts
  have hread : (w.tryRead p formats).value = .ok (c, format) := by
    refine tryRead_of_decodes (hjudges p (.inl rfl)) hformats ?_ hdecodes
    intro other hother
    exact hbefore (p, other) (by simp [hother])
  have hearlier : ∀ q ∈ earlier, w.stops formats q = false := by
    intro q hq
    have hmem : ∀ other ∈ formats, (q, other) ∈ (earlier.flatMap fun p =>
        formats.map fun format => (p, format)) ++ tried.map fun format => (p, format) := by
      intro other hother
      exact List.mem_append_left _ (List.mem_flatMap.mpr ⟨q, hq, List.mem_map.mpr ⟨other, hother, rfl⟩⟩)
    have hsome : format ∈ formats := by simp [hformats]
    refine stops_eq_false (hjudges q (.inr (List.mem_map.mpr ⟨_, hmem format hsome, rfl⟩))) ?_
    intro other hother
    exact hbefore (q, other) (hmem other hother)
  have hfind : (candidates roots).find? (w.stops formats) = some p := by
    rw [List.find?_eq_some_iff_append]
    refine ⟨?_, earlier, later, hpaths, ?_⟩
    · simp [stops, hread]
    · intro q hq
      simp [hearlier q hq]
  rw [locate_value, hfind]
  simp [found, hread, Except.map]

/-- Whether a file can be read but is decoded in no format. -/
def isRejected (w : World) (formats : List κ) (p : Path) : Bool :=
  match w.disk.read (w.absolute p) with
  | .error _ => false
  | .ok _ => formats.all fun format => (w.decodes? p format).isNone

theorem isInvalid_eq_isRejected {p : Path} (h : w.Judges formats p)
    (hnone : ∀ format ∈ formats, w.decodes? p format = none) :
    w.isInvalid formats p = w.isRejected formats p := by
  rw [isInvalid, isRejected]
  cases hread : w.disk.read (w.absolute p) with
  | ok payload =>
    rw [tryRead_of_decodes_none h hnone hread]
    symm
    rw [List.all_eq_true]
    intro format hformat
    rw [hnone format hformat]
    rfl
  | error errno =>
    obtain ⟨-, htry⟩ | ⟨-, errno', htry⟩ := tryRead_of_error formats hread
    all_goals rw [htry]

/-- A candidate that no format decodes is broken unless the check says that there is no file. -/
theorem brokenAmong_singleton {p : Path} (h : w.Judges formats p)
    (hnone : ∀ format ∈ formats, w.decodes? p format = none) :
    w.brokenAmong formats [p] = .none ↔ w.disk.checkFile (w.absolute p) = .ok false := by
  cases hread : w.disk.read (w.absolute p) with
  | ok payload =>
    simp [brokenAmong, isInvalid, tryRead_of_decodes_none h hnone hread, checkFile_of_read hread,
      BrokenFiles.none]
  | error errno =>
    obtain ⟨hcheck, htry⟩ | ⟨hcheck, errno', htry⟩ := tryRead_of_error formats hread
    · simp [brokenAmong, isInvalid, isUnreadable, htry, hcheck, BrokenFiles.none]
    · simp [brokenAmong, isInvalid, isUnreadable, htry, hcheck, BrokenFiles.none]

theorem brokenAmong_eq_none {paths : List Path} (h : ∀ p ∈ paths, w.Judges formats p)
    (hnone : ∀ p ∈ paths, ∀ format ∈ formats, w.decodes? p format = none) :
    w.brokenAmong formats paths = .none ↔
      ∀ p ∈ paths, w.disk.checkFile (w.absolute p) = .ok false := by
  induction paths with
  | nil => simp [brokenAmong, BrokenFiles.none]
  | cons p paths ih =>
    rw [brokenAmong_cons, BrokenFiles.append_eq_none, List.forall_mem_cons]
    rw [List.forall_mem_cons] at h hnone
    rw [brokenAmong_singleton h.1 hnone.1, ih h.2 hnone.2]

/-- No directory has broken files exactly if each check says that there is no file. -/
theorem brokenIn_eq_nil {roots : List Path} (h : ∀ p ∈ candidates roots, w.Judges formats p)
    (hnone : ∀ p ∈ candidates roots, ∀ format ∈ formats, w.decodes? p format = none) :
    w.brokenIn formats roots = [] ↔
      ∀ p ∈ candidates roots, w.disk.checkFile (w.absolute p) = .ok false := by
  induction roots with
  | nil => simp [brokenIn, candidates]
  | cons root roots ih =>
    have hcandidates : candidates (root :: roots) = candidatePaths root ++ candidates roots := rfl
    rw [hcandidates, List.forall_mem_append] at h hnone
    rw [brokenIn_cons, List.append_eq_nil_iff, hcandidates, List.forall_mem_append, ih h.2 hnone.2,
      ← brokenAmong_eq_none h.1 hnone.1]
    simp

/-- The invalid files of a search are those of all its candidates, in their order. -/
theorem paths_search (w : World) (formats : List κ) (roots : List Path) :
    (FormatError.search (w.brokenIn formats roots)).paths
      = ((candidates roots).filter (w.isInvalid formats)).map Path.text := by
  simp only [FormatError.paths]
  induction roots with
  | nil => rfl
  | cons root roots ih =>
    have hcandidates : candidates (root :: roots) = candidatePaths root ++ candidates roots := rfl
    have hroot : ([w.brokenAmong formats (candidatePaths root)].filter (· ≠ .none)).flatMap
        BrokenFiles.invalid
          = ((candidatePaths root).filter (w.isInvalid formats)).map Path.text := by
      by_cases hnone : w.brokenAmong formats (candidatePaths root) = .none
      · have hinvalid := congrArg BrokenFiles.invalid hnone
        simp only [brokenAmong, BrokenFiles.none] at hinvalid
        simp [hnone, hinvalid]
      · rw [List.filter_cons_of_pos (by simpa using hnone)]
        simp [brokenAmong]
    rw [brokenIn_cons, List.flatMap_append, ih, hroot, hcandidates, List.filter_append,
      List.map_append]

/-- Without an attempt that succeeds, missing files are told from those that cannot be used. -/
theorem locate_of_none {roots : List Path} (h : ∀ p ∈ candidates roots, w.Judges formats p)
    (hnone : ∀ p ∈ candidates roots, ∀ format ∈ formats, w.decodes? p format = none) :
    (w.locate roots formats).value = nothingAmong roots (w.brokenIn formats roots) := by
  have hfind : (candidates roots).find? (w.stops formats) = Option.none := by
    rw [List.find?_eq_none]
    intro p hp
    simp [stops_eq_false (h p hp) (hnone p hp)]
  rw [locate_value, hfind]

theorem found_eq_ok {p : Path} {result : Found κ} (h : w.found formats p = .ok result) :
    p = result.path ∧
      (w.tryRead result.path formats).value = .ok (result.configuration, result.format) := by
  rw [found] at h
  cases hread : (w.tryRead p formats).value with
  | error error =>
    rw [hread] at h
    cases h
  | ok pair =>
    rw [hread] at h
    cases h
    exact ⟨rfl, hread⟩

/-- What is found is read from the candidate at which the search stops. -/
theorem found_of_locate {roots : List Path} {result : Found κ}
    (h : (w.locate roots formats).value = .ok result) :
    (candidates roots).find? (w.stops formats) = some result.path ∧
      (w.tryRead result.path formats).value = .ok (result.configuration, result.format) := by
  rw [locate_value] at h
  cases hfind : (candidates roots).find? (w.stops formats) with
  | none =>
    rw [hfind] at h
    dsimp only [nothingAmong] at h
    split at h <;> cases h
  | some p =>
    rw [hfind] at h
    obtain ⟨rfl, hread⟩ := found_eq_ok h
    exact ⟨rfl, hread⟩

/-- What is found in the first directories does not depend on the others. -/
theorem locate_append {roots : List Path} {result : Found κ}
    (h : (w.locate roots formats).value = .ok result) (others : List Path) :
    (w.locate (roots ++ others) formats).value = .ok result := by
  obtain ⟨hfind, -⟩ := found_of_locate h
  rw [locate_value, hfind] at h
  have hcandidates : candidates (roots ++ others) = candidates roots ++ candidates others :=
    List.flatMap_append
  rw [locate_value, hcandidates, List.find?_append, hfind]
  exact h

omit [Decoder κ] in
/-- The files of the attempts up to one are candidates. -/
theorem mem_candidates_of_attempts {roots : List Path} {before after : List (Path × κ)} {p q : Path}
    {format : κ} (hattempts : attempts roots formats = before ++ (p, format) :: after)
    (hq : q = p ∨ q ∈ before.map Prod.fst) : q ∈ candidates roots := by
  have hfst : q ∈ (attempts roots formats).map Prod.fst := by
    rw [hattempts, List.map_append, List.map_cons, List.mem_append, List.mem_cons]
    exact hq.symm.imp_right .inl
  simp only [attempts, List.map_flatMap, List.mem_flatMap, List.mem_map] at hfst
  obtain ⟨p', hp', a, ⟨format', -, rfl⟩, rfl⟩ := hfst
  exact hp'

theorem forall_attempts_iff {roots : List Path} :
    (∀ a ∈ attempts roots formats, w.decodes? a.1 a.2 = none) ↔
      ∀ p ∈ candidates roots, ∀ format ∈ formats, w.decodes? p format = none := by
  constructor
  · intro h p hp format hformat
    exact h (p, format) (List.mem_flatMap.mpr ⟨p, hp, List.mem_map.mpr ⟨format, hformat, rfl⟩⟩)
  · intro h a ha
    obtain ⟨p, hp, ha⟩ := List.mem_flatMap.mp ha
    obtain ⟨format, hformat, rfl⟩ := List.mem_map.mp ha
    exact h p hp format hformat

/-- What a format makes of a file depends on what is read there and on the path alone. -/
theorem decodes?_congr {other : World} {p : Path} (hpath : other.absolute p = w.absolute p)
    (hread : other.disk.read (other.absolute p) = w.disk.read (w.absolute p)) (format : κ) :
    other.decodes? p format = w.decodes? p format := by
  rw [decodes?, decodes?, hread, hpath]

theorem judges_congr {other : World} {p : Path} (hpath : other.absolute p = w.absolute p)
    (hread : other.disk.read (other.absolute p) = w.disk.read (w.absolute p)) :
    other.Judges formats p ↔ w.Judges formats p := by
  rw [Judges, Judges, hread, hpath]

/-- The first attempt that succeeds is the result of a search, whatever comes after it. If none
succeeds, the search says that nothing is there exactly if the check of every candidate says that it
is no file, and otherwise names the candidates that were read, in their order. A check that fails
counts as a file that cannot be used. -/
theorem locate_correct (w : World) (roots : List Path) (formats : List κ)
    (h : ∀ p ∈ candidates roots, w.Judges formats p) :
    (∀ before p format after c, attempts roots formats = before ++ (p, format) :: after →
      (∀ a ∈ before, w.decodes? a.1 a.2 = none) → w.decodes? p format = some c →
      (w.locate roots formats).value = .ok { configuration := c, path := p, format } ∧
      ∀ other : World, other.workingDirectory = w.workingDirectory →
        (∀ q, q = p ∨ q ∈ before.map Prod.fst →
          other.disk.read (other.absolute q) = w.disk.read (w.absolute q)) →
        (other.locate roots formats).value = .ok { configuration := c, path := p, format }) ∧
    ((∀ a ∈ attempts roots formats, w.decodes? a.1 a.2 = none) →
      (∀ p ∈ candidates roots, w.disk.checkFile (w.absolute p) = .ok false) →
      (w.locate roots formats).value = .error (.missing (.anywhere (roots.map Path.text)))) ∧
    ((∀ a ∈ attempts roots formats, w.decodes? a.1 a.2 = none) →
      (∃ p ∈ candidates roots, w.disk.checkFile (w.absolute p) ≠ .ok false) →
      ∃ error, (w.locate roots formats).value = .error (.format error) ∧
        error.paths = ((candidates roots).filter (w.isRejected formats)).map Path.text) := by
  refine ⟨?_, ?_, ?_⟩
  · intro before p format after c hattempts hbefore hdecodes
    have hjudges : ∀ q, q = p ∨ q ∈ before.map Prod.fst → w.Judges formats q :=
      fun q hq => h q (mem_candidates_of_attempts hattempts hq)
    refine ⟨locate_of_first hattempts hjudges hbefore hdecodes, ?_⟩
    intro other hdirectory hsame
    have hpath : ∀ q, other.absolute q = w.absolute q := by
      intro q
      rw [absolute, absolute, hdirectory]
    apply locate_of_first hattempts
    · intro q hq
      exact (judges_congr (hpath q) (hsame q hq)).mpr (hjudges q hq)
    · intro a ha
      have hmem : a.1 ∈ before.map Prod.fst := List.mem_map.mpr ⟨a, ha, rfl⟩
      rw [decodes?_congr (hpath a.1) (hsame a.1 (.inr hmem)), hbefore a ha]
    · rw [decodes?_congr (hpath p) (hsame p (.inl rfl)), hdecodes]
  · intro hnone habsent
    rw [forall_attempts_iff] at hnone
    rw [locate_of_none h hnone, nothingAmong, if_pos ((brokenIn_eq_nil h hnone).mpr habsent)]
  · rintro hnone ⟨p, hp, hfile⟩
    rw [forall_attempts_iff] at hnone
    have hbroken : w.brokenIn formats roots ≠ [] := by
      intro hnil
      exact hfile ((brokenIn_eq_nil h hnone).mp hnil p hp)
    refine ⟨.search (w.brokenIn formats roots), ?_, ?_⟩
    · rw [locate_of_none h hnone, nothingAmong, if_neg hbroken]
    · rw [paths_search]
      congr 1
      exact List.filter_congr fun p hp => isInvalid_eq_isRejected (h p hp) (hnone p hp)

/-- An empty file ahead of one that holds an object without contexts. -/
def twoCandidates : World where
  disk := ⟨[(["a"], .directory), (["a", "lenses.yml"], .file 0o600 []),
    (["a", "lenses.json"], .file 0o600
      [123, 34, 99, 111, 110, 116, 101, 120, 116, 115, 34, 58, 123, 125, 125])], []⟩
  workingDirectory := .ofText "/"

theorem locate_correct_twoCandidates :
    (∀ p ∈ candidates [.ofText "/a"], twoCandidates.Judges [Format.json, .yaml] p) ∧
    (twoCandidates.locate [.ofText "/a"] [Format.json, .yaml]).value =
      .ok { configuration := .empty, path := .ofText "/a/lenses.json", format := .json } := by
  have hjudges : ∀ p ∈ candidates [.ofText "/a"], twoCandidates.Judges [Format.json, .yaml] p := by
    decide +kernel
  refine ⟨hjudges, ?_⟩
  have hattempts : attempts [.ofText "/a"] [Format.json, .yaml]
      = [(.ofText "/a/lenses.yml", .json), (.ofText "/a/lenses.yml", .yaml),
          (.ofText "/a/lenses.yaml", .json), (.ofText "/a/lenses.yaml", .yaml)]
        ++ (.ofText "/a/lenses.json", .json) :: (attempts [.ofText "/a"] [.json, .yaml]).drop 5 := by
    decide +kernel
  exact ((locate_correct twoCandidates _ _ hjudges).1 _ _ _ _ _ hattempts (by decide +kernel)
    (by decide +kernel)).1

/-- An empty directory in which no name can be looked up. -/
def closedRoot : World where
  disk := ⟨[(["a"], .directory)], [["a"]]⟩
  workingDirectory := .ofText "/"

/-- In a directory that cannot be searched no check can tell that a candidate is not there. So all
of them count as files that cannot be read, although the disk has no file at all. -/
theorem not_locate_closedRoot :
    (∀ entry ∈ closedRoot.disk.entries, entry.2 = .directory) ∧
    (∀ p ∈ candidates [.ofText "/a"], closedRoot.Judges [Format.json, .yaml] p) ∧
    (closedRoot.locate [.ofText "/a"] [Format.json, .yaml]).value
      = .error (.format (.search [⟨[], (candidates [.ofText "/a"]).map Path.text⟩])) := by
  decide +kernel

end Correctness

end World
end ContextConfig
