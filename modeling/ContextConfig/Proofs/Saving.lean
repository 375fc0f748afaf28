import ContextConfig.Proofs.Json.Codec
import ContextConfig.Proofs.Path
import ContextConfig.Proofs.Search
import ContextConfig.Proofs.Writing
import ContextConfig.Session
/-!
# Saved configurations are found again

After a configuration is loaded and another one is saved in its place, a new search finds the file
that was written. No candidate ahead of it can be in the way: those that a search passed before
are passed again, since storing changes the tree at one place alone, and what was stored is decoded
in the format in which it was encoded.
-/

namespace ContextConfig

section Contents

/-- The fault that an error stands for, if it does. -/
def Error.faultOf : Error → Option Fault
  | .fault f => some f
  | _ => none

/-- What a search makes of bytes does not depend on their path. -/
theorem decodeFirst_mapError (path path' : String) (payload : List UInt8) (formats : List Format) :
    (World.decodeFirst path payload formats).value.mapError Error.faultOf
      = (World.decodeFirst path' payload formats).value.mapError Error.faultOf := by
  induction formats with
  | nil => rfl
  | cons format formats ih =>
    have hdecode := format.decode_mapError path path' payload
    simp only [World.decodeFirst, Logged.bind_value, Decoder.decode]
    cases h : (format.decode path payload).value with
    | ok c =>
      cases h' : (format.decode path' payload).value with
      | ok c' =>
        rw [h, h'] at hdecode
        cases hdecode
        rfl
      | error error' =>
        rw [h, h'] at hdecode
        cases hdecode
    | error error =>
      cases h' : (format.decode path' payload).value with
      | ok c' =>
        rw [h, h'] at hdecode
        cases hdecode
      | error error' =>
        rw [h, h'] at hdecode
        have hfault := Except.error.inj hdecode
        cases error <;> cases error' <;> first | exact ih | cases hfault <;> rfl

/-- Bytes are decoded in the format in which they were encoded: the bytes of one format are not
those of another one that is tried before it. -/
theorem decodeFirst_encode {path : String} {format : Format} {c : Configuration}
    (h : (format.decode path (format.encode c)).value = .ok c) :
    (World.decodeFirst path (format.encode c) [Format.json, .yaml]).value = .ok (c, format) := by
  cases format with
  | json => simp [World.decodeFirst, Decoder.decode, h]
  | yaml =>
    obtain ⟨error, hparse⟩ := Format.exists_parse_json_yaml path c
    have hjson : (Format.json.decode path (Format.yaml.encode c)).value = .error (.json path error) := by
      rw [Format.decode_value, hparse]
    simp [World.decodeFirst, Decoder.decode, hjson, h]

/-- Decoding bytes fails in one of two ways. -/
theorem decodeFirst_cases (path : String) (payload : List UInt8) (formats : List Format) :
    (∃ result, (World.decodeFirst path payload formats).value = .ok result) ∨
      (∃ error, (World.decodeFirst path payload formats).value = .error (.format error)) ∨
      ∃ fault, (World.decodeFirst path payload formats).value = .error (.fault fault) := by
  induction formats with
  | nil => exact .inr (.inl ⟨_, rfl⟩)
  | cons format formats ih =>
    simp only [World.decodeFirst, Logged.bind_value, Decoder.decode]
    cases h : (format.decode path payload).value with
    | ok c => exact .inl ⟨_, rfl⟩
    | error error =>
      cases error with
      | fault fault => exact .inr (.inr ⟨fault, rfl⟩)
      | json path error => exact ih
      | yaml path => exact ih
      | document path format error => exact ih

end Contents

namespace World

variable {w w' : World} {p q : Path}

/-- Candidates at one place are judged alike. -/
theorem judged_alike {formats : List Format} {payload : List UInt8}
    (hread : w.disk.read (w.absolute p) = .ok payload)
    (hplace : w.disk.locate (w.absolute q) = w.disk.locate (w.absolute p)) :
    w.stops formats q = w.stops formats p ∧ w.isInvalid formats q = w.isInvalid formats p := by
  have hreadq : w.disk.read (w.absolute q) = .ok payload := by
    rw [Disk.read_eq_ok] at hread ⊢
    rwa [hplace]
  have hsame := decodeFirst_mapError (w.absolute q).text (w.absolute p).text payload formats
  unfold stops isInvalid
  rw [tryRead_of_ok hreadq, tryRead_of_ok hread]
  obtain ⟨r, hq⟩ | ⟨e, hq⟩ | ⟨f, hq⟩ := decodeFirst_cases (w.absolute q).text payload formats
  all_goals
    obtain ⟨r', hp⟩ | ⟨e', hp⟩ | ⟨f', hp⟩ := decodeFirst_cases (w.absolute p).text payload formats
    all_goals
      rw [hq, hp] at hsame ⊢
      first | exact ⟨rfl, rfl⟩ | cases hsame

theorem tryRead_congr {formats : List Format} (hpath : w'.absolute q = w.absolute q)
    (hcheck : w'.disk.checkFile (w.absolute q) = w.disk.checkFile (w.absolute q))
    (hread : w.disk.checkFile (w.absolute q) = .ok true →
      w'.disk.read (w.absolute q) = w.disk.read (w.absolute q)) :
    (w'.tryRead q formats).value = (w.tryRead q formats).value := by
  rw [tryRead, tryRead, hpath]
  simp only [Logged.bind_value, readFile, absolute_absolute]
  have hpath' : w'.absolute (w.absolute q) = w.absolute q := by rw [← hpath, absolute_absolute]
  rw [hpath', hcheck]
  cases h : w.disk.checkFile (w.absolute q) with
  | error errno => rfl
  | ok found =>
    cases found with
    | false => rfl
    | true => rw [hread h]

/-- A file that was written changes nothing for candidates at other places. -/
theorem tryRead_of_writes {formats : List Format} {place : Place} {content : List UInt8}
    (hpath : w'.absolute q = w.absolute q)
    (hwrites : Storing.Writes w.disk w'.disk place content)
    (hplace : w.disk.locate (w.absolute q) ≠ .ok place) :
    (w'.tryRead q formats).value = (w.tryRead q formats).value := by
  refine tryRead_congr hpath (hwrites.checkFile hplace) fun hcheck => ?_
  cases hlocate : w.disk.locate (w.absolute q) with
  | error errno =>
    rw [Disk.checkFile_of_locate_error hlocate] at hcheck
    split at hcheck <;> cases hcheck
  | ok place' =>
    have hne : place' ≠ place := by
      rintro rfl
      exact hplace hlocate
    rw [Disk.read_of_locate hlocate, Disk.read_of_locate (hwrites.locate.mpr hlocate), Disk.readAt,
      Disk.readAt, hwrites.others place' hne, hwrites.denied]

/-- Whether a search stops depends on what reading the candidate gives. -/
theorem stops_congr {formats : List Format}
    (h : (w'.tryRead q formats).value = (w.tryRead q formats).value) :
    w'.stops formats q = w.stops formats q := by
  rw [stops, stops, h]

/-- A search finds the file that was written if it passes by the candidates ahead of it. -/
theorem locate_of_written {roots before after : List Path} {format : Format} {c : Configuration}
    (hsplit : candidates roots = before ++ p :: after)
    (hbefore : ∀ q ∈ before, w.stops [Format.json, .yaml] q = false)
    (hread : w.disk.read (w.absolute p) = .ok (format.encode c))
    (hown : (format.decode (w.absolute p).text (format.encode c)).value = .ok c) :
    (w.locate roots [Format.json, .yaml]).value = .ok { configuration := c, path := p, format } := by
  have htry : (w.tryRead p [Format.json, .yaml]).value = .ok (c, format) := by
    rw [tryRead_of_ok hread, decodeFirst_encode hown]
  have hfind : (candidates roots).find? (w.stops [Format.json, .yaml]) = some p := by
    rw [List.find?_eq_some_iff_append]
    refine ⟨?_, before, after, hsplit, ?_⟩
    · rw [stops, htry]
    · intro q hq
      rw [hbefore q hq]
      rfl
  rw [locate_value, hfind]
  simp only [found, htry]
  rfl

theorem mem_candidates {roots : List Path} :
    p ∈ candidates roots ↔ ∃ root ∈ roots, ∃ name ∈ candidateNames, p = root.child name := by
  simp only [candidates, candidatePaths, List.mem_flatMap, List.mem_map, eq_comm]

theorem isName_of_mem_candidateNames {name : String} (h : name ∈ candidateNames) :
    IsName name ∧ name ≠ ".." := by
  have hall : ∀ name ∈ candidateNames, IsName name ∧ name ≠ ".." := by decide
  exact hall name h

theorem absolute_child {base : Path} {name : String} (h : name ∈ candidateNames) :
    w.absolute (base.child name) = (w.absolute base).child name :=
  Path.absolute_child (isName_of_mem_candidateNames h).1 base w.workingDirectory

/-- A candidate that can be read has a directory around it. -/
theorem hasDirectory_of_read {roots : List Path} {payload : List UInt8} (hp : p ∈ candidates roots)
    (hread : w.disk.read (w.absolute p) = .ok payload) :
    w.disk.HasDirectory (w.absolute p).parent := by
  obtain ⟨root, -, name, hname, rfl⟩ := mem_candidates.mp hp
  obtain ⟨hname', hdots⟩ := isName_of_mem_candidateNames hname
  obtain ⟨place, hlocate, -⟩ := Disk.read_eq_ok.mp hread
  rw [absolute_child hname] at hlocate ⊢
  rw [Path.parent_child hname']
  exact Disk.hasDirectory_of_locate_child hname' hdots hlocate

/-- Storing over a candidate that can be read changes its content alone. -/
theorem writes_over {roots : List Path} {refusals : Refusals} {payload content : List UInt8}
    {disk : Disk} (hp : p ∈ candidates roots)
    (hread : w.disk.read (w.absolute p) = .ok payload)
    (hstore : Storing.store refusals w.disk (w.absolute p) content = (disk, .ok ())) :
    ∃ place, w.disk.locate (w.absolute p) = .ok place ∧ Storing.Writes w.disk disk place content :=
  Storing.store_of_hasDirectory (hasDirectory_of_read hp hread) hstore

/-- Storing over a candidate that can be read succeeds unless a step is refused. -/
theorem exists_store_over {roots : List Path} {payload : List UInt8} (hp : p ∈ candidates roots)
    (hread : w.disk.read (w.absolute p) = .ok payload) (content : List UInt8) :
    ∃ disk, Storing.store noRefusals w.disk (w.absolute p) content = (disk, .ok ()) := by
  obtain ⟨place, hlocate, hreadAt⟩ := Disk.read_eq_ok.mp hread
  refine Storing.store_isOk_iff.mpr ⟨fun _ => rfl, w.disk, place,
    Disk.makeDirectories_of_hasDirectory (hasDirectory_of_read hp hread), hlocate, ?_⟩
  intro hdirectory
  rw [Disk.readAt, hdirectory] at hreadAt
  cases hreadAt

/-- A search goes on after a candidate that is not read. -/
theorem stops_of_error {formats : List Format} {errno : Errno}
    (h : w.disk.read (w.absolute p) = .error errno) : w.stops formats p = false := by
  rw [stops]
  obtain ⟨-, htry⟩ | ⟨-, errno', htry⟩ := tryRead_of_error formats h
  all_goals rw [htry]

theorem stops_of_not_isFile {formats : List Format} (h : w.disk.isFile (w.absolute p) = false) :
    w.stops formats p = false := by
  cases hread : w.disk.read (w.absolute p) with
  | error errno => exact stops_of_error hread
  | ok payload =>
    rw [isFile_of_read hread] at h
    cases h

/-- In a new directory there is the file that was stored and no other one. -/
theorem isFile_beside_stored {refusals : Refusals} {d disk : Disk} {directory : Path}
    {name other : String} {content : List UInt8} (htree : d.IsTree) (hname : IsName name)
    (hdots : name ≠ "..") (hother : IsName other) (hotherDots : other ≠ "..") (hne : name ≠ other)
    (hnames : ".." ∉ directory.names) (hnew : ¬ d.HasDirectory directory)
    (hstore : Storing.store refusals d (directory.child other) content = (disk, .ok ())) :
    disk.isFile (directory.child name) = false := by
  obtain ⟨between, place, hmade, hlocate, hwrites⟩ := Storing.store_eq_ok hstore
  rw [Path.parent_child hother] at hmade
  obtain ⟨hgrows, -, hchanged⟩ := Disk.makeDirectories_eq_ok hmade
  obtain ⟨-, above, habove, -, rfl⟩ := (Disk.locate_child hother hotherDots).mp hlocate
  obtain rfl : above = directory.names := Disk.eq_of_locate hnames habove
  cases hq : disk.locate (directory.child name) with
  | error errno => exact Disk.isFile_of_locate_error hq
  | ok place =>
    have hq' : between.locate (directory.child name) = .ok place := hwrites.locate.mp hq
    obtain ⟨-, above, habove', -, rfl⟩ := (Disk.locate_child hname hdots).mp hq'
    obtain rfl : above = directory.names := Disk.eq_of_locate hnames habove'
    have hplace : directory.names ++ [name] ≠ directory.names ++ [other] :=
      fun h => hne (List.singleton_inj.mp (List.append_cancel_left h))
    have hnone : d.get? (directory.names ++ [name]) = none := by
      by_contra hentry
      have hdirectory := htree _ _ hentry
      obtain ⟨hfits, hfollow⟩ := Disk.locate_eq_ok.mp habove
      refine hnew ⟨directory.names, Disk.locate_eq_ok.mpr ⟨hfits, ?_⟩, hdirectory⟩
      refine htree.follow hgrows.denied hnames ?_ hfollow
      rw [hdirectory]
      exact Option.some_ne_none _
    have hlength : ¬ directory.names ++ [name] <+: directory.names := by
      intro h
      have hle := h.length_le
      rw [List.length_append, List.length_singleton] at hle
      omega
    rw [Disk.isFile_of_locate hq, Disk.isFileAt, hwrites.others _ hplace,
      hchanged hnames _ hlength, hnone]

/-- Storing the default file of a directory puts nothing ahead of it. -/
theorem stops_ahead_of_default {refusals : Refusals} {home : Path} {name : String} {disk : Disk}
    {content : List UInt8} (htree : w.disk.IsTree)
    (hhome : w.disk.HasDirectory (w.absolute home) ∨ ".." ∉ (w.absolute home).names)
    (hname : name ∈ candidateNames) (hne : name ≠ defaultName)
    (hstops : w.stops [Format.json, .yaml] (home.child name) = false)
    (hstore : Storing.store refusals w.disk (w.absolute (home.child defaultName)) content
      = (disk, .ok ())) :
    ({ w with disk } : World).stops [Format.json, .yaml] (home.child name) = false := by
  have hdefault : defaultName ∈ candidateNames := by decide
  obtain ⟨hname', hdots⟩ := isName_of_mem_candidateNames hname
  obtain ⟨hdefault', hdefaultDots⟩ := isName_of_mem_candidateNames hdefault
  rw [absolute_child hdefault] at hstore
  by_cases hdirectory : w.disk.HasDirectory (w.absolute home)
  · obtain ⟨place, hlocate, hwrites⟩ := Storing.store_of_hasDirectory
      (by rwa [Path.parent_child hdefault']) hstore
    have hplace : w.disk.locate (w.absolute (home.child name)) ≠ .ok place := by
      intro h
      rw [absolute_child hname] at h
      obtain ⟨-, above, habove, -, hq⟩ := (Disk.locate_child hname' hdots).mp h
      obtain ⟨-, above', habove', -, rfl⟩ := (Disk.locate_child hdefault' hdefaultDots).mp hlocate
      rw [habove] at habove'
      cases habove'
      exact hne (List.singleton_inj.mp (List.append_cancel_left hq)).symm
    have hsame : (({ w with disk } : World).tryRead (home.child name) [Format.json, .yaml]).value
        = (w.tryRead (home.child name) [Format.json, .yaml]).value :=
      tryRead_of_writes rfl hwrites hplace
    rw [stops_congr hsame, hstops]
  · apply stops_of_not_isFile
    change disk.isFile (w.absolute (home.child name)) = false
    rw [absolute_child hname]
    exact isFile_beside_stored htree hname' hdots hdefault' hdefaultDots hne
      (hhome.resolve_left hdirectory) hdirectory hstore

/-- A candidate that ends a search or is invalid was read. -/
theorem exists_read {formats : List Format}
    (h : w.stops formats p = true ∨ w.isInvalid formats p = true) :
    ∃ payload, w.disk.read (w.absolute p) = .ok payload := by
  cases hread : w.disk.read (w.absolute p) with
  | ok payload => exact ⟨payload, rfl⟩
  | error errno =>
    rw [stops, isInvalid] at h
    obtain ⟨-, htry⟩ | ⟨-, errno', htry⟩ := tryRead_of_error formats hread
    all_goals simp [htry] at h

/-- Writing over a candidate makes it the result of a search: it can be read, and the search passes
by the candidates ahead of it, which lie elsewhere. -/
structure Replaceable (w : World) (roots : List Path) (p : Path) : Prop where
  read : ∃ payload, w.disk.read (w.absolute p) = .ok payload
  split : ∃ before after, candidates roots = before ++ p :: after ∧ ∀ q ∈ before,
    w.stops [Format.json, .yaml] q = false ∧
      w.disk.locate (w.absolute q) ≠ w.disk.locate (w.absolute p)

theorem Replaceable.mem {roots : List Path} (h : w.Replaceable roots p) : p ∈ candidates roots := by
  obtain ⟨before, after, hsplit, -⟩ := h.split
  rw [hsplit]
  exact List.mem_append_right _ List.mem_cons_self

/-- The candidate at which a search stops. -/
theorem replaceable_of_stops {roots : List Path}
    (h : (candidates roots).find? (w.stops [Format.json, .yaml]) = some p) :
    w.Replaceable roots p := by
  obtain ⟨hp, before, after, hsplit, hbefore⟩ := List.find?_eq_some_iff_append.mp h
  obtain ⟨payload, hread⟩ := exists_read (.inl hp)
  refine ⟨⟨payload, hread⟩, before, after, hsplit, fun q hq => ?_⟩
  have hq : w.stops [Format.json, .yaml] q = false := by simpa using hbefore q hq
  refine ⟨hq, fun hplace => ?_⟩
  rw [(judged_alike hread hplace).1, hp] at hq
  cases hq

/-- The first invalid candidate, where a search does not stop. -/
theorem replaceable_of_isInvalid {roots : List Path}
    (hpasses : ∀ q ∈ candidates roots, w.stops [Format.json, .yaml] q = false)
    (h : (candidates roots).find? (w.isInvalid [Format.json, .yaml]) = some p) :
    w.Replaceable roots p := by
  obtain ⟨hp, before, after, hsplit, hbefore⟩ := List.find?_eq_some_iff_append.mp h
  obtain ⟨payload, hread⟩ := exists_read (.inr hp)
  refine ⟨⟨payload, hread⟩, before, after, hsplit, fun q hq => ⟨hpasses q ?_, fun hplace => ?_⟩⟩
  · rw [hsplit]
    exact List.mem_append_left _ hq
  · have hinvalid := hbefore q hq
    rw [(judged_alike hread hplace).2, hp] at hinvalid
    cases hinvalid

end World

namespace Session

variable {s s' : Session} {w : World}

theorem load_value (s : Session) (w : World) (discardInvalid : Bool) :
    (s.load w discardInvalid).value =
      match (w.locate (s.locations.roots w.workingDirectory).value s.formats).value with
      | .ok located => (.ok (s.adopt located).1, (s.adopt located).2)
      | .error (.missing _) => (.ok .nothing, s)
      | .error (.format error) =>
        if discardInvalid then (.ok .discarded, (s.discard error).value)
        else (.error (.format error), s)
      | .error error => (.error error, s) := by
  rw [load, Logged.bind_value, Logged.bind_value]
  cases (w.locate (s.locations.roots w.workingDirectory).value s.formats).value with
  | ok located => rfl
  | error error =>
    cases error with
    | format error => cases discardInvalid <;> rfl
    | _ => rfl

/-- Invalid candidates that are discarded leave the first of them to be saved to. -/
theorem discard_source (s : Session) (w : World) (formats : List Format) (roots : List Path) :
    (s.discard (.search (w.brokenIn formats roots))).value.source
      = (candidates roots).find? (w.isInvalid formats) := by
  change ((FormatError.search _).paths.head?).map Path.ofText = _
  rw [World.paths_search, List.head?_map, Option.map_map, List.head?_filter]
  simp [Function.comp_def, Path.ofText_text]

/-- Where a session saves after loading: over a candidate, or to a new file where the search passed
by every candidate. -/
theorem load_source {discardInvalid : Bool} {loaded : Loaded}
    (hformats : s.formats = [.json, .yaml])
    (hload : (s.load w discardInvalid).value = (.ok loaded, s'))
    (hnothing : loaded = .nothing → s.source = none) :
    s'.locations = s.locations ∧
      ((∃ p, s'.source = some p ∧
          w.Replaceable (s.locations.roots w.workingDirectory).value p) ∨
        s'.source = none ∧ ∀ q ∈ candidates (s.locations.roots w.workingDirectory).value,
          w.stops [Format.json, .yaml] q = false) := by
  rw [load_value, hformats, World.locate_value] at hload
  cases hfind : (candidates (s.locations.roots w.workingDirectory).value).find?
      (w.stops [Format.json, .yaml]) with
  | some p =>
    rw [hfind] at hload
    have hreplaceable := World.replaceable_of_stops hfind
    dsimp only at hload
    obtain ⟨result, hp⟩ | ⟨fault, hp⟩ | ⟨why, hp⟩ :=
      w.found_of_stops [Format.json, .yaml] (List.find?_some hfind)
    · obtain ⟨rfl, -⟩ := World.found_eq_ok hp
      rw [hp] at hload
      obtain ⟨-, rfl⟩ := Prod.mk.inj hload
      exact ⟨rfl, .inl ⟨result.path, rfl, hreplaceable⟩⟩
    · rw [hp] at hload
      cases hload
    · rw [hp] at hload
      cases hload
  | none =>
    have hpasses : ∀ q ∈ candidates (s.locations.roots w.workingDirectory).value,
        w.stops [Format.json, .yaml] q = false := by
      intro q hq
      simpa using List.find?_eq_none.mp hfind q hq
    rw [hfind] at hload
    dsimp only [World.nothingAmong] at hload
    by_cases hbroken : w.brokenIn [Format.json, .yaml]
        (s.locations.roots w.workingDirectory).value = []
    · rw [if_pos hbroken] at hload
      obtain ⟨hloaded, rfl⟩ := Prod.mk.inj hload
      cases hloaded
      exact ⟨rfl, .inr ⟨hnothing rfl, hpasses⟩⟩
    · rw [if_neg hbroken] at hload
      cases discardInvalid with
      | false => cases hload
      | true =>
        obtain ⟨-, rfl⟩ := Prod.mk.inj hload
        have hsource := s.discard_source w [.json, .yaml] (s.locations.roots w.workingDirectory).value
        refine ⟨rfl, ?_⟩
        cases hinvalid : (candidates (s.locations.roots w.workingDirectory).value).find?
            (w.isInvalid [Format.json, .yaml]) with
        | none => exact .inr ⟨hsource.trans hinvalid, hpasses⟩
        | some p =>
          exact .inl ⟨p, hsource.trans hinvalid, World.replaceable_of_isInvalid hpasses hinvalid⟩

section Save

variable {w' : World} {refusals : Refusals} {p : Option Path} {format given : Option Format}
  {target : Path}

theorem save_of_target (htarget : s.target p format = .ok (target, given)) :
    (s.save w refusals p format).value =
      match (w.write refusals s.configuration target given).value with
      | (w', .error error) => (.error error, s, w')
      | (w', .ok written) =>
        (.ok written, { s with
          source := some written, format := some (given.getD (formatForPath written)) }, w') := by
  rw [save, htarget]
  dsimp only
  rw [Logged.bind_value]
  cases (w.write refusals s.configuration target given).value with
  | mk world result => cases result <;> rfl

theorem save_of_no_target {error : Error} (htarget : s.target p format = .error error) :
    (s.save w refusals p format).value = (.error error, s, w) := by
  rw [save, htarget]
  rfl

/-- What saving does when it succeeds. -/
theorem save_eq_ok {written : Path}
    (h : (s.save w refusals p format).value = (.ok written, s', w')) :
    ∃ given disk, s.target p format = .ok (written, given) ∧
      s' = { s with source := some written, format := some (given.getD (formatForPath written)) } ∧
      w' = { w with disk } ∧ Storing.store refusals w.disk (w.absolute written)
        ((given.getD (formatForPath written)).encode s.configuration) = (disk, .ok ()) := by
  cases htarget : s.target p format with
  | error error =>
    rw [save_of_no_target htarget] at h
    cases h
  | ok pair =>
    obtain ⟨target, given⟩ := pair
    rw [save_of_target htarget] at h
    split at h
    case h_1 => cases h
    case h_2 hwrite =>
      cases h
      obtain ⟨rfl, disk, rfl, hstore⟩ := World.write_eq_ok.mp hwrite
      exact ⟨given, disk, rfl, rfl, rfl, hstore⟩

/-- Saving succeeds where its target can be stored. -/
theorem save_of_store {disk : Disk} (htarget : s.target p format = .ok (target, given))
    (hstore : Storing.store refusals w.disk (w.absolute target)
      ((given.getD (formatForPath target)).encode s.configuration) = (disk, .ok ())) :
    (s.save w refusals p format).value
      = (.ok target, { s with
          source := some target, format := some (given.getD (formatForPath target)) },
        { w with disk }) := by
  rw [save_of_target htarget, World.write_eq_ok.mpr ⟨rfl, disk, rfl, hstore⟩]

/-- Where saving fails all files are as they were, and the whole tree is unless the operating system
refused a step. -/
theorem save_eq_error {error : Error}
    (h : (s.save w refusals p format).value = (.error error, s', w')) :
    s' = s ∧ ∃ disk, w' = { w with disk } ∧ w.disk.SameFiles disk ∧
      ((∀ errno path, error ≠ .system errno path) → w' = w) := by
  cases htarget : s.target p format with
  | error missing =>
    rw [save_of_no_target htarget] at h
    cases h
    exact ⟨rfl, w.disk, rfl, .refl _, fun _ => rfl⟩
  | ok pair =>
    obtain ⟨target, given⟩ := pair
    rw [save_of_target htarget] at h
    split at h
    case h_1 hwrite =>
      cases h
      obtain ⟨⟨errno, path, rfl⟩, disk, rfl, hsame⟩ := World.write_eq_error hwrite
      exact ⟨rfl, disk, rfl, hsame, fun hnot => absurd rfl (hnot errno path)⟩
    case h_2 => cases h

end Save

/-- A session with a file saves to it. -/
theorem target_of_source {format given : Option Format} {source target : Path}
    (hsource : s.source = some source) (h : s.target none format = .ok (target, given)) :
    target = source := by
  unfold Session.target at h
  rw [hsource] at h
  cases h
  rfl

/-- A session without a file saves to the default one of the user. -/
theorem target_of_no_source {format given : Option Format} {target : Path} (hsource : s.source = none)
    (h : s.target none format = .ok (target, given)) :
    ∃ home, s.locations.configHome = .ok home ∧ target = home.child defaultName ∧ given = format := by
  unfold Session.target at h
  rw [hsource] at h
  dsimp only at h
  cases hhome : s.locations.configHome with
  | error error =>
    rw [hhome] at h
    cases h
  | ok home =>
    rw [hhome] at h
    cases h
    exact ⟨home, rfl, rfl, rfl⟩

/-- The home of the configurations is searched first. -/
theorem exists_roots {l : Locations} {home : Path} (h : l.configHome = .ok home)
    (workingDirectory : Path) : ∃ rest, (l.roots workingDirectory).value = home :: rest := by
  rw [Locations.roots, h]
  simp [Locations.distinctPaths]

/-- The candidates ahead of the default file of a directory lie in that directory. -/
theorem exists_candidates_default (home : Path) (rest : List Path) :
    ∃ before after, candidates (home :: rest) = before ++ home.child defaultName :: after ∧
      ∀ q ∈ before, ∃ name ∈ candidateNames, name ≠ defaultName ∧ q = home.child name := by
  refine ⟨(candidateNames.take 6).map home.child,
    (candidateNames.drop 7).map home.child ++ candidates rest, rfl, ?_⟩
  intro q hq
  obtain ⟨name, hname, rfl⟩ := List.mem_map.mp hq
  refine ⟨name, List.mem_of_mem_take hname, ?_, rfl⟩
  rintro rfl
  exact absurd hname (by decide)

/-- What a session saves over a candidate is what a search finds. -/
theorem locate_of_replaced {roots : List Path} {refusals : Refusals} {p : Path} {disk : Disk}
    {format : Format} {c : Configuration} (hp : w.Replaceable roots p)
    (hstore : Storing.store refusals w.disk (w.absolute p) (format.encode c) = (disk, .ok ()))
    (hreadable : ∃ payload, disk.read (w.absolute p) = .ok payload)
    (hown : (format.decode (w.absolute p).text (format.encode c)).value = .ok c) :
    (({ w with disk } : World).locate roots [Format.json, .yaml]).value
      = .ok { configuration := c, path := p, format } := by
  have hmem := hp.mem
  obtain ⟨⟨content, hread⟩, before, after, hsplit, hbefore⟩ := hp
  obtain ⟨place, hlocate, hwrites⟩ := World.writes_over hmem hread hstore
  obtain ⟨payload, hpayload⟩ := hreadable
  obtain rfl := hwrites.read hlocate hpayload
  refine World.locate_of_written hsplit (fun q hq => ?_) hpayload hown
  obtain ⟨hstops, hplace⟩ := hbefore q hq
  have hsame : (({ w with disk } : World).tryRead q [Format.json, .yaml]).value
      = (w.tryRead q [Format.json, .yaml]).value :=
    World.tryRead_of_writes rfl hwrites (hlocate ▸ hplace)
  rw [World.stops_congr hsame, hstops]

/-- What a session saves to the default file is what a search finds. -/
theorem locate_of_default {rest : List Path} {refusals : Refusals} {home : Path} {disk : Disk}
    {format : Format} {c : Configuration} (htree : w.disk.IsTree)
    (hhome : w.disk.HasDirectory (w.absolute home) ∨ ".." ∉ (w.absolute home).names)
    (hpasses : ∀ q ∈ candidates (home :: rest), w.stops [Format.json, .yaml] q = false)
    (hstore : Storing.store refusals w.disk (w.absolute (home.child defaultName)) (format.encode c)
      = (disk, .ok ()))
    (hreadable : ∃ payload, disk.read (w.absolute (home.child defaultName)) = .ok payload)
    (hown : (format.decode (w.absolute (home.child defaultName)).text (format.encode c)).value
      = .ok c) :
    (({ w with disk } : World).locate (home :: rest) [Format.json, .yaml]).value
      = .ok { configuration := c, path := home.child defaultName, format } := by
  obtain ⟨between, place, -, hlocate, hwrites⟩ := Storing.store_eq_ok hstore
  obtain ⟨payload, hpayload⟩ := hreadable
  obtain rfl := hwrites.read hlocate hpayload
  obtain ⟨before, after, hsplit, hbefore⟩ := exists_candidates_default home rest
  refine World.locate_of_written hsplit (fun q hq => ?_) hpayload hown
  obtain ⟨name, hname, hne, rfl⟩ := hbefore q hq
  refine World.stops_ahead_of_default htree hhome hname hne (hpasses _ ?_) hstore
  rw [hsplit]
  exact List.mem_append_left _ hq

end Session

/-- A session that loads, is given a configuration and saves it without a path. What is written can
be read and is decoded by the format that wrote it. -/
structure SavingRun (s : Session) (w : World) where
  discardInvalid : Bool
  loaded : Loaded
  held : Session
  configuration : Configuration
  refusals : Refusals
  given : Option Format
  written : Path
  saved : Session
  world : World
  load_eq : (s.load w discardInvalid).value = (.ok loaded, held)
  save_eq : (({ held with configuration } : Session).save w refusals none given).value
    = (.ok written, saved, world)
  readable : ∃ payload, world.disk.read (world.absolute written) = .ok payload
  decoded : ∀ format, saved.format = some format →
    (format.decode (world.absolute written).text (format.encode configuration)).value
      = .ok configuration

namespace SavingRun

variable {s : Session} {w : World}

/-- Whether fresh sessions with the same locations load what was saved: from the file that was
written, in the same format, and with the hosts in normal form. -/
def IsFoundAgain (run : SavingRun s w) : Prop :=
  ∀ fresh : Session, fresh.locations = s.locations → fresh.formats = s.formats →
    ∀ discardInvalid, ∃ found : Session,
      (fresh.load run.world discardInvalid).value
        = (.ok (.adopted run.configuration.normalizeHosts.isValid), found) ∧
      found.configuration = run.configuration.normalizeHosts ∧
      found.source = some run.written ∧ found.format = run.saved.format ∧ found.format.isSome

/-- What was saved is found again. Where nothing was loaded the session must not keep the file of
an earlier load; and where the default file is written, its directory must be there already or
have a path without `..`, since making directories can open a way to one that was out of reach. -/
theorem isFoundAgain (run : SavingRun s w) (htree : w.disk.IsTree)
    (hformats : s.formats = [.json, .yaml]) (hnothing : run.loaded = .nothing → s.source = none)
    (hhome : ∀ home, run.held.source = none → s.locations.configHome = .ok home →
      w.disk.HasDirectory (w.absolute home) ∨ ".." ∉ (w.absolute home).names) :
    run.IsFoundAgain := by
  obtain ⟨discardInvalid, loaded, held, c, refusals, given, written, saved, w', hload, hsave,
    hreadable, hown⟩ := run
  obtain ⟨hsame, hsource⟩ := Session.load_source hformats hload hnothing
  obtain ⟨given', disk, htarget, rfl, rfl, hstore⟩ := Session.save_eq_ok hsave
  have hlocate : (({ w with disk } : World).locate
      (s.locations.roots w.workingDirectory).value [Format.json, .yaml]).value
        = .ok ⟨c, written, given'.getD (formatForPath written)⟩ := by
    obtain ⟨p, hp, hreplaceable⟩ | ⟨hnone, hpasses⟩ := hsource
    · obtain rfl := Session.target_of_source hp htarget
      exact Session.locate_of_replaced hreplaceable hstore hreadable (hown _ rfl)
    · obtain ⟨home, hconfigHome, rfl, -⟩ := Session.target_of_no_source hnone htarget
      rw [hsame] at hconfigHome
      obtain ⟨rest, hroots⟩ := Session.exists_roots hconfigHome w.workingDirectory
      rw [hroots] at hpasses ⊢
      exact Session.locate_of_default htree (hhome home hnone hconfigHome) hpasses hstore hreadable
        (hown _ rfl)
  intro fresh hlocations hfresh discardAgain
  have hreload : (fresh.load { w with disk } discardAgain).value
      = (.ok (.adopted c.normalizeHosts.isValid),
        (fresh.adopt ⟨c, written, given'.getD (formatForPath written)⟩).2) := by
    rw [Session.load_value, hlocations, hfresh, hformats, hlocate]
    rfl
  exact ⟨_, hreload, rfl, rfl, rfl, rfl⟩

end SavingRun

section Runs

/-- A session with nothing loaded, whose configurations are at home in a directory. -/
def sessionAt (home : String) : Session where
  locations :=
    { cwd := .ofText "/cwd", executable := .ofText "/bin/program", platform := defaultPlatform,
      environment := .ofList [(homeVariable, home)], userHome := "" }

/-- A file without contexts. -/
def emptyFile : Entry :=
  .file 0o600 [123, 34, 99, 111, 110, 116, 101, 120, 116, 115, 34, 58, 123, 125, 125]

def oneContext : Configuration := ⟨"main", .ofList [("main", { host := "new", token := "t" })]⟩

/-- What comes of saving in a session that finds nothing to load. -/
def savedAfterNothing (s : Session) (w : World) : Except Error Path × Session × World :=
  (({ (s.load w false).value.2 with configuration := oneContext } : Session).save w noRefusals
    none none).value

/-- The run of a session that finds nothing to load. -/
def SavingRun.afterNothing {s : Session} {w : World} (written : Path) (format : Format)
    (hload : (s.load w false).value.1 = .ok .nothing)
    (hsave : (savedAfterNothing s w).1 = .ok written)
    (hformat : (savedAfterNothing s w).2.1.format = some format)
    (hread : (savedAfterNothing s w).2.2.disk.read ((savedAfterNothing s w).2.2.absolute written)
      = .ok (format.encode oneContext))
    (hdecoded : (format.decode ((savedAfterNothing s w).2.2.absolute written).text
      (format.encode oneContext)).value = .ok oneContext) : SavingRun s w where
  discardInvalid := false
  loaded := .nothing
  held := (s.load w false).value.2
  configuration := oneContext
  refusals := noRefusals
  given := none
  written := written
  saved := (savedAfterNothing s w).2.1
  world := (savedAfterNothing s w).2.2
  load_eq := Prod.ext hload rfl
  save_eq := Prod.ext hsave rfl
  readable := ⟨_, hread⟩
  decoded := by
    intro other hother
    rw [hformat] at hother
    cases hother
    exact hdecoded

/-- An empty home. -/
def emptyHome : World where
  disk := ⟨[(["cwd"], .directory), (["home"], .directory)], []⟩
  workingDirectory := .ofText "/cwd"

def emptyHomeRun : SavingRun (sessionAt "/home") emptyHome :=
  .afterNothing (.ofText "/home/lenses-cli.yml") .yaml (by decide +kernel) (by decide +kernel)
    (by decide +kernel) (by decide +kernel) (by decide +kernel)

theorem isFoundAgain_emptyHome :
    emptyHome.disk.IsTree ∧ (sessionAt "/home").source = none ∧
      emptyHome.disk.HasDirectory (emptyHome.absolute (.ofText "/home")) ∧
      emptyHomeRun.IsFoundAgain := by
  have htree : emptyHome.disk.IsTree := by decide +kernel
  have hdirectory : emptyHome.disk.HasDirectory (emptyHome.absolute (.ofText "/home")) := by
    decide +kernel
  have hconfigHome : (sessionAt "/home").locations.configHome = .ok (.ofText "/home") := by
    decide +kernel
  refine ⟨htree, rfl, hdirectory, emptyHomeRun.isFoundAgain htree rfl (fun _ => rfl) ?_⟩
  intro home _ hhome
  rw [hconfigHome] at hhome
  cases hhome
  exact .inl hdirectory

/-- A file that is no candidate beside an empty home. -/
def fileElsewhere : World where
  disk := ⟨[(["cwd"], .directory), (["home"], .directory), (["other"], .directory),
    (["other", "main.json"], emptyFile)], []⟩
  workingDirectory := .ofText "/cwd"

/-- A session that was told to load that file. -/
def sessionElsewhere : Session :=
  ((sessionAt "/home").loadFile fileElsewhere (.ofText "/other/main.json")).value.2

/-- The session finds nothing when it loads and still saves to the file it had before. -/
def elsewhereRun : SavingRun sessionElsewhere fileElsewhere :=
  .afterNothing (.ofText "/other/main.json") .json (by decide +kernel) (by decide +kernel)
    (by decide +kernel) (by decide +kernel) (by decide +kernel)

/-- A home that is reached by way of a directory that is missing. -/
def detour : World where
  disk := ⟨[(["cwd"], .directory), (["b"], .directory), (["b", "lenses.yml"], emptyFile)], []⟩
  workingDirectory := .ofText "/cwd"

/-- Saving makes the missing directory, and with it a candidate comes into reach. -/
def detourRun : SavingRun (sessionAt "/missing/../b") detour :=
  .afterNothing (.ofText "/missing/../b/lenses-cli.yml") .yaml (by decide +kernel)
    (by decide +kernel) (by decide +kernel) (by decide +kernel) (by decide +kernel)

/-- Neither a file of an earlier load nor a home behind a missing directory is found again. -/
theorem not_isFoundAgain :
    (fileElsewhere.disk.IsTree ∧ sessionElsewhere.formats = [.json, .yaml] ∧
      ¬ elsewhereRun.IsFoundAgain) ∧
    detour.disk.IsTree ∧ (sessionAt "/missing/../b").formats = [.json, .yaml] ∧
      (sessionAt "/missing/../b").source = none ∧ ¬ detourRun.IsFoundAgain := by
  refine ⟨⟨by decide +kernel, rfl, ?_⟩, by decide +kernel, rfl, rfl, ?_⟩
  · intro h
    obtain ⟨found, hload, -⟩ := h (sessionAt "/home") rfl rfl false
    have hnothing : ((sessionAt "/home").load elsewhereRun.world false).value.1 = .ok .nothing := by
      decide +kernel
    rw [hload] at hnothing
    cases hnothing
  · intro h
    obtain ⟨found, hload, -, hsource, -⟩ := h (sessionAt "/missing/../b") rfl rfl false
    have hother : ((sessionAt "/missing/../b").load detourRun.world false).value.2.source
        = some (.ofText "/missing/../b/lenses.yml") := by
      decide +kernel
    have hne : Path.ofText "/missing/../b/lenses.yml" ≠ detourRun.written := by decide +kernel
    rw [hload, hsource] at hother
    exact hne (Option.some.inj hother).symm

end Runs

end ContextConfig
