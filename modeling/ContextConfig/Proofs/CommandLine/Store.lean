import ContextConfig.Proofs.CommandLine.Plan
import ContextConfig.Proofs.Consistency
import ContextConfig.Proofs.Saving
/-!
# Invocations store consistent configurations

Whatever is planned to be saved is consistent if what was loaded is. So from a tree without a
configuration file, invocations come to trees with a consistent one: the file that one of them
writes is the one that the next one loads.
-/

namespace ContextConfig.CommandLine

section Plans

variable {s s' : Session} {overrides : List Layer} {text : Path → String}

/-- A session with another configuration, which is consistent if the one before was. -/
def KeepsConsistent (s s' : Session) : Prop :=
  s.configuration.Consistent → ∃ c, c.Consistent ∧ s' = { s with configuration := c }

namespace KeepsConsistent

theorem refl (s : Session) : KeepsConsistent s s := fun h => ⟨_, h, rfl⟩

theorem trans {s'' : Session} (h : KeepsConsistent s s') (h' : KeepsConsistent s' s'') :
    KeepsConsistent s s'' := by
  intro hs
  obtain ⟨c, hc, rfl⟩ := h hs
  exact h' hc

theorem of_planUseContext {name : String} (h : (planUseContext s name).value = .save s' text) :
    KeepsConsistent s s' := by
  obtain hfails | ⟨hname, hplan⟩ := planUseContext_cases s name
  · rw [h] at hfails
    exact hfails.elim
  · rw [hplan] at h
    cases h
    exact fun hs => ⟨_, hs.setCurrent hname, rfl⟩

theorem of_planRemoveContext {name : String}
    (h : (planRemoveContext s name).value = .save s' text) : KeepsConsistent s s' := by
  obtain hfails | ⟨hremoved, hplan⟩ := planRemoveContext_cases s name
  · rw [h] at hfails
    exact hfails.elim
  · rw [hplan] at h
    cases h
    exact fun hs => ⟨_, hs.removeContext hremoved, rfl⟩

theorem of_planClearTokens (h : planClearTokens s = .save s' text) : KeepsConsistent s s' := by
  cases h
  exact fun hs => ⟨_, hs.removeTokens, rfl⟩

theorem of_planConfigure {context : String} {given : List Given}
    (h : (planConfigure s overrides context given).value = .save s' text) :
    KeepsConsistent s s' := by
  obtain hfails | ⟨settings, changed, client, -, hfill, hclient, hcheck, htimeout, hplan⟩ :=
    planConfigure_cases s overrides context given
  · rw [h] at hfails
    exact hfails.elim
  rw [hplan] at h
  cases h
  have hchanges :=
    (stage s.configuration context).fillLayers_changes (overrides ++ [⟨"configure", settings⟩])
  rw [hfill] at hchanges
  have hstaged : (stage s.configuration context).contexts = s.configuration.contexts := rfl
  have hname : (stage s.configuration context).current ≠ "" := s.configuration.nameFor_ne context
  exact fun hs => ⟨_, hs.commit hstaged hname hchanges hcheck hclient htimeout, rfl⟩

/-- A command that saves keeps consistent what it was given. -/
theorem of_request {r : Request} (h : (r.plan s overrides).value = .save s' text) :
    KeepsConsistent s s' := by
  cases r with
  | info => cases h
  | contexts indent =>
    rw [Request.plan] at h
    cases h
  | context indent => cases h
  | useContext name => exact of_planUseContext h
  | removeContext name => exact of_planRemoveContext h
  | configure context given => exact of_planConfigure h
  | clearTokens => exact of_planClearTokens h

theorem of_selectContext {name : String} (h : (selectContext s name).value = (.ok (), s')) :
    KeepsConsistent s s' := by
  obtain ⟨rfl, hstored⟩ := selectContext_eq_ok h
  rw [Configuration.select]
  split
  · exact .refl s
  · rename_i hname
    exact fun hs => ⟨_, hs.setCurrent (hstored hname), rfl⟩

end KeepsConsistent

/-- What is planned to be saved comes from what was loaded. -/
theorem plan_eq_save {p : Program} {w : World} {args : List String}
    (h : (plan p w args).value = .save s' text) :
    ∃ discardInvalid loaded s, ((startSession p w).load w discardInvalid).value = (.ok loaded, s) ∧
      KeepsConsistent s s' := by
  obtain ⟨i, s, overrides, r, hprepare, hrequest⟩ := exists_request_of_save h
  obtain ⟨loaded, held, flags, hload, hselect, -, -⟩ := prepare_eq_ok_iff.mp hprepare
  have hselected : KeepsConsistent held s := .of_selectContext hselect
  exact ⟨_, loaded, held, hload, hselected.trans (.of_request hrequest)⟩

end Plans

section Trees

/-- The directories that an invocation searches. -/
def searchRoots (p : Program) (w : World) : List Path :=
  ((startSession p w).locations.roots w.workingDirectory).value

/-- No candidate that an invocation looks for is known to be a file. -/
def Vacant (p : Program) (w : World) : Prop :=
  ∀ q ∈ candidates (searchRoots p w), w.disk.isFile (w.absolute q) = false

/-- An invocation finds a file with a consistent configuration. -/
def StoresConsistent (p : Program) (w : World) : Prop :=
  ∃ located, (w.locate (searchRoots p w) [Format.json, .yaml]).value = .ok located ∧
    located.configuration.Consistent

/-- No file operation failed in saving a configuration, and what was written can be read and is
decoded by the format that wrote it. -/
def SavedWell (c : Configuration) : Except Error Path × Session × World → Prop
  | (.ok path, saved, w) =>
    (∃ payload, w.disk.read (w.absolute path) = .ok payload) ∧ ∀ format ∈ saved.format,
      (format.decode (w.absolute path).text (format.encode c)).value = .ok c
  | (.error (.system ..), _, _) => False
  | (.error _, _, _) => True

def Plan.SavesWell (p : Program) (w : World) : Plan → Prop
  | finish _ => True
  | save s _ => SavedWell s.configuration (s.save w p.refusals none none).value

/-- The worlds that invocations of a program come to, as long as they save well. -/
inductive Reaches (p : Program) (w : World) : World → Prop where
  | start : Reaches p w w
  | invoke {w' : World} (before : Reaches p w w') (args : List String)
      (well : (plan p w' args).value.SavesWell p w') : Reaches p w (run p w' args).value.2

variable {p : Program} {w w' : World}

theorem run_of_save {s : Session} {text : Path → String} (h : (Plan.save s text).SavesWell p w) :
    ((Plan.save s text).run p w).value.2 = w ∨
      ∃ path saved w', (s.save w p.refusals none none).value = (.ok path, saved, w') ∧
        ((Plan.save s text).run p w).value.2 = w' ∧
        SavedWell s.configuration (.ok path, saved, w') := by
  rw [Plan.SavesWell] at h
  rw [Plan.run, Logged.bind_value]
  obtain ⟨⟨result, saved, w'⟩, hsave⟩ : ∃ r, (s.save w p.refusals none none).value = r := ⟨_, rfl⟩
  rw [hsave] at h ⊢
  cases result with
  | ok path => exact .inr ⟨path, saved, w', rfl, rfl, h⟩
  | error error =>
    obtain ⟨-, disk, -, -, hsame⟩ := Session.save_eq_error hsave
    refine .inl (hsame fun errno path herror => ?_)
    rw [herror] at h
    exact h

/-- Where no candidate is known to be a file, loading gives no configuration: nothing is found, or
what cannot be checked is discarded. -/
theorem configuration_of_vacant {discardInvalid : Bool} {loaded : Loaded} {s : Session}
    (h : Vacant p w)
    (hload : ((startSession p w).load w discardInvalid).value = (.ok loaded, s)) :
    s.configuration = .empty := by
  rw [Session.load_value] at hload
  cases hlocate : (w.locate ((startSession p w).locations.roots w.workingDirectory).value
      (startSession p w).formats).value with
  | ok located =>
    obtain ⟨hfind, -⟩ := World.found_of_locate hlocate
    have hstops := List.find?_some hfind
    rw [World.stops_of_not_isFile (h _ (List.mem_of_find?_eq_some hfind))] at hstops
    cases hstops
  | error error =>
    rw [hlocate] at hload
    cases error with
    | missing what =>
      cases hload
      rfl
    | format error =>
      cases discardInvalid with
      | false => cases hload
      | true =>
        cases hload
        rfl
    | system errno path => cases hload
    | invalid why => cases hload
    | fault fault => cases hload

theorem load_of_located {located : Located}
    (h : (w.locate (searchRoots p w) [Format.json, .yaml]).value = .ok located)
    (discardInvalid : Bool) :
    ((startSession p w).load w discardInvalid).value
      = (.ok ((startSession p w).adopt located).1, ((startSession p w).adopt located).2) := by
  have hlocate : (w.locate ((startSession p w).locations.roots w.workingDirectory).value
      (startSession p w).formats).value = .ok located := h
  rw [Session.load_value, hlocate]

/-- Where the home of the configurations is does not depend on the tree. -/
theorem configHome_startSession (p : Program) (w w' : World) :
    (startSession p w').locations.configHome = (startSession p w).locations.configHome := rfl

/-- What is searched depends on which paths are those of files. -/
theorem searchRoots_congr {disk : Disk} (h : ∀ q, disk.isFile q = w.disk.isFile q) :
    searchRoots p { w with disk } = searchRoots p w := by
  simp only [searchRoots, startSession, defaultExecutable, h]

/-- The default file can be written without opening a way to a file that was out of reach: its
directory is there already, or has a path without `..`. -/
def HomeInReach (p : Program) (w : World) : Prop :=
  ∀ home, (startSession p w).locations.configHome = .ok home →
    w.disk.HasDirectory (w.absolute home) ∨ ".." ∉ (w.absolute home).names

/-- What is saved in place of what was loaded is what the next search finds. Where no file was
there to be replaced it is the default file. -/
theorem locate_of_saved {discardInvalid : Bool} {loaded : Loaded} {s saved : Session}
    {c : Configuration} {path : Path}
    (hload : ((startSession p w).load w discardInvalid).value = (.ok loaded, s))
    (hhome : s.source = none → w.disk.IsTree ∧ HomeInReach p w)
    (hsave : (({ s with configuration := c } : Session).save w p.refusals none none).value
      = (.ok path, saved, w'))
    (hwell : SavedWell c (.ok path, saved, w')) :
    ∃ format, saved.format = some format ∧
      (w'.locate (searchRoots p w') [Format.json, .yaml]).value = .ok ⟨c, path, format⟩ := by
  obtain ⟨hlocations, hsource⟩ := Session.load_source rfl hload fun _ => rfl
  obtain ⟨given, disk, htarget, rfl, rfl, hstore⟩ := Session.save_eq_ok hsave
  obtain ⟨hreadable, hown⟩ := hwell
  have hown := hown _ rfl
  refine ⟨_, rfl, ?_⟩
  generalize given.getD (formatForPath path) = format at hstore hown
  obtain ⟨q, hq, hreplaceable⟩ | ⟨hnone, hpasses⟩ := hsource
  · obtain rfl := Session.target_of_source hq htarget
    have hfound := Session.locate_of_replaced hreplaceable hstore hreadable hown
    -- Which paths lead to files is as before, so the same directories are searched.
    obtain ⟨content, hread⟩ := hreplaceable.read
    obtain ⟨place, hplace, hwrites⟩ := World.writes_over hreplaceable.mem hread hstore
    have hfile : w.disk.isFileAt place = true := by
      rw [← Disk.isFile_of_locate hplace]
      exact World.isFile_of_read hread
    rw [searchRoots_congr (hwrites.isFile hfile)]
    exact hfound
  · obtain ⟨htree, hreach⟩ := hhome hnone
    obtain ⟨home, hconfigHome, rfl, -⟩ := Session.target_of_no_source hnone htarget
    rw [hlocations] at hconfigHome
    obtain ⟨rest, hroots⟩ := Session.exists_roots hconfigHome w.workingDirectory
    -- Whether the program itself is found can change with the tree, and with it the other roots.
    obtain ⟨rest', hroots'⟩ := Session.exists_roots
      ((configHome_startSession p w { w with disk }).trans hconfigHome) w.workingDirectory
    have hpassesHome : ∀ q ∈ candidates [home], w.stops [Format.json, .yaml] q = false := by
      intro q hq
      apply hpasses
      rw [hroots]
      obtain ⟨root, hroot, hpath⟩ := List.mem_flatMap.mp hq
      rw [List.mem_singleton.mp hroot] at hpath
      exact List.mem_flatMap.mpr ⟨home, List.mem_cons_self, hpath⟩
    have hlocate := Session.locate_of_default htree (hreach home hconfigHome) hpassesHome hstore
      hreadable hown
    rw [searchRoots, hroots']
    exact World.locate_append hlocate rest'

theorem run_of_vacant (htree : w.disk.IsTree) (hvacant : Vacant p w) (hhome : HomeInReach p w)
    {args : List String} (hwell : (plan p w args).value.SavesWell p w) :
    (run p w args).value.2 = w ∨ StoresConsistent p (run p w args).value.2 := by
  rw [run_value]
  cases hplan : (plan p w args).value with
  | finish outcome => exact .inl rfl
  | save s text =>
    obtain ⟨discardInvalid, loaded, s₀, hload, hkeeps⟩ := plan_eq_save hplan
    have hempty := configuration_of_vacant hvacant hload
    obtain ⟨c, hc, rfl⟩ := hkeeps (by rw [hempty]; exact .empty)
    rw [hplan] at hwell
    obtain hsame | ⟨path, saved, w', hsave, hrun, hsaved⟩ := run_of_save hwell
    · exact .inl hsame
    · obtain ⟨format, -, hlocate⟩ := locate_of_saved hload (fun _ => ⟨htree, hhome⟩) hsave hsaved
      rw [hrun]
      exact .inr ⟨_, hlocate, hc⟩

theorem run_of_storesConsistent (h : StoresConsistent p w) {args : List String}
    (hwell : (plan p w args).value.SavesWell p w) :
    StoresConsistent p (run p w args).value.2 := by
  rw [run_value]
  cases hplan : (plan p w args).value with
  | finish outcome => exact h
  | save s text =>
    obtain ⟨located, hlocate, hlocated⟩ := id h
    obtain ⟨discardInvalid, loaded, s₀, hload, hkeeps⟩ := plan_eq_save hplan
    have hadopt := load_of_located hlocate discardInvalid
    rw [hload] at hadopt
    cases hadopt
    have hadopted : ((startSession p w).adopt located).2.configuration = located.configuration :=
      hlocated.normalizeHosts_eq
    obtain ⟨c, hc, rfl⟩ := hkeeps (by rw [hadopted]; exact hlocated)
    rw [hplan] at hwell
    obtain hsame | ⟨path, saved, w', hsave, hrun, hsaved⟩ := run_of_save hwell
    · rw [hsame]
      exact h
    · have hsource : ((startSession p w).adopt located).2.source ≠ none := Option.some_ne_none _
      obtain ⟨format, -, hfound⟩ :=
        locate_of_saved hload (fun hnone => absurd hnone hsource) hsave hsaved
      rw [hrun]
      exact ⟨_, hfound, hc⟩

/-- From a tree in which no candidate is a file, invocations that save well come to trees in which
none is one, or in which a search finds a consistent configuration. The home of the configurations
must be there already or have a path without `..`: making its directories could bring a file into
reach that was there before. -/
theorem vacant_or_storesConsistent (p : Program) (w w' : World) (htree : w.disk.IsTree)
    (hvacant : Vacant p w)
    (hhome : ∀ home, (startSession p w).locations.configHome = .ok home →
      w.disk.HasDirectory (w.absolute home) ∨ ".." ∉ (w.absolute home).names)
    (h : Reaches p w w') : Vacant p w' ∨ StoresConsistent p w' := by
  suffices hreaches : w' = w ∨ StoresConsistent p w' by
    refine hreaches.imp_left fun hsame => ?_
    rw [hsame]
    exact hvacant
  induction h with
  | start => exact .inl rfl
  | invoke before args hwell ih =>
    obtain rfl | hstores := ih
    · exact run_of_vacant htree hvacant hhome hwell
    · exact .inr (run_of_storesConsistent hstores hwell)

end Trees

section Runs

instance decidableVacant (p : Program) (w : World) : Decidable (Vacant p w) :=
  inferInstanceAs (Decidable (∀ q ∈ _, _ = false))

instance decidableExistsOk {ε α : Type} : (x : Except ε α) → Decidable (∃ a, x = .ok a)
  | .ok a => isTrue ⟨a, rfl⟩
  | .error _ => isFalse nofun

instance decidableSavedWell (c : Configuration) :
    (result : Except Error Path × Session × World) → Decidable (SavedWell c result)
  | (.ok path, saved, w) => inferInstanceAs (Decidable
      ((∃ payload, w.disk.read (w.absolute path) = .ok payload) ∧ ∀ format ∈ saved.format,
        (format.decode (w.absolute path).text (format.encode c)).value = .ok c))
  | (.error (.system ..), _, _) => isFalse id
  | (.error (.missing _), _, _) | (.error (.format _), _, _) | (.error (.invalid _), _, _)
  | (.error (.fault _), _, _) => isTrue trivial

instance decidableSavesWell (p : Program) (w : World) :
    (plan : Plan) → Decidable (plan.SavesWell p w)
  | .finish _ => isTrue trivial
  | .save s _ => decidableSavedWell s.configuration (s.save w p.refusals none none).value

/-- A program that has its configurations in a directory. -/
def programAt (home : String) : Program where
  environment := .ofList [(homeVariable, home)]
  interpreter := .ofText "/bin/program"

/-- An empty home in which a context was configured. -/
def configuredHome : World :=
  (run (programAt "/home") emptyHome ["configure", "--host", "a", "--token", "t"]).value.2

/-- The same home after the tokens were removed again. -/
def clearedHome : World := (run (programAt "/home") configuredHome ["clear-tokens"]).value.2

theorem storesConsistent_clearedHome :
    emptyHome.disk.IsTree ∧ Vacant (programAt "/home") emptyHome ∧
      emptyHome.disk.HasDirectory (emptyHome.absolute (.ofText "/home")) ∧
      Reaches (programAt "/home") emptyHome clearedHome ∧
      (Vacant (programAt "/home") clearedHome ∨ StoresConsistent (programAt "/home") clearedHome) := by
  have htree : emptyHome.disk.IsTree := by decide +kernel
  have hvacant : Vacant (programAt "/home") emptyHome := by decide +kernel
  have hdirectory : emptyHome.disk.HasDirectory (emptyHome.absolute (.ofText "/home")) := by
    decide +kernel
  have hconfigured : Reaches (programAt "/home") emptyHome configuredHome :=
    .invoke .start ["configure", "--host", "a", "--token", "t"] (by decide +kernel)
  have hreaches : Reaches (programAt "/home") emptyHome clearedHome :=
    .invoke hconfigured ["clear-tokens"] (by decide +kernel)
  have hconfigHome : (startSession (programAt "/home") emptyHome).locations.configHome
      = .ok (.ofText "/home") := by decide +kernel
  refine ⟨htree, hvacant, hdirectory, hreaches,
    vacant_or_storesConsistent (programAt "/home") emptyHome clearedHome htree hvacant ?_ hreaches⟩
  intro home hhome
  rw [hconfigHome] at hhome
  cases hhome
  exact .inl hdirectory

/-- A context without a name, in a home that is reached by way of a directory that is missing. -/
def namelessDetour : World where
  disk := ⟨[(["cwd"], .directory), (["b"], .directory), (["b", "lenses.yml"], .file 0o600
    [123, 34, 99, 111, 110, 116, 101, 120, 116, 115, 34, 58, 123, 34, 34, 58, 123, 125, 125, 125])],
    []⟩
  workingDirectory := .ofText "/cwd"

/-- The tree after a first configuration was saved there. -/
def openedDetour : World :=
  (run (programAt "/missing/../b") namelessDetour ["clear-tokens"]).value.2

/-- Saving makes the missing directory, and then the search finds the context without a name. -/
theorem not_storesConsistent_openedDetour :
    namelessDetour.disk.IsTree ∧ Vacant (programAt "/missing/../b") namelessDetour ∧
      Reaches (programAt "/missing/../b") namelessDetour openedDetour ∧
      ¬ (Vacant (programAt "/missing/../b") openedDetour ∨
        StoresConsistent (programAt "/missing/../b") openedDetour) := by
  refine ⟨by decide +kernel, by decide +kernel,
    .invoke .start ["clear-tokens"] (by decide +kernel), ?_⟩
  have hlocate : (openedDetour.locate (searchRoots (programAt "/missing/../b") openedDetour)
      [Format.json, .yaml]).value
        = .ok ⟨⟨"", .ofList [("", {})]⟩, .ofText "/missing/../b/lenses.yml", .json⟩ := by
    decide +kernel
  rintro (hvacant | ⟨located, hfound, hconsistent⟩)
  · exact absurd hvacant (by decide +kernel)
  · rw [hlocate] at hfound
    cases hfound
    exact hconsistent.names (by decide +kernel)

end Runs

end ContextConfig.CommandLine
