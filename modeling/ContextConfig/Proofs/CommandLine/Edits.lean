import ContextConfig.Proofs.CommandLine.Settings
import ContextConfig.Proofs.CommandLine.Store
/-!
# Commands that change the stored configuration

Selecting a context, removing one and clearing the tokens are changes of a configuration. The
commands of these names apply them to the configuration that is found and write the result to the
file where it was found, in its format. The options in front of a command count as far as they
select a context; what they say about the connection is not written.
-/

namespace ContextConfig.CommandLine

/-- The change that a request makes to the configuration, if that is all it does. -/
def Request.edit? : Request → Option (Configuration → Configuration)
  | useContext name => some fun c => c.setCurrent name
  | removeContext name => some fun c => (c.removeContext name).2
  | clearTokens => some Configuration.removeTokens
  | _ => none

section Plans

variable {r : Request} {edit : Configuration → Configuration}

theorem plan_edit_cases (h : r.edit? = some edit) (s : Session) (overrides : List Layer) :
    (r.plan s overrides).value.Fails ∨ ∃ text, (r.plan s overrides).value
      = .save { s with configuration := edit s.configuration } text := by
  cases r with
  | useContext name =>
    cases h
    exact (planUseContext_cases s name).imp_right fun hplan => ⟨_, hplan.2⟩
  | removeContext name =>
    cases h
    exact (planRemoveContext_cases s name).imp_right fun hplan => ⟨_, hplan.2⟩
  | clearTokens =>
    cases h
    exact .inr ⟨_, rfl⟩
  | _ => cases h

/-- The settings in front of such a command do not matter to it. -/
theorem plan_edit_congr (h : r.edit? = some edit) (s : Session) (overrides others : List Layer) :
    r.plan s overrides = r.plan s others := by
  cases r with
  | useContext name => rfl
  | removeContext name => rfl
  | clearTokens => rfl
  | _ => cases h

end Plans

section Found

variable {p : Program} {w : World} {located : Located} {args : List String} {i : Invocation}
  {r : Request}

/-- The session in which a configuration that was found is loaded and a context is selected. -/
def sessionOn (p : Program) (w : World) (located : Located) (name : String) : Session :=
  { ((startSession p w).adopt located).2 with
    configuration := located.configuration.normalizeHosts.select name }

theorem prepare_of_located {s : Session} {overrides : List Layer}
    (hlocate : (w.locate (searchRoots p w) [Format.json, .yaml]).value = .ok located)
    (hprepare : (i.prepare p w).value = .ok (s, overrides)) :
    s = sessionOn p w located (textOf .context i.given) ∧
      ∃ flags, settingsFor s.configuration i.given = .ok flags ∧ overrides = [⟨"flags", flags⟩] := by
  obtain ⟨loaded, held, flags, hload, hselect, hflags, hoverrides⟩ := prepare_eq_ok_iff.mp hprepare
  rw [load_of_located hlocate] at hload
  cases hload
  exact ⟨(selectContext_eq_ok hselect).1, flags, hflags, hoverrides⟩

/-- Without options in front of it a command starts from what was found. -/
theorem prepare_of_no_options
    (hlocate : (w.locate (searchRoots p w) [Format.json, .yaml]).value = .ok located)
    (command : Command) (arguments : List String) :
    ∃ flags, settingsFor located.configuration.normalizeHosts [] = .ok flags ∧
      ((⟨[], command, arguments⟩ : Invocation).prepare p w).value
        = .ok (((startSession p w).adopt located).2, [⟨"flags", flags⟩]) := by
  obtain ⟨flags, hflags⟩ := (exists_settingsFor_iff (c := located.configuration.normalizeHosts)).mpr
    ⟨none, (rfl : credentials [] = .ok none)⟩
  refine ⟨flags, hflags, prepare_eq_ok_iff.mpr ?_⟩
  exact ⟨_, _, flags, load_of_located hlocate _, rfl, hflags, rfl⟩

/-- What is prepared depends on the options through the context they name and the settings they
describe. -/
theorem prepare_congr {i' : Invocation} {s : Session} {overrides : List Layer}
    (hprepare : (i.prepare p w).value = .ok (s, overrides)) (hcommand : i'.command = i.command)
    (hcontext : textOf .context i'.given = textOf .context i.given)
    (hgiven : ∃ a, credentials i'.given = .ok a) :
    ∃ others, (i'.prepare p w).value = .ok (s, others) := by
  obtain ⟨loaded, held, -, hload, hselect, -, -⟩ := prepare_eq_ok_iff.mp hprepare
  obtain ⟨flags, hflags⟩ := exists_settingsFor_iff.mpr hgiven
  rw [← hcommand] at hload
  rw [← hcontext] at hselect
  exact ⟨_, prepare_eq_ok_iff.mpr ⟨loaded, held, flags, hload, hselect, hflags, rfl⟩⟩

/-- The file where a configuration was found is one of those that are looked for, and can be read. -/
theorem candidate_of_located
    (hlocate : (w.locate (searchRoots p w) [Format.json, .yaml]).value = .ok located) :
    located.path ∈ candidates (searchRoots p w) ∧
      ∃ payload, w.disk.read (w.absolute located.path) = .ok payload := by
  obtain ⟨hread, before, after, hsplit, -⟩ :=
    World.replaceable_of_stops (World.found_of_locate hlocate).1
  rw [hsplit]
  exact ⟨List.mem_append_right _ List.mem_cons_self, hread⟩

/-- Saving over the file where a configuration was found succeeds unless a step is refused. -/
theorem exitCode_of_replaced {c : Configuration} {text : Path → String}
    (hlocate : (w.locate (searchRoots p w) [Format.json, .yaml]).value = .ok located)
    (hrefusals : p.refusals = noRefusals)
    (hplan : (plan p w args).value
      = .save { ((startSession p w).adopt located).2 with configuration := c } text) :
    (run p w args).value.1.exitCode = 0 := by
  obtain ⟨hmem, payload, hread⟩ := candidate_of_located hlocate
  obtain ⟨disk, hstore⟩ := World.exists_store_over hmem hread (located.format.encode c)
  rw [run_value, hplan, Plan.run, Logged.bind_value, hrefusals, Session.save_of_store rfl hstore]
  rfl

/-- Saving another configuration writes it to the file where the present one was found. -/
theorem run_of_replaced {c : Configuration} {text : Path → String}
    (hlocate : (w.locate (searchRoots p w) [Format.json, .yaml]).value = .ok located)
    (hplan : (plan p w args).value
      = .save { ((startSession p w).adopt located).2 with configuration := c } text)
    (hexit : (run p w args).value.1.exitCode = 0) :
    ∃ place disk, w.disk.locate (w.absolute located.path) = .ok place ∧
      Storing.Writes w.disk disk place (located.format.encode c) ∧
      disk.read (w.absolute located.path) = .ok (located.format.encode c) ∧
      (run p w args).value = (.printed (text located.path ++ "\n"), { w with disk }) := by
  obtain ⟨path, saved, w', hsave, hrun⟩ := exists_save_of_exitCode hplan hexit
  obtain ⟨given, disk, htarget, rfl, rfl, hstore⟩ := Session.save_eq_ok hsave
  cases htarget
  obtain ⟨hmem, content, hread⟩ := candidate_of_located hlocate
  obtain ⟨place, hplace, hwrites⟩ := World.writes_over hmem hread hstore
  exact ⟨place, disk, hplace, hwrites, hwrites.read_over hplace hread, hrun⟩

/-- What was saved over the file where a configuration was found is found there by the next search,
if the format reads what it writes. -/
theorem locate_of_run {c : Configuration} {text : Path → String} {output : String} {disk : Disk}
    (hlocate : (w.locate (searchRoots p w) [Format.json, .yaml]).value = .ok located)
    (hplan : (plan p w args).value
      = .save { ((startSession p w).adopt located).2 with configuration := c } text)
    (hrun : (run p w args).value = (.printed output, { w with disk }))
    (hread : disk.read (w.absolute located.path) = .ok (located.format.encode c))
    (hown : (located.format.decode (w.absolute located.path).text (located.format.encode c)).value
      = .ok c) :
    (({ w with disk } : World).locate (searchRoots p { w with disk }) [Format.json, .yaml]).value
      = .ok ⟨c, located.path, located.format⟩ := by
  obtain ⟨path, saved, w', hsave, hsaved⟩ := exists_save_of_exitCode hplan (by rw [hrun]; rfl)
  rw [hsaved] at hrun
  cases hrun
  obtain ⟨given, disk', htarget, rfl, -, -⟩ := Session.save_eq_ok hsave
  cases htarget
  have hdecoded : ∀ format ∈ some located.format, (format.decode (w.absolute located.path).text
      (format.encode c)).value = .ok c := by
    intro format hformat
    cases hformat
    exact hown
  obtain ⟨format, hformat, hfound⟩ := locate_of_saved (load_of_located hlocate false)
    (fun hnone => absurd hnone (Option.some_ne_none _)) hsave ⟨⟨_, hread⟩, hdecoded⟩
  cases hformat
  exact hfound

end Found

/-- A change is written to the file where the configuration was found, in its format, after the
hosts are normalised and a context is selected if the options name one; nothing else in the tree
changes. Every other invocation of the same command that names the same context in its options
succeeds as well, unless its options contradict each other, and does the same. -/
theorem run_edits {p : Program} {w : World} {located : Located} {args : List String}
    {i : Invocation} {r : Request} {edit : Configuration → Configuration}
    (hlocate : (w.locate (searchRoots p w) [Format.json, .yaml]).value = .ok located)
    (hargs : parse args = .proceed i) (hrequest : i.command.parse i.arguments = .proceed r)
    (hedit : r.edit? = some edit) (hexit : (run p w args).value.1.exitCode = 0) :
    (∃ place disk text, w.disk.locate (w.absolute located.path) = .ok place ∧
      Storing.Writes w.disk disk place (located.format.encode
        (edit (located.configuration.normalizeHosts.select (textOf .context i.given)))) ∧
      disk.read (w.absolute located.path) = .ok (located.format.encode
        (edit (located.configuration.normalizeHosts.select (textOf .context i.given)))) ∧
      (run p w args).value = (.printed text, { w with disk })) ∧
    ∀ args' i', parse args' = .proceed i' → i'.command = i.command → i'.arguments = i.arguments →
      textOf .context i'.given = textOf .context i.given →
      ((run p w args').value.1.exitCode = 0 ↔ ∃ a, credentials i'.given = .ok a) ∧
      ((run p w args').value.1.exitCode = 0 → (run p w args').value = (run p w args).value) := by
  obtain ⟨s, overrides, hprepare, hplan⟩ := exists_prepare hargs hrequest hexit
  obtain ⟨rfl, flags, hflags, -⟩ := prepare_of_located hlocate hprepare
  constructor
  · obtain hfails | ⟨text, hsave⟩ :=
      plan_edit_cases hedit (sessionOn p w located (textOf .context i.given)) overrides
    · rw [← hplan] at hfails
      exact absurd hexit (hfails.exitCode p w)
    · obtain ⟨place, disk, hplace, hwrites, hread, hrun⟩ :=
        run_of_replaced hlocate (hplan.trans hsave) hexit
      exact ⟨place, disk, _, hplace, hwrites, hread, hrun⟩
  · intro args' i' hargs' hcommand harguments hcontext
    have hrequest' : i'.command.parse i'.arguments = .proceed r := by
      rw [hcommand, harguments, hrequest]
    -- The other invocation comes to the same session, and only the session decides what is planned.
    have hsame : (∃ a, credentials i'.given = .ok a) → (run p w args').value = (run p w args).value := by
      intro hgiven
      obtain ⟨others, hprepare'⟩ := prepare_congr hprepare hcommand hcontext hgiven
      have hplan' : (plan p w args').value = (plan p w args).value := by
        rw [plan_of_prepare hargs' hrequest' hprepare', hplan, plan_edit_congr hedit _ others overrides]
      exact congrArg (fun plan => (Plan.run p w plan).value) hplan'
    have hgiven : (run p w args').value.1.exitCode = 0 → ∃ a, credentials i'.given = .ok a := by
      intro hexit'
      obtain ⟨s, others, hprepare', -⟩ := exists_prepare hargs' hrequest' hexit'
      obtain ⟨-, flags, hflags, -⟩ := prepare_of_located hlocate hprepare'
      exact exists_settingsFor_iff.mp ⟨flags, hflags⟩
    refine ⟨⟨hgiven, fun h => ?_⟩, fun h => hsame (hgiven h)⟩
    rw [hsame h]
    exact hexit

/-- A home with a configuration in its first candidate. -/
def homeWith (c : Configuration) : World where
  disk := ⟨[(["cwd"], .directory), (["home"], .directory),
    (["home", "lenses.json"], .file 0o600 (Format.json.encode c))], []⟩
  workingDirectory := .ofText "/cwd"

/-- Two contexts, the first of which is current. -/
def twoContexts : Configuration :=
  ⟨"a", .ofList [("a", { host := "http://a:80", token := "t" }),
    ("b", { host := "http://b:80", token := "u" })]⟩

theorem run_edits_twoContexts :
    (∃ disk text, disk.read (.ofText "/home/lenses.json")
        = .ok (Format.json.encode (twoContexts.normalizeHosts.setCurrent "b")) ∧
      (run (programAt "/home") (homeWith twoContexts) ["use-context", "b"]).value
        = (.printed text, { homeWith twoContexts with disk })) ∧
    (run (programAt "/home") (homeWith twoContexts)
        ["--host", "c", "--debug", "use-context", "b"]).value
      = (run (programAt "/home") (homeWith twoContexts) ["use-context", "b"]).value := by
  have hlocate : ((homeWith twoContexts).locate
      (searchRoots (programAt "/home") (homeWith twoContexts)) [Format.json, .yaml]).value
        = .ok ⟨twoContexts, .ofText "/home/lenses.json", .json⟩ := by decide +kernel
  have hargs : parse ["use-context", "b"] = .proceed ⟨[], .useContext, ["b"]⟩ := by decide +kernel
  have hargs' : parse ["--host", "c", "--debug", "use-context", "b"]
      = .proceed ⟨[.text .host "c", .toggle .debug true], .useContext, ["b"]⟩ := by decide +kernel
  have hrequest : Command.useContext.parse ["b"] = .proceed (.useContext "b") := by decide +kernel
  obtain ⟨⟨place, disk, text, -, -, hread, hrun⟩, hothers⟩ :=
    run_edits hlocate hargs hrequest rfl (by decide +kernel)
  obtain ⟨hexit, hsame⟩ := hothers _ _ hargs' rfl rfl rfl
  exact ⟨⟨disk, text, hread, hrun⟩, hsame (hexit.mpr ⟨none, rfl⟩)⟩

end ContextConfig.CommandLine
