import ContextConfig.Proofs.CommandLine.Context
import ContextConfig.Proofs.CommandLine.Failure
/-!
# Configuring a context

Two layers are filled into the context that is configured, one made of the options in front of the
command and one of its own. What is saved is valid as a whole and leaves the other contexts alone.
The layer of the command carries the stored debug setting where the command has no switch for it, so
that a switch in front of it comes to nothing.
-/

namespace ContextConfig

theorem Client.setDebug_eq_iff {client : Client} {debug : Bool} :
    ({ client with debug } : Client) = client ↔ debug = client.debug := by
  constructor
  · exact congrArg Client.debug
  · rintro rfl
    rfl

namespace CommandLine

section Filling

variable {c changed : Configuration} {given own : List Given} {chosen : String}
  {client stored : Client}

/-- The context that is configured: the one that the command names, or else the options in front of
it, or else the current one, or else the default one. -/
def targetOf (c : Configuration) (given : List Given) (chosen : String) : String :=
  (c.select (textOf .context given)).nameFor chosen

theorem targetOf_normalizeHosts (c : Configuration) (given : List Given) (chosen : String) :
    targetOf c.normalizeHosts given chosen = targetOf c given chosen := by
  rw [targetOf, Configuration.normalizeHosts_select]
  rfl

/-- What the two layers make of a client. The debug setting of the first one is lost: the second one
has one in any case. -/
theorem fillAll_flags_configure {staged : Configuration} {flags settings : Client}
    (hflags : settingsFor c given = .ok flags) (hsettings : settingsFor staged own = .ok settings)
    (client : Client) :
    client.fillAll [⟨"flags", flags⟩, ⟨"configure", settings⟩]
      = { (client.withOptions given).withOptions own with
        debug := (switchOf? .debug own).getD (debugOf staged) } := by
  rw [Client.fillAll_cons, Client.fillAll_cons, Client.fillAll_nil, fill_of_settingsFor hsettings,
    fill_of_settingsFor hflags]
  rfl

/-- What configuring makes of a configuration: the context is current and as the layers leave it,
the whole is valid and the timeout of the context can be read. -/
structure Configures (c : Configuration) (given : List Given) (chosen : String) (own : List Given)
    (changed : Configuration) (client : Client) : Prop where
  filled : ∃ flags settings, settingsFor (c.select (textOf .context given)) given = .ok flags ∧
    settingsFor (stage (c.select (textOf .context given)) chosen) own = .ok settings ∧
    ((stage (c.select (textOf .context given)) chosen).fillLayers
      [⟨"flags", flags⟩, ⟨"configure", settings⟩]).value = (true, changed)
  stored : changed.currentClient? = some client
  valid : changed.normalizeHosts.check = .ok ()
  timeout : ∃ duration, Duration.parse client.timeout = .ok duration

/-- The context that is configured is current, and the others are as they were. -/
theorem Configures.frame (h : Configures c given chosen own changed client) :
    changed.current = targetOf c given chosen ∧
      changed.contexts.erase (targetOf c given chosen) = c.contexts.erase (targetOf c given chosen) := by
  obtain ⟨flags, settings, -, -, hfilled⟩ := h.filled
  obtain ⟨hcurrent, hothers⟩ :=
    (stage (c.select (textOf .context given)) chosen).fillLayers_frame
      [⟨"flags", flags⟩, ⟨"configure", settings⟩]
  rw [hfilled] at hcurrent hothers
  have hcontexts := c.contexts_select (textOf .context given)
  exact ⟨hcurrent, hothers.trans (congrArg (·.erase (targetOf c given chosen)) hcontexts)⟩

/-- A stored context is filled with the settings that the command gives, or else with those that
the options in front of it give; for the debug setting it is the command alone that counts. -/
theorem Configures.client_eq (h : Configures c.normalizeHosts given chosen own changed client)
    (hstored : c.contexts.get? (targetOf c given chosen) = some stored) :
    client.normalizeHost = { ((stored.withOptions given).withOptions own).normalizeHost with
      debug := (switchOf? .debug own).getD stored.debug } := by
  obtain ⟨flags, settings, hflags, hsettings, hfilled⟩ := h.filled
  have hheld : (stage (c.normalizeHosts.select (textOf .context given)) chosen).currentClient?
      = some stored.normalizeHost := by
    have hthis := c.get?_normalizeHosts (targetOf c given chosen)
    rw [hstored, ← targetOf_normalizeHosts,
      ← c.normalizeHosts.contexts_select (textOf .context given)] at hthis
    exact hthis
  have hchanged := Configuration.fillLayers_of_some hheld [⟨"flags", flags⟩, ⟨"configure", settings⟩]
  rw [hfilled] at hchanged
  have hclient := h.stored
  rw [(Prod.mk.inj hchanged).2, Configuration.currentClient?_putCurrent] at hclient
  cases hclient
  have hdebug : debugOf (stage (c.normalizeHosts.select (textOf .context given)) chosen)
      = stored.debug := by
    rw [debugOf, hheld]
    rfl
  rw [stored.fillAll_normalizeHost, fillAll_flags_configure hflags hsettings, hdebug]
  rfl

/-- Where a debug switch in front of the command is passed over: the command has none of its own, and
the switch is not what is stored. -/
structure PassesOverSwitch (stored : Client) (given own : List Given) : Prop where
  own : switchOf? .debug own = none
  given : ∃ on, switchOf? .debug given = some on ∧ on ≠ stored.debug

theorem debug_withOptions_iff :
    (switchOf? .debug own).getD stored.debug = ((stored.withOptions given).withOptions own).debug
      ↔ ¬ PassesOverSwitch stored given own := by
  rw [Client.withOptions, Client.withOptions]
  cases hown : switchOf? .debug own with
  | some on =>
    refine ⟨fun _ h => ?_, fun _ => rfl⟩
    rw [h.own] at hown
    cases hown
  | none =>
    cases hgiven : switchOf? .debug given with
    | none =>
      refine ⟨fun _ h => ?_, fun _ => rfl⟩
      obtain ⟨on, hon, -⟩ := h.given
      rw [hon] at hgiven
      cases hgiven
    | some on =>
      constructor
      · rintro hsame ⟨-, other, hother, hdiffers⟩
        rw [hother] at hgiven
        cases hgiven
        exact hdiffers hsame.symm
      · intro h
        by_contra hdiffers
        exact h ⟨hown, on, hgiven, fun hsame => hdiffers hsame.symm⟩

end Filling

section Saving

variable {p : Program} {w : World} {located : Located} {args : List String} {i : Invocation}
  {chosen : String} {own : List Given} {stored : Client}

/-- Configuring that succeeds has loaded a configuration, starting over from broken files, and has
planned to save what it made of it. -/
theorem exists_configures (hargs : parse args = .proceed i)
    (hrequest : i.command.parse i.arguments = .proceed (.configure chosen own))
    (hexit : (run p w args).value.1.exitCode = 0) :
    ∃ loaded held changed client, ((startSession p w).load w true).value = (.ok loaded, held) ∧
      Configures held.configuration i.given chosen own changed client ∧
      (plan p w args).value = .save { held with configuration := changed.normalizeHosts } fun path =>
        "Saved context '" ++ changed.current ++ "' to " ++ path.text := by
  obtain ⟨s, overrides, hprepare, hplan⟩ := exists_prepare hargs hrequest hexit
  obtain ⟨loaded, held, flags, hload, hselect, hflags, rfl⟩ := prepare_eq_ok_iff.mp hprepare
  obtain ⟨rfl, -⟩ := selectContext_eq_ok hselect
  have hcommand : i.command = .configure := (command_of_parse hrequest).symm
  rw [hcommand] at hload
  obtain hfails | ⟨settings, changed, client, hsettings, hfilled, hstored, hcheck, htimeout, hsave⟩ :=
    planConfigure_cases { held with
      configuration := held.configuration.select (textOf .context i.given) } [⟨"flags", flags⟩]
      chosen own
  · have hplanFails : (plan p w args).value.Fails := hplan ▸ hfails
    exact absurd hexit (hplanFails.exitCode p w)
  · have hchanged : Configures held.configuration i.given chosen own changed client :=
      ⟨⟨flags, settings, hflags, hsettings, hfilled⟩, hstored, hcheck, htimeout⟩
    exact ⟨loaded, held, changed, client, hload, hchanged, hplan.trans hsave⟩

/-- A stored context is saved with the settings that the command gives, or else with those that the
options in front of it give, in place of its own, unless a debug switch is passed over. -/
theorem run_configure
    (hlocate : (w.locate (searchRoots p w) [Format.json, .yaml]).value = .ok located)
    (hargs : parse args = .proceed i)
    (hrequest : i.command.parse i.arguments = .proceed (.configure chosen own))
    (hstored : located.configuration.contexts.get?
      (targetOf located.configuration i.given chosen) = some stored)
    (hexit : (run p w args).value.1.exitCode = 0) :
    ∃ disk text saved client, (run p w args).value = (.printed text, { w with disk }) ∧
      disk.read (w.absolute located.path) = .ok (located.format.encode saved) ∧
      saved.current = targetOf located.configuration i.given chosen ∧
      saved.currentClient? = some client ∧
      client = { ((stored.withOptions i.given).withOptions own).normalizeHost with
        debug := (switchOf? .debug own).getD stored.debug } ∧
      (client = ((stored.withOptions i.given).withOptions own).normalizeHost
        ↔ ¬ PassesOverSwitch stored i.given own) := by
  obtain ⟨loaded, held, changed, client, hload, hchanged, hplan⟩ :=
    exists_configures hargs hrequest hexit
  rw [load_of_located hlocate] at hload
  cases hload
  have hclient := hchanged.client_eq hstored
  obtain ⟨place, disk, -, -, hread, hrun⟩ := run_of_replaced hlocate hplan hexit
  have hcurrent : changed.normalizeHosts.current = targetOf located.configuration i.given chosen :=
    hchanged.frame.1.trans (targetOf_normalizeHosts _ _ _)
  refine ⟨disk, _, changed.normalizeHosts, client.normalizeHost, hrun, hread, hcurrent,
    changed.currentClient?_normalizeHosts hchanged.stored, hclient, ?_⟩
  rw [hclient, ← debug_withOptions_iff]
  exact Client.setDebug_eq_iff

theorem run_configure_twoContexts :
    ∃ disk text saved client,
      (run (programAt "/home") (homeWith twoContexts)
          ["--token", "v", "--debug", "configure", "--context", "b", "--no-debug"]).value
        = (.printed text, { homeWith twoContexts with disk }) ∧
      disk.read (.ofText "/home/lenses.json") = .ok (Format.json.encode saved) ∧
      saved.current = "b" ∧ saved.currentClient? = some client ∧
      client = { host := "http://b:80", token := "v" } := by
  have hlocate : ((homeWith twoContexts).locate
      (searchRoots (programAt "/home") (homeWith twoContexts)) [Format.json, .yaml]).value
        = .ok ⟨twoContexts, .ofText "/home/lenses.json", .json⟩ := by decide +kernel
  have hargs : parse ["--token", "v", "--debug", "configure", "--context", "b", "--no-debug"]
      = .proceed ⟨[.text .token "v", .toggle .debug true], .configure,
        ["--context", "b", "--no-debug"]⟩ := by decide +kernel
  have hrequest : Command.configure.parse ["--context", "b", "--no-debug"]
      = .proceed (.configure "b" [.text .context "b", .toggle .debug false]) := by decide +kernel
  have hstored : twoContexts.contexts.get?
      (targetOf twoContexts [.text .token "v", .toggle .debug true] "b")
        = some { host := "http://b:80", token := "u" } := by decide +kernel
  obtain ⟨disk, text, saved, client, hrun, hread, hcurrent, hclient, hsettings, -⟩ :=
    run_configure hlocate hargs hrequest hstored (by decide +kernel)
  refine ⟨disk, text, saved, client, hrun, hread, hcurrent, hclient, hsettings.trans ?_⟩
  decide +kernel

/-- A switch in front of the command is passed over: the file is written again as it was. -/
theorem not_configuresDebug_twoContexts :
    (run (programAt "/home") (homeWith twoContexts) ["--debug", "configure"]).value.1.exitCode = 0 ∧
      (run (programAt "/home") (homeWith twoContexts) ["--debug", "configure"]).value.2.disk.read
        (.ofText "/home/lenses.json") = .ok (Format.json.encode twoContexts) ∧
      twoContexts.currentClient? = some { host := "http://a:80", token := "t" } ∧
      ((({ host := "http://a:80", token := "t" } : Client).withOptions
        [.toggle .debug true]).withOptions []).debug = true := by
  decide +kernel

end Saving

section Leaving

variable {p : Program} {w : World} {args : List String} {i : Invocation} {chosen : String}
  {own : List Given}

/-- The configuration that is found; an empty one where there is none. -/
def configurationIn (p : Program) (w : World) : Configuration :=
  match (w.locate (searchRoots p w) [Format.json, .yaml]).value with
  | .ok located => located.configuration
  | .error _ => .empty

/-- What is loaded is what is found, with its hosts in normal form. -/
theorem configuration_of_load {loaded : Loaded} {held : Session}
    (h : ((startSession p w).load w true).value = (.ok loaded, held)) :
    held.configuration = (configurationIn p w).normalizeHosts := by
  have hload := Session.load_value (startSession p w) w true
  have hsearch : w.locate ((startSession p w).locations.roots w.workingDirectory).value
      (startSession p w).formats = w.locate (searchRoots p w) [Format.json, .yaml] := rfl
  rw [h, hsearch] at hload
  rw [configurationIn]
  cases hlocate : (w.locate (searchRoots p w) [Format.json, .yaml]).value with
  | ok located =>
    rw [hlocate] at hload
    cases hload
    rfl
  | error error =>
    rw [hlocate] at hload
    cases error <;> cases hload <;> rfl

/-- What configuring a context leaves of a configuration. -/
structure Settles (before after : Configuration) (target : String) (client : Client) : Prop where
  valid : after.isValid = true
  current : after.current = target
  stored : after.currentClient? = some client
  timeout : ∃ duration, Duration.parse client.timeout = .ok duration
  hosts : ∀ entry ∈ after.contexts.entries, Host.normalize entry.2.host = entry.2.host
  others : after.contexts.erase target = before.normalizeHosts.contexts.erase target

theorem Configures.settles {c changed : Configuration} {given : List Given} {client : Client}
    (h : Configures c.normalizeHosts given chosen own changed client) :
    Settles c changed.normalizeHosts (targetOf c given chosen) client.normalizeHost where
  valid := changed.normalizeHosts.check_eq_ok_iff.mp h.valid
  current := h.frame.1.trans (targetOf_normalizeHosts c given chosen)
  stored := changed.currentClient?_normalizeHosts h.stored
  timeout := h.timeout
  hosts _ := Configuration.host_normal_of_normalizeHosts
  others := by
    have hothers := h.frame.2
    rw [targetOf_normalizeHosts] at hothers
    calc changed.normalizeHosts.contexts.erase (targetOf c given chosen)
        = (changed.contexts.erase (targetOf c given chosen)).map Client.normalizeHost :=
          changed.contexts.erase_map Client.normalizeHost _
      _ = (c.normalizeHosts.contexts.erase (targetOf c given chosen)).map Client.normalizeHost := by
          rw [hothers]
      _ = c.normalizeHosts.normalizeHosts.contexts.erase (targetOf c given chosen) :=
          (c.normalizeHosts.contexts.erase_map Client.normalizeHost _).symm
      _ = c.normalizeHosts.contexts.erase (targetOf c given chosen) := by
          rw [Configuration.normalizeHosts_eq_self fun _ =>
            Configuration.host_normal_of_normalizeHosts]

/-- What a successful configuring leaves is found by the next search in the file that was written,
and reported by the next command. It is valid and has the context current that was asked for, with
a timeout that can be read; all hosts are in normal form, and the other contexts are those that
were found, in the same order. Where no file is replaced, the home of the configurations must be
there already or have a path without `..`. -/
theorem run_configure_settles (htree : w.disk.IsTree) (hargs : parse args = .proceed i)
    (hrequest : i.command.parse i.arguments = .proceed (.configure chosen own))
    (hexit : (run p w args).value.1.exitCode = 0)
    (hwell : (plan p w args).value.SavesWell p w)
    (hhome : ((startSession p w).load w true).value.2.source = none → HomeInReach p w) :
    ∃ path format after client w',
      (run p w args).value = (.printed ("Saved context '" ++
        targetOf (configurationIn p w) i.given chosen ++ "' to " ++ path.text ++ "\n"), w') ∧
      (w'.locate (searchRoots p w') [Format.json, .yaml]).value = .ok ⟨after, path, format⟩ ∧
      Settles (configurationIn p w) after (targetOf (configurationIn p w) i.given chosen) client ∧
      (run p w' ["context"]).value
        = (.printed ((contextReport (targetOf (configurationIn p w) i.given chosen) client).render
          .compact ++ "\n"), w') := by
  obtain ⟨loaded, held, changed, client, hload, hchanged, hplan⟩ :=
    exists_configures hargs hrequest hexit
  rw [configuration_of_load hload] at hchanged
  have hsettles := hchanged.settles
  obtain ⟨path, saved, w', hsave, hrun⟩ := exists_save_of_exitCode hplan hexit
  rw [hplan, Plan.SavesWell, hsave] at hwell
  rw [hload] at hhome
  -- What was saved is settled, so that loading it and filling in nothing give it back.
  obtain ⟨format, -, hlocate⟩ := locate_of_saved hload (fun hnone => ⟨htree, hhome hnone⟩) hsave hwell
  have hname : changed.normalizeHosts.current ≠ "" := by
    rw [hsettles.current]
    exact Configuration.nameFor_ne _ _
  have hreport := run_context_settled hlocate hname
    (Configuration.normalizeHosts_eq_self hsettles.hosts) hsettles.stored
    ((Configuration.check_eq_ok_iff _).mpr hsettles.valid) hsettles.timeout
  rw [← hsettles.current]
  refine ⟨path, format, _, _, w', hrun, hlocate, ?_, hreport⟩
  rw [hsettles.current]
  exact hsettles

theorem run_configure_settles_emptyHome :
    ∃ path format after client w',
      (run (programAt "/home") emptyHome ["configure", "--host", "a", "--token", "t"]).value
        = (.printed ("Saved context 'master' to " ++ path.text ++ "\n"), w') ∧
      (w'.locate (searchRoots (programAt "/home") w') [Format.json, .yaml]).value
        = .ok ⟨after, path, format⟩ ∧
      Settles .empty after "master" client ∧
      (run (programAt "/home") w' ["context"]).value
        = (.printed ((contextReport "master" client).render .compact ++ "\n"), w') := by
  have htree : emptyHome.disk.IsTree := by decide +kernel
  have hargs : parse ["configure", "--host", "a", "--token", "t"]
      = .proceed ⟨[], .configure, ["--host", "a", "--token", "t"]⟩ := by decide +kernel
  have hrequest : Command.configure.parse ["--host", "a", "--token", "t"]
      = .proceed (.configure "" [.text .host "a", .text .token "t"]) := by decide +kernel
  have hbefore : configurationIn (programAt "/home") emptyHome = .empty := by decide +kernel
  have hhome : HomeInReach (programAt "/home") emptyHome := by
    intro home hhome
    have hconfigHome : (startSession (programAt "/home") emptyHome).locations.configHome
        = .ok (.ofText "/home") := by decide +kernel
    rw [hconfigHome] at hhome
    cases hhome
    exact .inl (by decide +kernel)
  have hsettles := run_configure_settles htree hargs hrequest (by decide +kernel) (by decide +kernel)
    fun _ => hhome
  rw [hbefore] at hsettles
  exact hsettles

/-- A context in a home that is reached by way of a directory that is missing. -/
def otherDetour : World where
  disk := ⟨[(["cwd"], .directory), (["b"], .directory), (["b", "lenses.json"], .file 0o600
    (Format.json.encode ⟨"m", .ofList [("m", { host := "http://old:80", token := "o" })]⟩))], []⟩
  workingDirectory := .ofText "/cwd"

/-- The tree after another context was configured there. -/
def configuredDetour : World :=
  (run (programAt "/missing/../b") otherDetour
    ["configure", "--context", "n", "--host", "new", "--token", "t"]).value.2

/-- Saving makes the missing directory, and then the next command finds the other file. -/
theorem not_settles_otherDetour :
    otherDetour.disk.IsTree ∧
      (plan (programAt "/missing/../b") otherDetour
        ["configure", "--context", "n", "--host", "new", "--token", "t"]).value.SavesWell
          (programAt "/missing/../b") otherDetour ∧
      (run (programAt "/missing/../b") otherDetour
        ["configure", "--context", "n", "--host", "new", "--token", "t"]).value.1
          = .printed "Saved context 'n' to /missing/../b/lenses-cli.yml\n" ∧
      (run (programAt "/missing/../b") configuredDetour ["context"]).value.1
        = report none (contextReport "m" { host := "http://old:80", token := "o" }) := by
  decide +kernel

end Leaving

end CommandLine

end ContextConfig
