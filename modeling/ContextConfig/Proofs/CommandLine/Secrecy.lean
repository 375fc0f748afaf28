import ContextConfig.CommandLine.Help
import ContextConfig.Proofs.CommandLine.Context
import ContextConfig.Proofs.CommandLine.Failure
import ContextConfig.Proofs.Secrets
/-!
# Reports do not depend on secrets

Two invocations that report contexts print the same if they start from the same configuration and
the same options but for the values of secrets. Everything between loading and printing commutes
with masking the secrets, and the report masks them in any case.
-/

namespace ContextConfig.CommandLine

/-- Whether the text of an option is a secret. -/
def TextOption.isSecret : TextOption → Bool
  | token | password => true
  | _ => false

/-- Two rows of options that agree except for the values of their secrets. -/
structure AlikeOptions (given other : List Given) : Prop where
  text (option : TextOption) (h : option.isSecret = false) :
    textOf option given = textOf option other
  secret (option : TextOption) (h : option.isSecret = true) :
    SameSecret (textOf option given) (textOf option other)
  debug : switchOf? .debug given = switchOf? .debug other

section Options

variable {given other : List Given} {a b : Configuration}

theorem ticketSource_redact (h : AlikeOptions given other) :
    (ticketSource given).map TicketSource.redact
      = (ticketSource other).map TicketSource.redact := by
  have hsecret := h.secret .password rfl
  have hmask := hsecret.mask_eq
  rw [SameSecret] at hsecret
  simp only [ticketSource, h.text .user rfl, h.text .kerberosRealm rfl, h.text .kerberosKeytab rfl,
    h.text .kerberosCache rfl, ne_eq, hsecret]
  split
  · rfl
  · split
    · rfl
    · split
      · simp only [Option.map_some, TicketSource.redact, hmask]
      · rfl

/-- Both describe the same credentials, once these are masked, or contradict themselves. -/
theorem credentials_redact (h : AlikeOptions given other) :
    (credentials given).map (·.map Authentication.redact)
      = (credentials other).map (·.map Authentication.redact) := by
  have hsecret := h.secret .password rfl
  have hmask := hsecret.mask_eq
  have hsource := ticketSource_redact h
  rw [SameSecret] at hsecret
  simp only [credentials, wantsKerberos, List.any_cons, List.any_nil, h.text .user rfl,
    h.text .kerberosConf rfl, h.text .kerberosRealm rfl, h.text .kerberosKeytab rfl,
    h.text .kerberosCache rfl, ne_eq, hsecret]
  split
  · rfl
  · split
    · simp only [Except.map, Option.map_some, Authentication.redact, hsource]
    · split
      · simp only [Except.map, Option.map_some, Authentication.redact, hmask]
      · rfl

theorem settings_redact (h : AlikeOptions given other) (debug : Bool) :
    (settings given debug).map Client.redact = (settings other debug).map Client.redact := by
  have hredact (given : List Given) : (settings given debug).map Client.redact =
      ((credentials given).map (·.map Authentication.redact)).map fun authentication =>
        { host := textOf .host given
          token := mask (textOf .token given)
          timeout := textOf .timeout given
          debug := (switchOf? .debug given).getD debug
          authentication } := by
    rw [settings]
    cases credentials given <;> rfl
  rw [hredact, hredact, credentials_redact h, h.text .host rfl, h.text .timeout rfl, h.debug,
    (h.secret .token rfl).mask_eq]

theorem settingsFor_redact (h : AlikeOptions given other) (hc : a.redact = b.redact) :
    (settingsFor a given).map Client.redact = (settingsFor b other).map Client.redact := by
  have hdebug (c : Configuration) : debugOf c.redact = debugOf c := by
    rw [debugOf, debugOf, Configuration.currentClient?_redact]
    cases c.currentClient? <;> rfl
  have hab : debugOf a = debugOf b := by rw [← hdebug a, hc, hdebug b]
  change (settings given (debugOf a)).map _ = (settings other (debugOf b)).map _
  rw [hab]
  exact settings_redact h (debugOf b)

end Options

section Reports

/-- The name and the client that are reported of a configuration under layers, or what is wrong with
it. -/
def viewUnder (c : Configuration) (layers : List Layer) : Except Error (String × Client) :=
  let filled := ((c.setCurrent c.currentName).fillLayers layers).value.2
  let shown := filled.heal.modifyCurrent Client.normalizeHost
  do
    shown.check
    let _ ← Duration.parse shown.healedClient.timeout
    return (shown.current, shown.healedClient)

theorem showContext_value (s : Session) (layers : List Layer) (indent : Option Int) :
    (showContext s layers indent).value =
      match viewUnder s.configuration layers with
      | .ok (name, client) => report indent (contextReport name client)
      | .error error => .failed error := by
  rw [showContext, Logged.bind_value, Session.applyOverrides, Logged.bind_value, viewUnder]
  generalize
    ((s.configuration.setCurrent s.configuration.currentName).fillLayers layers).value = filled
  obtain ⟨valid, filled⟩ := filled
  simp only [Session.validate]
  generalize filled.heal.modifyCurrent Client.normalizeHost = shown
  cases shown.check with
  | error error => rfl
  | ok => cases Duration.parse shown.healedClient.timeout <;> rfl

theorem contextReport_redact (name : String) (client : Client) :
    contextReport name client.redact = contextReport name client := by
  rw [contextReport, contextReport, Client.describeFields_redact]

theorem contextsReport_redact (c : Configuration) : contextsReport c.redact = contextsReport c := by
  simp [contextsReport, Configuration.redact, OrderedMap.map, Client.isValid_redact,
    Client.describeFields_redact, Function.comp_def]

theorem viewUnder_redact (c : Configuration) (layers : List Layer) :
    viewUnder c.redact (layers.map Layer.redact)
      = (viewUnder c layers).map fun view => (view.1, view.2.redact) := by
  have hfilled := (c.setCurrent c.currentName).fillLayers_redact layers
  have hname : c.redact.setCurrent c.redact.currentName = (c.setCurrent c.currentName).redact := rfl
  rw [viewUnder, viewUnder, hname, hfilled]
  dsimp only
  rw [Configuration.heal_redact, Configuration.modifyCurrent_redact, Configuration.check_redact,
    Configuration.healedClient_redact]
  generalize (Configuration.heal _).modifyCurrent Client.normalizeHost = shown
  cases shown.check with
  | error error => rfl
  | ok =>
    change (Duration.parse shown.healedClient.timeout >>= _) = _
    cases Duration.parse shown.healedClient.timeout <;> rfl

/-- What is shown depends on the configuration and the layers, and on both of them only as far as
they can be seen once their secrets are masked. -/
theorem showContext_congr {s s' : Session} {layers layers' : List Layer}
    (hs : s.configuration.redact = s'.configuration.redact)
    (hlayers : layers.map Layer.redact = layers'.map Layer.redact) (indent : Option Int) :
    (showContext s layers indent).value = (showContext s' layers' indent).value := by
  have hview : (viewUnder s.configuration layers).map (fun view => (view.1, view.2.redact))
      = (viewUnder s'.configuration layers').map fun view => (view.1, view.2.redact) := by
    rw [← viewUnder_redact, ← viewUnder_redact, hs, hlayers]
  have hshown (view : Except Error (String × Client)) :
      (match view with
        | .ok (name, client) => report indent (contextReport name client)
        | .error error => .failed error) =
      match view.map fun view => (view.1, view.2.redact) with
      | .ok (name, client) => report indent (contextReport name client)
      | .error error => .failed error := by
    cases view with
    | ok view => exact congrArg (report indent) (contextReport_redact view.1 view.2).symm
    | error error => rfl
  rw [showContext_value, showContext_value, hshown, hview, ← hshown]

end Reports

section Runs

variable {p p' : Program} {w w' : World} {args args' : List String} {i i' : Invocation}
  {s s' : Session} {loaded loaded' : Loaded} {layers layers' : List Layer}

/-- Whether a command prints what it reports of contexts. -/
def Command.reportsContexts : Command → Bool
  | contexts | context => true
  | _ => false

theorem plan_congr {r : Request} (hr : r.command.reportsContexts = true)
    (hs : s.configuration.redact = s'.configuration.redact)
    (hlayers : layers.map Layer.redact = layers'.map Layer.redact) :
    (r.plan s layers).value = (r.plan s' layers').value := by
  cases r with
  | contexts indent =>
    change Plan.finish (report indent (contextsReport s.configuration)) = _
    rw [← contextsReport_redact, hs, contextsReport_redact]
    rfl
  | context indent => exact congrArg Plan.finish (showContext_congr hs hlayers indent)
  | _ => cases hr

/-- A context is selected in both sessions or in neither. -/
theorem selectContext_congr (hs : s.configuration.redact = s'.configuration.redact)
    (name : String) :
    (∃ error, (selectContext s name).value = (.error error, s) ∧
        (selectContext s' name).value = (.error error, s')) ∨
      ∃ t t', (selectContext s name).value = (.ok (), t) ∧
        (selectContext s' name).value = (.ok (), t') ∧
        t.configuration.redact = t'.configuration.redact := by
  have hcontains (c : Configuration) : c.redact.contexts.contains name = c.contexts.contains name :=
    c.contexts.contains_map Client.redact name
  have hsame :
      s.configuration.contexts.contains name = s'.configuration.contexts.contains name := by
    rw [← hcontains, hs, hcontains]
  by_cases hname : name = ""
  · rw [selectContext, selectContext, if_pos hname, if_pos hname]
    exact .inr ⟨s, s', rfl, rfl, hs⟩
  · rw [selectContext, selectContext, if_neg hname, if_neg hname, Session.useContext,
      Session.useContext, hsame]
    cases s'.configuration.contexts.contains name with
    | false => exact .inl ⟨_, rfl, rfl⟩
    | true =>
      refine .inr ⟨_, _, rfl, rfl, ?_⟩
      exact congrArg (Configuration.setCurrent · name) hs

/-- Results that a function makes equal are equal errors, or it makes their values equal. -/
theorem map_eq_map_cases {ε α β : Type} {f : α → β} {x y : Except ε α} (h : x.map f = y.map f) :
    (∃ error, x = .error error ∧ y = .error error) ∨ ∃ a b, x = .ok a ∧ y = .ok b ∧ f a = f b := by
  cases x with
  | error error =>
    cases y with
    | error error' =>
      cases h
      exact .inl ⟨error, rfl, rfl⟩
    | ok b => cases h
  | ok a =>
    cases y with
    | error error' => cases h
    | ok b => exact .inr ⟨a, b, rfl, rfl, Except.ok.inj h⟩

/-- Both invocations start their commands alike, or end in the same way before. -/
theorem prepare_alike (hcommand : i.command.reportsContexts = true)
    (hcommand' : i'.command.reportsContexts = true)
    (hload : ((startSession p w).load w false).value = (.ok loaded, s))
    (hload' : ((startSession p' w').load w' false).value = (.ok loaded', s'))
    (hs : s.configuration.redact = s'.configuration.redact)
    (hgiven : AlikeOptions i.given i'.given) :
    (∃ outcome, (i.prepare p w).value = .error outcome ∧
        (i'.prepare p' w').value = .error outcome) ∨
      ∃ t layers t' layers', (i.prepare p w).value = .ok (t, layers) ∧
        (i'.prepare p' w').value = .ok (t', layers') ∧
        t.configuration.redact = t'.configuration.redact ∧
        layers.map Layer.redact = layers'.map Layer.redact := by
  have hnever (c : Command) (hc : c.reportsContexts = true) : (c == .configure) = false := by
    cases c <;> first | rfl | cases hc
  have hname := hgiven.text .context rfl
  rw [Invocation.prepare, Invocation.prepare, Logged.bind_value, Logged.bind_value,
    hnever _ hcommand, hnever _ hcommand', hload, hload']
  dsimp only
  rw [Logged.bind_value, Logged.bind_value, hname]
  obtain ⟨error, hselect, hselect'⟩ | ⟨t, t', hselect, hselect', ht⟩ :=
    selectContext_congr hs (textOf .context i'.given)
  · rw [hselect, hselect']
    exact .inl ⟨_, rfl, rfl⟩
  · have hsettings := settingsFor_redact hgiven ht
    rw [hselect, hselect']
    dsimp only
    obtain ⟨error, hflags, hflags'⟩ | ⟨flags, flags', hflags, hflags', hredact⟩ :=
      map_eq_map_cases hsettings
    · rw [hflags, hflags']
      exact .inl ⟨_, rfl, rfl⟩
    · rw [hflags, hflags']
      refine .inr ⟨t, _, t', _, rfl, rfl, ht, ?_⟩
      simp only [List.map_cons, List.map_nil, Layer.redact, hredact]

/-- Two runs that report contexts end in the same way. -/
theorem outcome_congr (hargs : parse args = .proceed i) (hargs' : parse args' = .proceed i')
    (hcommand : i.command.reportsContexts = true) (hsame : i'.command = i.command)
    (hrequest : i'.command.parse i'.arguments = i.command.parse i.arguments)
    (hload : ((startSession p w).load w false).value = (.ok loaded, s))
    (hload' : ((startSession p' w').load w' false).value = (.ok loaded', s'))
    (hs : s.configuration.redact = s'.configuration.redact)
    (hgiven : AlikeOptions i.given i'.given) :
    (run p w args).value.1 = (run p' w' args').value.1 := by
  have hplan : (i.plan p w).value = (i'.plan p' w').value := by
    rw [Invocation.plan, Invocation.plan, Logged.bind_value, Logged.bind_value]
    obtain ⟨outcome, hprepare, hprepare'⟩ |
        ⟨t, layers, t', layers', hprepare, hprepare', ht, hlayers⟩ :=
      prepare_alike hcommand (hsame ▸ hcommand) hload hload' hs hgiven
    · rw [hprepare, hprepare']
    · rw [hprepare, hprepare']
      dsimp only
      rw [hrequest, hsame]
      cases hparse : i.command.parse i.arguments with
      | proceed request =>
        exact plan_congr (by rw [command_of_parse hparse]; exact hcommand) ht hlayers
      | help => rfl
      | version => rfl
      | usage error => rfl
  have honly : i.command.onlyReports = true := by
    cases hc : i.command <;> first | rfl | (rw [hc] at hcommand; cases hcommand)
  obtain ⟨outcome, hfinish⟩ := invocation_plan_of_onlyReports honly p w
  have hrun {p : Program} {w : World} {args : List String} {i : Invocation}
      (hargs : parse args = .proceed i) (hfinish : (i.plan p w).value = .finish outcome) :
      (run p w args).value.1 = outcome := by
    rw [← plan_of_parse hargs] at hfinish
    rw [run_of_finish hfinish]
  rw [hrun hargs hfinish, hrun hargs' (hplan ▸ hfinish)]

/-- What two runs of a report print, and their exit codes, are the same if the configurations that
they load and their options agree except for the values of secrets, where each of these is there in
both or in neither. -/
theorem run_hidesSecrets (hargs : parse args = .proceed i) (hargs' : parse args' = .proceed i')
    (hcommand : i.command = .contexts ∨ i.command = .context) (hsame : i'.command = i.command)
    (hrequest : i'.command.parse i'.arguments = i.command.parse i.arguments)
    (hgiven : AlikeOptions i.given i'.given)
    (hload : ((startSession p w).load w false).value = (.ok loaded, s))
    (hload' : ((startSession p' w').load w' false).value = (.ok loaded', s'))
    (halike : s.configuration.Alike s'.configuration) :
    (run p w args).value.1.output = (run p' w' args').value.1.output ∧
      (run p w args).value.1.exitCode = (run p' w' args').value.1.exitCode := by
  have hreports : i.command.reportsContexts = true := by
    obtain hc | hc := hcommand <;> rw [hc] <;> rfl
  rw [outcome_congr hargs hargs' hreports hsame hrequest hload hload' halike.redact_eq hgiven]
  exact ⟨rfl, rfl⟩

/-- Two contexts that share a secret: a token, and a password. -/
def lockedWith (secret : String) : Configuration where
  current := "a"
  contexts :=
    ⟨[("a", { host := "http://a:80", token := secret }),
      ("b", { host := "http://b:80",
              authentication := some (.kerberos "" (some (.password "u" secret "r"))) })], by simp⟩

theorem alike_lockedWith : (lockedWith "x").Alike (lockedWith "y") := by
  have hsecret : SameSecret "x" "y" := by simp [SameSecret]
  have htoken : Client.Alike { host := "http://a:80", token := "x" }
      { host := "http://a:80", token := "y" } := ⟨rfl, hsecret, rfl, rfl, .none⟩
  have hpassword : Option.Rel Authentication.Alike
      (some (.kerberos "" (some (.password "u" "x" "r"))))
      (some (.kerberos "" (some (.password "u" "y" "r")))) :=
    .some (.kerberos "" (.some (.password "u" "r" hsecret)))
  exact ⟨rfl, .cons ⟨rfl, htoken⟩ (.cons ⟨rfl, rfl, .rfl, rfl, rfl, hpassword⟩ .nil)⟩

theorem run_hidesSecrets_lockedWith :
    (run (programAt "/home") (homeWith (lockedWith "x"))
        ["--user", "u", "--password", "p", "context"]).value.1.output
      = (run (programAt "/home") (homeWith (lockedWith "y"))
        ["--user", "u", "--password", "q", "context"]).value.1.output ∧
    (run (programAt "/home") (homeWith (lockedWith "x"))
        ["--user", "u", "--password", "p", "context"]).value.1.exitCode
      = (run (programAt "/home") (homeWith (lockedWith "y"))
        ["--user", "u", "--password", "q", "context"]).value.1.exitCode := by
  have hargs : parse ["--user", "u", "--password", "p", "context"]
      = .proceed ⟨[.text .user "u", .text .password "p"], .context, []⟩ := by decide +kernel
  have hargs' : parse ["--user", "u", "--password", "q", "context"]
      = .proceed ⟨[.text .user "u", .text .password "q"], .context, []⟩ := by decide +kernel
  have hgiven : AlikeOptions [.text .user "u", .text .password "p"]
      [.text .user "u", .text .password "q"] := by
    have hpassword : SameSecret "p" "q" := by simp [SameSecret]
    refine ⟨fun option h => ?_, fun option h => ?_, rfl⟩
    · cases option <;> first | rfl | cases h
    · cases option <;> first | exact hpassword | exact Iff.rfl
  have hlocate : ((homeWith (lockedWith "x")).locate
      (searchRoots (programAt "/home") (homeWith (lockedWith "x"))) [Format.json, .yaml]).value
        = .ok ⟨lockedWith "x", .ofText "/home/lenses.json", .json⟩ := by decide +kernel
  have hlocate' : ((homeWith (lockedWith "y")).locate
      (searchRoots (programAt "/home") (homeWith (lockedWith "y"))) [Format.json, .yaml]).value
        = .ok ⟨lockedWith "y", .ofText "/home/lenses.json", .json⟩ := by decide +kernel
  have hnormal : (lockedWith "x").normalizeHosts = lockedWith "x" := by decide +kernel
  have hnormal' : (lockedWith "y").normalizeHosts = lockedWith "y" := by decide +kernel
  refine run_hidesSecrets hargs hargs' (.inr rfl) rfl rfl hgiven (load_of_located hlocate false)
    (load_of_located hlocate' false) ?_
  change (lockedWith "x").normalizeHosts.Alike (lockedWith "y").normalizeHosts
  rw [hnormal, hnormal']
  exact alike_lockedWith

end Runs

end ContextConfig.CommandLine
