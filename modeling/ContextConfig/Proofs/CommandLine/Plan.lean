import ContextConfig.CommandLine.Run
import ContextConfig.Proofs.Normalization
/-!
# What an invocation starts its command from

A command starts from the session in which the configuration is loaded and the context that the
options name is current, and from the settings that the options describe. An invocation that comes
to anything but an error, a help page or the version has got that far.
-/

namespace ContextConfig

namespace Configuration

/-- A configuration with the context current that a choice names, if it names one. -/
def select (c : Configuration) (name : String) : Configuration :=
  if name = "" then c else c.setCurrent name

/-- The name that a choice comes to: without one it is the name in use. -/
def nameFor (c : Configuration) (name : String) : String := if name = "" then c.currentName else name

theorem nameFor_ne (c : Configuration) (name : String) : c.nameFor name ≠ "" := by
  have hdefault : defaultContext ≠ "" := by decide
  rw [nameFor, currentName]
  split
  · split
    · exact hdefault
    · assumption
  · assumption

theorem currentName_select (c : Configuration) (name : String) :
    (c.select name).currentName = c.nameFor name := by
  rw [select, nameFor]
  split
  · rfl
  · rename_i hname
    exact if_neg hname

@[simp] theorem contexts_select (c : Configuration) (name : String) :
    (c.select name).contexts = c.contexts := by
  rw [select]
  split <;> rfl

theorem normalizeHosts_select (c : Configuration) (name : String) :
    c.normalizeHosts.select name = (c.select name).normalizeHosts := by
  rw [select, select]
  split <;> rfl

/-- The context that a choice comes to is the current one once it is made, unless it is the default
one for want of a name. -/
theorem currentClient?_select {c : Configuration} {name : String} {client : Client}
    (hnamed : ¬ (name = "" ∧ c.current = "")) (h : c.contexts.get? (c.nameFor name) = some client) :
    (c.select name).currentClient? = some client := by
  rw [nameFor, currentName] at h
  rw [select]
  split at h
  · rename_i hname
    rw [if_neg fun hempty => hnamed ⟨hname, hempty⟩] at h
    rwa [if_pos hname]
  · rename_i hname
    rwa [if_neg hname]

end Configuration

namespace CommandLine

theorem exitCode_ne_zero (error : Error) : exitCode error ≠ 0 := by
  unfold exitCode
  split
  · rename_i errno path
    cases errno <;> decide
  · decide
  · decide
  · decide

section Selecting

variable {s s' : Session} {name : String}

theorem selectContext_eq_ok (h : (selectContext s name).value = (.ok (), s')) :
    s' = { s with configuration := s.configuration.select name } ∧
      (name ≠ "" → s.configuration.contexts.contains name = true) := by
  unfold selectContext at h
  split at h
  · rename_i hempty
    cases h
    rw [Configuration.select, if_pos hempty]
    exact ⟨rfl, fun hne => absurd hempty hne⟩
  · rename_i hname
    rw [Configuration.select, if_neg hname]
    unfold Session.useContext at h
    split at h
    · cases h
    · rename_i hstored
      cases h
      exact ⟨rfl, fun _ => by simpa using hstored⟩

end Selecting

section Preparing

variable {p : Program} {w : World} {args : List String} {i : Invocation} {r : Request} {s : Session}
  {overrides : List Layer}

theorem prepare_eq_ok_iff :
    (i.prepare p w).value = .ok (s, overrides) ↔
      ∃ loaded held flags,
        ((startSession p w).load w (i.command == .configure)).value = (.ok loaded, held) ∧
        (selectContext held (textOf .context i.given)).value = (.ok (), s) ∧
        settingsFor s.configuration i.given = .ok flags ∧ overrides = [⟨"flags", flags⟩] := by
  rw [Invocation.prepare, Logged.bind_value]
  constructor
  · intro h
    split at h
    · cases h
    rename_i loaded held hload
    rw [Logged.bind_value] at h
    split at h
    · cases h
    rename_i selected hselect
    split at h
    · cases h
    · rename_i flags hflags
      cases h
      exact ⟨loaded, held, flags, hload, hselect, hflags, rfl⟩
  · rintro ⟨loaded, held, flags, hload, hselect, hflags, rfl⟩
    rw [hload]
    dsimp only
    rw [Logged.bind_value, hselect]
    dsimp only
    rw [hflags]
    rfl

theorem exitCode_of_prepare_error {outcome : Outcome} (h : (i.prepare p w).value = .error outcome) :
    outcome.exitCode ≠ 0 := by
  rw [Invocation.prepare, Logged.bind_value] at h
  split at h
  · cases h
    exact exitCode_ne_zero _
  rw [Logged.bind_value] at h
  split at h
  · cases h
    exact exitCode_ne_zero _
  · split at h
    · cases h
      exact Nat.succ_ne_zero 1
    · cases h

theorem plan_of_parse (hargs : parse args = .proceed i) : plan p w args = i.plan p w := by
  have hne : args ≠ [] := by
    rintro rfl
    cases hargs
  rw [plan, if_neg hne, hargs]

/-- The plan of an invocation is that of its command. -/
theorem plan_of_prepare (hargs : parse args = .proceed i)
    (hrequest : i.command.parse i.arguments = .proceed r)
    (hprepare : (i.prepare p w).value = .ok (s, overrides)) :
    (plan p w args).value = (r.plan s overrides).value := by
  rw [plan_of_parse hargs, Invocation.plan, Logged.bind_value, hprepare]
  dsimp only
  rw [hrequest]

theorem run_value (p : Program) (w : World) (args : List String) :
    (run p w args).value = ((plan p w args).value.run p w).value := rfl

/-- Where nothing is to be saved, the plan is the outcome. -/
theorem run_of_finish {outcome : Outcome} (hplan : (plan p w args).value = .finish outcome) :
    (run p w args).value = (outcome, w) := by
  rw [run_value, hplan]
  rfl

/-- An invocation that succeeds has come to its command. -/
theorem exists_prepare (hargs : parse args = .proceed i)
    (hrequest : i.command.parse i.arguments = .proceed r)
    (hexit : (run p w args).value.1.exitCode = 0) :
    ∃ s overrides, (i.prepare p w).value = .ok (s, overrides) ∧
      (plan p w args).value = (r.plan s overrides).value := by
  cases hprepare : (i.prepare p w).value with
  | ok prepared =>
    obtain ⟨s, overrides⟩ := prepared
    exact ⟨s, overrides, rfl, plan_of_prepare hargs hrequest hprepare⟩
  | error outcome =>
    have hplan : (plan p w args).value = .finish outcome := by
      rw [plan_of_parse hargs, Invocation.plan, Logged.bind_value, hprepare]
      rfl
    rw [run_of_finish hplan] at hexit
    exact absurd hexit (exitCode_of_prepare_error hprepare)

/-- Saving is only planned by a command that has started. -/
theorem exists_request_of_save {s' : Session} {text : Path → String}
    (h : (plan p w args).value = .save s' text) :
    ∃ (i : Invocation) (s : Session) (overrides : List Layer) (r : Request),
      (i.prepare p w).value = .ok (s, overrides) ∧ (r.plan s overrides).value = .save s' text := by
  rw [plan] at h
  split at h
  · cases h
  split at h
  · cases h
  · cases h
  · cases h
  rename_i i _
  rw [Invocation.plan, Logged.bind_value] at h
  split at h
  · cases h
  rename_i s overrides hprepare
  split at h
  · cases h
  · cases h
  · cases h
  · rename_i r _
    exact ⟨i, s, overrides, r, hprepare, h⟩

/-- An invocation that succeeds and was to save has saved. -/
theorem exists_save_of_exitCode {s : Session} {text : Path → String}
    (hplan : (plan p w args).value = .save s text)
    (hexit : (run p w args).value.1.exitCode = 0) :
    ∃ path saved w', (s.save w p.refusals none none).value = (.ok path, saved, w') ∧
      (run p w args).value = (.printed (text path ++ "\n"), w') := by
  rw [run_value, hplan, Plan.run, Logged.bind_value] at hexit
  rw [run_value, hplan, Plan.run, Logged.bind_value]
  rcases hsave : (s.save w p.refusals none none).value with ⟨outcome, saved, w'⟩
  rw [hsave] at hexit
  cases outcome with
  | error error => exact absurd hexit (exitCode_ne_zero error)
  | ok path => exact ⟨path, saved, w', rfl, rfl⟩

end Preparing

section Commands

/-- A plan that ends in an error and saves nothing. -/
def Plan.Fails : Plan → Prop
  | finish outcome => outcome.exitCode ≠ 0
  | save .. => False

theorem fails_failed (error : Error) : (Plan.finish (.failed error)).Fails := exitCode_ne_zero error

theorem fails_refused (why : Refusal) : (Plan.finish (.refused why)).Fails := Nat.succ_ne_zero 0

theorem Plan.Fails.exitCode {plan : Plan} (h : plan.Fails) (p : Program) (w : World) :
    (plan.run p w).value.1.exitCode ≠ 0 := by
  cases plan with
  | finish outcome => exact h
  | save s text => exact h.elim

variable (s : Session) (overrides : List Layer)

theorem planUseContext_cases (name : String) :
    (planUseContext s name).value.Fails ∨
      s.configuration.contexts.contains name = true ∧ (planUseContext s name).value
        = .save { s with configuration := s.configuration.setCurrent name } fun path =>
          "Current context is now '" ++ name ++ "' (" ++ path.text ++ ")" := by
  cases hname : s.configuration.contexts.contains name with
  | true =>
    right
    refine ⟨rfl, ?_⟩
    simp [planUseContext, Session.useContext, hname]
  | false =>
    left
    have hplan : (planUseContext s name).value = .finish (.failed (.missing (.context name))) := by
      simp [planUseContext, Session.useContext, hname]
    rw [hplan]
    exact fails_failed _

theorem planRemoveContext_cases (name : String) :
    (planRemoveContext s name).value.Fails ∨
      (s.configuration.removeContext name).1 = true ∧ (planRemoveContext s name).value
        = .save { s with configuration := (s.configuration.removeContext name).2 } fun _ =>
          "Removed context '" ++ name ++ "'; current context is '"
            ++ (s.configuration.removeContext name).2.current ++ "'" := by
  cases hname : s.configuration.contexts.contains name with
  | false =>
    left
    have hplan : (planRemoveContext s name).value
        = .finish (.refused (.unknownContext name)) := by
      simp [planRemoveContext, hname]
    rw [hplan]
    exact fails_refused _
  | true =>
    cases hremoved : (s.configuration.removeContext name).1 with
    | false =>
      left
      have hplan : (planRemoveContext s name).value
          = .finish (.refused (.lastContext name)) := by
        simp [planRemoveContext, Session.removeContext, hname, hremoved]
      rw [hplan]
      exact fails_refused _
    | true =>
      right
      refine ⟨rfl, ?_⟩
      simp [planRemoveContext, Session.removeContext, hname, hremoved]

/-- A copy that was filled replaces the configuration, with its hosts in normal form, if it is valid
and the timeout of the context can be read. -/
theorem planConfigure_of_filled {context : String} {given : List Given} {settings client : Client}
    {changed : Configuration}
    (hsettings : settingsFor (stage s.configuration context) given = .ok settings)
    (hfilled : ((stage s.configuration context).fillLayers
      (overrides ++ [⟨"configure", settings⟩])).value = (true, changed))
    (hclient : changed.currentClient? = some client) :
    (planConfigure s overrides context given).value =
      match changed.check.bind fun _ => Duration.parse client.timeout with
      | .error error => .finish (.failed error)
      | .ok _ => .save { s with configuration := changed.normalizeHosts } fun path =>
        "Saved context '" ++ changed.current ++ "' to " ++ path.text := by
  -- Validating what was committed finds the hosts in normal form and gives the same verdict.
  have hnormal := changed.currentClient?_normalizeHosts hclient
  have hvalidate : ({ s with configuration := changed.normalizeHosts } : Session).validate
      = (changed.check.bind fun _ =>
          (Duration.parse client.timeout).map fun _ => client.normalizeHost,
        { s with configuration := changed.normalizeHosts }) := by
    rw [Session.validate_eq hnormal, Client.normalizeHost_normalizeHost,
      Configuration.putCurrent_eq_self hnormal, Configuration.check_normalizeHosts]
    rfl
  rw [planConfigure]
  dsimp only
  rw [hsettings]
  dsimp only
  rw [Logged.bind_value, hfilled]
  dsimp only
  cases hcheck : changed.check with
  | error error =>
    have hcommit : s.commit changed = .error error := by
      rw [Session.commit, hcheck]
      rfl
    rw [hcommit]
    rfl
  | ok =>
    have hcommit : s.commit changed = .ok { s with configuration := changed.normalizeHosts } := by
      rw [Session.commit, hcheck]
      rfl
    rw [hcommit]
    dsimp only
    rw [hvalidate, hcheck]
    cases Duration.parse client.timeout <;> rfl

/-- A context is configured in a copy of the configuration, which is saved with its hosts in normal
form if it is valid then and the timeout of the context can be read. -/
theorem planConfigure_cases (context : String) (given : List Given) :
    (planConfigure s overrides context given).value.Fails ∨
      ∃ settings changed client, settingsFor (stage s.configuration context) given = .ok settings ∧
        ((stage s.configuration context).fillLayers (overrides ++ [⟨"configure", settings⟩])).value
          = (true, changed) ∧
        changed.currentClient? = some client ∧ changed.normalizeHosts.check = .ok () ∧
        (∃ duration, Duration.parse client.timeout = .ok duration) ∧
        (planConfigure s overrides context given).value
          = .save { s with configuration := changed.normalizeHosts } fun path =>
            "Saved context '" ++ changed.current ++ "' to " ++ path.text := by
  cases hsettings : settingsFor (stage s.configuration context) given with
  | error error =>
    left
    rw [planConfigure, hsettings]
    exact Nat.succ_ne_zero 1
  | ok settings =>
    generalize hfilled : ((stage s.configuration context).fillLayers
      (overrides ++ [⟨"configure", settings⟩])).value = filled
    obtain ⟨valid, changed⟩ := filled
    cases valid with
    | false =>
      left
      rw [planConfigure, hsettings]
      dsimp only
      rw [Logged.bind_value, hfilled]
      exact fails_failed _
    | true =>
      obtain ⟨client, hclient⟩ := Configuration.exists_of_fillLayers hfilled
      have hplan := planConfigure_of_filled s overrides hsettings hfilled hclient
      cases haccepted : changed.check with
      | error error =>
        rw [haccepted] at hplan
        rw [hplan]
        exact .inl (fails_failed error)
      | ok =>
        cases htimeout : Duration.parse client.timeout with
        | error error =>
          rw [haccepted, htimeout] at hplan
          rw [hplan]
          exact .inl (fails_failed error)
        | ok duration =>
          rw [haccepted, htimeout] at hplan
          rw [← changed.check_normalizeHosts] at haccepted
          exact .inr ⟨settings, changed, client, rfl, hfilled, hclient, haccepted,
            ⟨duration, htimeout⟩, hplan⟩

end Commands

end CommandLine

end ContextConfig
