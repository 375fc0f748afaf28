import ContextConfig.Proofs.CommandLine.Edits
import ContextConfig.Proofs.Json.Values
/-!
# The report of a context

The context that is reported is the one that the options name, or else the current one, or else the
default one. Its settings are those that the options give, and for the rest those that are stored,
except for the debug switch: it is looked up before the default context takes the place of a current
one that is not named.
-/

namespace ContextConfig

section Views

theorem TicketSource.legible_describe (source : TicketSource) : source.describe.Legible 1 := by
  cases source <;> exact .object (by simp) (by simp [Json.Legible.string])

theorem Authentication.legible_describe (a : Authentication) : a.describe.Legible 2 := by
  cases a with
  | basic username password => exact .object (by simp) (by simp [Json.Legible.string])
  | kerberos confFile source =>
    refine .object (by simp) ?_
    cases source with
    | none => simp [Json.Legible.string, Json.Legible.null]
    | some source => simp [Json.Legible.string, source.legible_describe]

end Views

namespace CommandLine

section Reports

theorem legible_contextReport (name : String) (client : Client) :
    (contextReport name client).Legible 3 := by
  refine .object (by simp [Client.describeFields]) ?_
  cases h : client.authentication with
  | none => simp [Client.describeFields, h, Json.Legible.string, Json.Legible.null, Json.Legible.bool]
  | some a =>
    simp [Client.describeFields, h, Json.Legible.string, Json.Legible.bool, a.legible_describe]

theorem debug_of_contextReport {name : String} {a b : Client}
    (h : contextReport name a = contextReport name b) : a.debug = b.debug := by
  simp only [contextReport, Client.describeFields, Json.object.injEq, List.cons.injEq,
    Prod.mk.injEq, Json.bool.injEq] at h
  tauto

/-- What is printed tells the reported values apart. -/
theorem report_inj {indent : Option Int} {v v' : Json} {room : Nat} (hv : v.Legible room)
    (hv' : v'.Legible room) (hexit : (report indent v).exitCode = 0)
    (h : report indent v = report indent v') : v = v' := by
  rw [report] at hexit
  rw [report, report] at h
  cases hlayout : layout indent with
  | error error =>
    rw [hlayout] at hexit
    exact absurd hexit (exitCode_ne_zero error)
  | ok layout =>
    rw [hlayout] at h
    simp only [Outcome.printed.injEq, Json.render, String.ext_iff, String.toList_append,
      String.toList_ofList, List.append_cancel_right_eq] at h
    have hread : Json.readWithin room (Json.print layout 0 v ++ []) = .ok v :=
      Json.readWithin_print hv layout rfl
    rw [h, Json.readWithin_print hv' layout rfl] at hread
    cases hread
    rfl

/-- A report that is printed shows the debug setting. -/
theorem debug_of_report {indent : Option Int} {name : String} {a b : Client}
    (hexit : (report indent (contextReport name a)).exitCode = 0)
    (h : report indent (contextReport name a) = report indent (contextReport name b)) :
    a.debug = b.debug :=
  debug_of_contextReport
    (report_inj (legible_contextReport name a) (legible_contextReport name b) hexit h)

end Reports

section Showing

variable {p : Program} {w : World} {located : Located} {args : List String} {i : Invocation}
  {s : Session} {overrides : List Layer} {indent : Option Int} {stored : Client}

theorem run_of_context (hargs : parse args = .proceed i)
    (hrequest : i.command.parse i.arguments = .proceed (.context indent))
    (hprepare : (i.prepare p w).value = .ok (s, overrides)) :
    (run p w args).value = ((showContext s overrides indent).value, w) := by
  rw [run_value, plan_of_prepare hargs hrequest hprepare]
  rfl

/-- A session with a client in the context that is reported. -/
def viewing (s : Session) (client : Client) : Session :=
  { s with configuration :=
      (s.configuration.setCurrent s.configuration.currentName).putCurrent client }

theorem applyOverrides_of_stored
    (h : s.configuration.contexts.get? s.configuration.currentName = some stored) :
    (s.applyOverrides overrides).value
      = ((stored.fillAll overrides).isValid, viewing s (stored.fillAll overrides)) := by
  rw [Session.applyOverrides, Logged.bind_value,
    Configuration.fillLayers_of_some (c := s.configuration.setCurrent s.configuration.currentName) h]
  rfl

/-- A stored context is reported as the layers leave it, if it is accepted then. -/
theorem showContext_of_stored
    (h : s.configuration.contexts.get? s.configuration.currentName = some stored) :
    (showContext s overrides indent).value =
      match (viewing s (stored.fillAll overrides)).validate.1 with
      | .ok client => report indent (contextReport s.configuration.currentName client)
      | .error error => .failed error := by
  obtain ⟨hsame, -⟩ := Session.validate_of_some (s := viewing s (stored.fillAll overrides))
    (Configuration.currentClient?_putCurrent _ _)
  rw [showContext, Logged.bind_value, applyOverrides_of_stored h]
  dsimp only
  rcases hvalidate : (viewing s (stored.fillAll overrides)).validate with ⟨result, validated⟩
  rw [hvalidate] at hsame
  cases hsame
  cases result <;> rfl

/-- Where the debug setting of a stored context is passed over: nothing is said about it, nothing
names the context, and what is found under the empty name, or that nothing is there, differs. -/
structure ForgetsDebug (c : Configuration) (stored : Client) (given : List Given) : Prop where
  switch : switchOf? .debug given = none
  unnamed : textOf .context given = "" ∧ c.current = ""
  differs : debugOf c ≠ stored.debug

/-- What is reported of a stored context: the settings that the options give and its own ones, and
the debug setting that is found before the default context is made current. -/
def viewOf (c : Configuration) (stored : Client) (given : List Given) : Client :=
  { (stored.withOptions given).normalizeHost with
    debug := (switchOf? .debug given).getD (debugOf (c.select (textOf .context given))) }

theorem debugOf_normalizeHosts (c : Configuration) : debugOf c.normalizeHosts = debugOf c := by
  rw [debugOf, debugOf, Configuration.currentClient?, Configuration.get?_normalizeHosts,
    Option.map_map]
  rfl

/-- The flags that are filled into a stored context give what is reported. -/
theorem normalizeHost_fillAll_flags {c : Configuration} {given : List Given} {flags : Client}
    (hflags : settingsFor (c.normalizeHosts.select (textOf .context given)) given = .ok flags)
    (stored : Client) :
    (stored.normalizeHost.fillAll [⟨"flags", flags⟩]).normalizeHost = viewOf c stored given := by
  rw [stored.fillAll_normalizeHost, Client.fillAll_cons, Client.fillAll_nil,
    fill_of_settingsFor hflags, Configuration.normalizeHosts_select, debugOf_normalizeHosts]
  rfl

/-- The context that is selected, or else the current one, or else the default one, is the one whose
debug setting counts, unless that is passed over. -/
theorem debug_viewOf_iff {c : Configuration} {given : List Given}
    (hstored : c.contexts.get? (c.nameFor (textOf .context given)) = some stored) :
    (viewOf c stored given).debug = (stored.withOptions given).debug
      ↔ ¬ ForgetsDebug c stored given := by
  rw [viewOf, Client.withOptions]
  cases hswitch : switchOf? .debug given with
  | some on =>
    refine ⟨fun _ h => ?_, fun _ => rfl⟩
    rw [h.switch] at hswitch
    cases hswitch
  | none =>
    -- Only where neither the options nor the configuration name a context is another one looked up.
    by_cases hunnamed : textOf .context given = "" ∧ c.current = ""
    · have hselect : c.select (textOf .context given) = c := if_pos hunnamed.1
      rw [hselect]
      constructor
      · exact fun hsame h => h.differs hsame
      · intro h
        by_contra hdiffers
        exact h ⟨hswitch, hunnamed, hdiffers⟩
    · rw [debugOf, Configuration.currentClient?_select hunnamed hstored]
      exact ⟨fun _ h => hunnamed h.unnamed, fun _ => rfl⟩

/-- Options that give nothing leave a stored client as it is. -/
theorem fillAll_of_no_options {c : Configuration} {flags : Client}
    (hflags : settingsFor c [] = .ok flags) (hstored : c.currentClient? = some stored) :
    stored.fillAll [⟨"flags", flags⟩] = stored := by
  have hdebug : debugOf c = stored.debug := by
    rw [debugOf, hstored]
    rfl
  rw [Client.fillAll_cons, Client.fillAll_nil, fill_of_settingsFor hflags, hdebug]
  rfl

/-- The current context is reported as it is if it has a name and the layers change nothing. -/
theorem showContext_of_same (hname : s.configuration.current ≠ "")
    (hstored : s.configuration.currentClient? = some stored)
    (hhost : stored.normalizeHost = stored) (hsame : stored.fillAll overrides = stored)
    (hcheck : s.configuration.check = .ok ())
    (htimeout : ∃ duration, Duration.parse stored.timeout = .ok duration) :
    (showContext s overrides indent).value
      = report indent (contextReport s.configuration.current stored) := by
  have hcurrent : s.configuration.currentName = s.configuration.current := if_neg hname
  have hput : s.configuration.putCurrent stored = s.configuration :=
    Configuration.putCurrent_eq_self hstored
  have hviewing : viewing s (stored.fillAll overrides) = s := by
    rw [hsame, viewing, hcurrent]
    exact congrArg (fun configuration => { s with configuration }) hput
  have hshown : (showContext s overrides indent).value = _ :=
    showContext_of_stored (by rw [hcurrent]; exact hstored)
  obtain ⟨-, haccepted⟩ := Session.validate_of_some hstored
  rw [hhost, hput] at haccepted
  rw [hshown, hviewing, (haccepted stored).mpr ⟨rfl, hcheck, htimeout⟩, hcurrent]

/-- The current context is reported as it is stored when nothing is asked for, if it has a name, the
hosts are normalised, the configuration is valid and its timeout can be read. -/
theorem run_context_settled
    (hlocate : (w.locate (searchRoots p w) [Format.json, .yaml]).value = .ok located)
    (hname : located.configuration.current ≠ "")
    (hnormal : located.configuration.normalizeHosts = located.configuration)
    (hstored : located.configuration.currentClient? = some stored)
    (hcheck : located.configuration.check = .ok ())
    (htimeout : ∃ duration, Duration.parse stored.timeout = .ok duration) :
    (run p w ["context"]).value
      = (.printed ((contextReport located.configuration.current stored).render .compact ++ "\n"), w) := by
  have hargs : parse ["context"] = .proceed ⟨[], .context, []⟩ := by decide +kernel
  have hrequest : Command.context.parse [] = .proceed (.context none) := by decide +kernel
  obtain ⟨flags, hflags, hprepare⟩ := prepare_of_no_options hlocate .context []
  have hheld : ((startSession p w).adopt located).2.configuration = located.configuration := hnormal
  have hhost : stored.normalizeHost = stored := by
    have hsame := located.configuration.currentClient?_normalizeHosts hstored
    rw [hnormal, hstored] at hsame
    exact (Option.some.inj hsame).symm
  rw [hnormal] at hflags
  have hshown : (showContext ((startSession p w).adopt located).2 [⟨"flags", flags⟩] none).value
      = report none (contextReport located.configuration.current stored) := by
    rw [← hheld] at hname hstored hcheck hflags ⊢
    exact showContext_of_same hname hstored hhost (fillAll_of_no_options hflags hstored) hcheck
      htimeout
  rw [run_of_context hargs hrequest hprepare, hshown]
  rfl

/-- The context that the options name, or else the current one, or else the default one, is reported
if it is stored: with the settings that the options give in place of its own, unless its debug
setting is passed over. -/
theorem run_context (hlocate : (w.locate (searchRoots p w) [Format.json, .yaml]).value = .ok located)
    (hargs : parse args = .proceed i)
    (hrequest : i.command.parse i.arguments = .proceed (.context indent))
    (hstored : located.configuration.contexts.get?
      (located.configuration.nameFor (textOf .context i.given)) = some stored)
    (hexit : (run p w args).value.1.exitCode = 0) :
    (run p w args).value.1
        = report indent (contextReport (located.configuration.nameFor (textOf .context i.given))
          (viewOf located.configuration stored i.given)) ∧
      ((run p w args).value.1
        = report indent (contextReport (located.configuration.nameFor (textOf .context i.given))
          (stored.withOptions i.given).normalizeHost) ↔
        ¬ ForgetsDebug located.configuration stored i.given) := by
  obtain ⟨s, overrides, hprepare, -⟩ := exists_prepare hargs hrequest hexit
  obtain ⟨rfl, flags, hflags, rfl⟩ := prepare_of_located hlocate hprepare
  have hname : (sessionOn p w located (textOf .context i.given)).configuration.currentName
      = located.configuration.nameFor (textOf .context i.given) :=
    Configuration.currentName_select _ _
  have hheld : (sessionOn p w located (textOf .context i.given)).configuration.contexts.get?
      (sessionOn p w located (textOf .context i.given)).configuration.currentName
        = some stored.normalizeHost := by
    rw [hname, sessionOn, Configuration.contexts_select, Configuration.get?_normalizeHosts, hstored]
    rfl
  have hreported : (run p w args).value.1
      = report indent (contextReport (located.configuration.nameFor (textOf .context i.given))
        (viewOf located.configuration stored i.given)) := by
    rw [run_of_context hargs hrequest hprepare, showContext_of_stored hheld] at hexit ⊢
    obtain ⟨-, haccepted⟩ := Session.validate_of_some
      (s := viewing (sessionOn p w located (textOf .context i.given))
        (stored.normalizeHost.fillAll [⟨"flags", flags⟩])) (Configuration.currentClient?_putCurrent _ _)
    cases hvalidate : (viewing (sessionOn p w located (textOf .context i.given))
        (stored.normalizeHost.fillAll [⟨"flags", flags⟩])).validate.1 with
    | error error =>
      rw [hvalidate] at hexit
      exact absurd hexit (exitCode_ne_zero error)
    | ok client =>
      rw [((haccepted client).mp hvalidate).1, normalizeHost_fillAll_flags hflags, hname]
  refine ⟨hreported, ?_⟩
  rw [← debug_viewOf_iff hstored, hreported]
  rw [hreported] at hexit
  constructor
  · exact debug_of_report hexit
  · intro hdebug
    have hview : viewOf located.configuration stored i.given
        = (stored.withOptions i.given).normalizeHost :=
      congrArg (fun debug => { (stored.withOptions i.given).normalizeHost with debug }) hdebug
    rw [hview]

theorem run_context_twoContexts :
    (run (programAt "/home") (homeWith twoContexts)
        ["--context", "b", "--token", "v", "--debug", "context"]).value.1
      = report none (contextReport "b" { host := "http://b:80", token := "v", debug := true }) := by
  have hlocate : ((homeWith twoContexts).locate
      (searchRoots (programAt "/home") (homeWith twoContexts)) [Format.json, .yaml]).value
        = .ok ⟨twoContexts, .ofText "/home/lenses.json", .json⟩ := by decide +kernel
  have hargs : parse ["--context", "b", "--token", "v", "--debug", "context"]
      = .proceed ⟨[.text .context "b", .text .token "v", .toggle .debug true], .context, []⟩ := by
    decide +kernel
  have hrequest : Command.context.parse [] = .proceed (.context none) := by decide +kernel
  have hstored : twoContexts.contexts.get? (twoContexts.nameFor "b")
      = some { host := "http://b:80", token := "u" } := by decide +kernel
  exact (run_context hlocate hargs hrequest hstored (by decide +kernel)).1

/-- A default context with the debug setting on and no context current. -/
def unnamedDebug : Configuration :=
  ⟨"", .ofList [("master", { host := "http://a:80", token := "t", debug := true })]⟩

/-- The context is reported with the debug setting off, though no option says so. -/
theorem not_reportsDebug_unnamedDebug :
    (run (programAt "/home") (homeWith unnamedDebug) ["context"]).value.1
        = report none (contextReport "master" { host := "http://a:80", token := "t" }) ∧
      (run (programAt "/home") (homeWith unnamedDebug) ["context"]).value.1
        ≠ report none (contextReport "master"
          { host := "http://a:80", token := "t", debug := true }) := by
  decide +kernel

end Showing

end CommandLine

end ContextConfig
