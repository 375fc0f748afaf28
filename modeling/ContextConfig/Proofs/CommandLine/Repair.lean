import ContextConfig.Proofs.CommandLine.Configure
/-!
# Repairing invalid contexts

A stored context has all it needs once it is configured with a host and a token. But what is saved
is valid as a whole, so that a context can be repaired exactly if no other one is invalid. If some
are, the refusal names them and the file stays as it is.
-/

namespace ContextConfig

namespace Configuration

/-- A valid client takes the current context off the list of the invalid ones. -/
theorem invalidContexts_putCurrent (c : Configuration) {client : Client}
    (h : client.isValid = true) :
    (c.putCurrent client).invalidContexts = c.invalidContexts.filter (· ≠ c.current) := by
  have hcurrent : c.current ∉ (c.putCurrent client).invalidContexts := by
    intro hmem
    obtain ⟨held, hheld, hinvalid⟩ := mem_invalidContexts.mp hmem
    have hclient := c.currentClient?_putCurrent client
    rw [currentClient?, current_putCurrent, hheld] at hclient
    cases hclient
    rw [h] at hinvalid
    cases hinvalid
  have hsame : (c.putCurrent client).invalidContexts.filter (· ≠ c.current)
      = (c.putCurrent client).invalidContexts := by
    rw [List.filter_eq_self]
    exact fun name hname => decide_eq_true fun hthis => hcurrent (hthis ▸ hname)
  rw [← hsame, ← invalidContexts_erase _ c.current, erase_putCurrent, invalidContexts_erase]

theorem filter_invalidContexts_eq_nil_iff {c : Configuration} {name : String} :
    c.invalidContexts.filter (· ≠ name) = [] ↔
      ∀ entry ∈ c.contexts.entries, entry.1 ≠ name → entry.2.isValid = true := by
  rw [← invalidContexts_erase c c.current, invalidContexts_eq_nil_iff]
  simp [OrderedMap.erase]

end Configuration

namespace CommandLine

section Repairing

/-- The arguments that configure a context with a host and a token. -/
def configureWith (name host token : String) : List String :=
  ["configure", "--context", name, "--host", host, "--token", token]

/-- The options that the command gets then. -/
def connection (name host token : String) : List Given :=
  [.text .context name, .text .host host, .text .token token]

/-- A stored context with another host and another token in it, made current. -/
def reconnect (c : Configuration) (name : String) (stored : Client) (host token : String) :
    Configuration :=
  (c.normalizeHosts.setCurrent name).putCurrent { stored with host, token }

variable {c : Configuration} {name host token : String} {stored flags settings : Client}

theorem isValid_reconnected (hhost : host ≠ "") (htoken : token ≠ "") :
    ({ stored with host, token } : Client).isValid = true :=
  Client.isValid_iff.mpr ⟨hhost, .inl htoken⟩

theorem currentClient?_reconnect (c : Configuration) :
    (reconnect c name stored host token).currentClient? = some { stored with host, token } :=
  Configuration.currentClient?_putCurrent _ _

/-- Only the other contexts can be refused then. -/
theorem check_reconnect (c : Configuration) (hhost : host ≠ "") (htoken : token ≠ "") :
    (reconnect c name stored host token).check =
      if c.invalidContexts.filter (· ≠ name) = [] then .ok ()
      else .error (.invalid (.contexts (c.invalidContexts.filter (· ≠ name)))) := by
  have hinvalid : (reconnect c name stored host token).invalidContexts
      = c.invalidContexts.filter (· ≠ name) := by
    rw [reconnect, Configuration.invalidContexts_putCurrent _ (isValid_reconnected hhost htoken)]
    exact congrArg (List.filter (· ≠ name)) c.invalidContexts_normalizeHosts
  rw [← hinvalid]
  exact Configuration.check_of_some (currentClient?_reconnect c)

/-- The layers of the command give a stored client the host and the token and nothing else. -/
theorem fillLayers_connection (hstored : c.contexts.get? name = some stored) (hhost : host ≠ "")
    (htoken : token ≠ "") (hflags : settingsFor c.normalizeHosts [] = .ok flags)
    (hsettings : settingsFor (c.normalizeHosts.setCurrent name) (connection name host token)
      = .ok settings) :
    ((c.normalizeHosts.setCurrent name).fillLayers
      [⟨"flags", flags⟩, ⟨"configure", settings⟩]).value
        = (true, reconnect c name stored host token) := by
  have hheld : (c.normalizeHosts.setCurrent name).currentClient? = some stored.normalizeHost := by
    have hget := c.get?_normalizeHosts name
    rw [hstored] at hget
    exact hget
  have hdebug : debugOf (c.normalizeHosts.setCurrent name) = stored.debug := by
    rw [debugOf, hheld]
    rfl
  have hgiven : textOf .host (connection name host token) = host ∧
    textOf .token (connection name host token) = token := ⟨rfl, rfl⟩
  have hclient : stored.normalizeHost.fillAll [⟨"flags", flags⟩, ⟨"configure", settings⟩]
      = { stored with host, token } := by
    rw [fillAll_flags_configure hflags hsettings, hdebug, Client.withOptions, hgiven.1, hgiven.2,
      overrideText, if_neg hhost, overrideText, if_neg htoken]
    rfl
  rw [Configuration.fillLayers_of_some hheld, hclient, isValid_reconnected hhost htoken]
  rfl

variable {p : Program} {w : World} {located : Located}

/-- What is planned is to save the context with the host and the token, unless that is refused. -/
theorem plan_configureWith
    (hlocate : (w.locate (searchRoots p w) [Format.json, .yaml]).value = .ok located)
    (hstored : located.configuration.contexts.get? name = some stored)
    (htimeout : ∃ duration, Duration.parse stored.timeout = .ok duration)
    (hname : name ≠ "") (hhost : host ≠ "") (htoken : token ≠ "") :
    (plan p w (configureWith name host token)).value =
      match (reconnect located.configuration name stored host token).check with
      | .error error => .finish (.failed error)
      | .ok () => .save { ((startSession p w).adopt located).2 with
          configuration := (reconnect located.configuration name stored host token).normalizeHosts }
          fun path => "Saved context '" ++ name ++ "' to " ++ path.text := by
  have hargs : parse (configureWith name host token)
      = .proceed ⟨[], .configure, (configureWith name host token).tail⟩ := rfl
  have hrequest : Command.configure.parse (configureWith name host token).tail
      = .proceed (.configure name (connection name host token)) := rfl
  obtain ⟨flags, hflags, hprepare⟩ :=
    prepare_of_no_options hlocate .configure (configureWith name host token).tail
  have hstage : stage ((startSession p w).adopt located).2.configuration name
      = located.configuration.normalizeHosts.setCurrent name := by
    rw [stage, if_neg hname]
    rfl
  obtain ⟨settings, hsettings⟩ : ∃ settings, settingsFor
      (located.configuration.normalizeHosts.setCurrent name) (connection name host token)
        = .ok settings := exists_settingsFor_iff.mpr ⟨none, rfl⟩
  have hfilled := fillLayers_connection hstored hhost htoken hflags hsettings
  rw [← hstage] at hsettings hfilled
  obtain ⟨duration, hduration⟩ := htimeout
  have hplan := planConfigure_of_filled _ [⟨"flags", flags⟩] hsettings hfilled
    (currentClient?_reconnect _)
  rw [hduration] at hplan
  rw [plan_of_prepare hargs hrequest hprepare, Request.plan, hplan]
  cases (reconnect located.configuration name stored host token).check <;> rfl

/-- A stored context whose timeout can be read is repaired by configuring it with a host and a token
exactly if all other contexts are valid. It is saved then to the file where it was found, valid and
with its other settings as they were, and if the format reads what it writes, the next search finds
it there. Otherwise the refusal names the other contexts that are not valid, in their order, and
nothing changes. -/
theorem run_configure_repairs
    (hlocate : (w.locate (searchRoots p w) [Format.json, .yaml]).value = .ok located)
    (hrefusals : p.refusals = noRefusals)
    (hstored : located.configuration.contexts.get? name = some stored)
    (htimeout : ∃ duration, Duration.parse stored.timeout = .ok duration)
    (hname : name ≠ "") (hhost : host ≠ "") (htoken : token ≠ "") :
    ((run p w (configureWith name host token)).value.1.exitCode = 0 ↔
      ∀ entry ∈ located.configuration.contexts.entries, entry.1 ≠ name → entry.2.isValid = true) ∧
    ((run p w (configureWith name host token)).value.1.exitCode = 0 →
      ∃ disk saved client, (run p w (configureWith name host token)).value
          = (.printed ("Saved context '" ++ name ++ "' to " ++ located.path.text ++ "\n"),
            { w with disk }) ∧
        disk.read (w.absolute located.path) = .ok (located.format.encode saved) ∧
        saved.contexts.get? name = some client ∧ client.isValid = true ∧
        client = { stored with host := Host.normalize host, token } ∧
        ((located.format.decode (w.absolute located.path).text (located.format.encode saved)).value
            = .ok saved →
          (({ w with disk } : World).locate (searchRoots p { w with disk })
            [Format.json, .yaml]).value = .ok ⟨saved, located.path, located.format⟩)) ∧
    ((run p w (configureWith name host token)).value.1.exitCode ≠ 0 →
      (run p w (configureWith name host token)).value
        = (.failed (.invalid (.contexts (located.configuration.invalidContexts.filter (· ≠ name)))),
          w)) := by
  have hplan := plan_configureWith (p := p) hlocate hstored htimeout hname hhost htoken
  rw [check_reconnect _ hhost htoken] at hplan
  rw [← Configuration.filter_invalidContexts_eq_nil_iff]
  by_cases hothers : located.configuration.invalidContexts.filter (· ≠ name) = []
  · rw [if_pos hothers] at hplan
    have hexit := exitCode_of_replaced hlocate hrefusals hplan
    obtain ⟨place, disk, -, -, hread, hrun⟩ := run_of_replaced hlocate hplan hexit
    have hclient := Configuration.currentClient?_normalizeHosts
      (reconnect located.configuration name stored host token) (currentClient?_reconnect _)
    have hvalid : ({ stored with host := Host.normalize host, token } : Client).isValid = true :=
      isValid_reconnected (fun hempty => hhost (Host.normalize_eq_empty.mp hempty)) htoken
    refine ⟨⟨fun _ => hothers, fun _ => hexit⟩, fun _ => ?_, fun hfails => absurd hexit hfails⟩
    exact ⟨disk, _, _, hrun, hread, hclient, hvalid, rfl, locate_of_run hlocate hplan hrun hread⟩
  · rw [if_neg hothers] at hplan
    have hrun := run_of_finish hplan
    have hfails : (run p w (configureWith name host token)).value.1.exitCode ≠ 0 := by
      rw [hrun]
      exact fails_failed _
    exact ⟨⟨fun hexit => absurd hexit hfails, fun h => absurd h hothers⟩,
      fun hexit => absurd hexit hfails, fun _ => hrun⟩

/-- Two contexts, the second of which has no token. -/
def oneInvalid : Configuration :=
  ⟨"a", .ofList [("a", { host := "http://a:80", token := "t" }), ("b", { host := "http://b:80" })]⟩

theorem run_configure_repairs_oneInvalid :
    oneInvalid.invalidContexts = ["b"] ∧
      ∃ disk saved, (run (programAt "/home") (homeWith oneInvalid) (configureWith "b" "c" "v")).value
          = (.printed "Saved context 'b' to /home/lenses.json\n", { homeWith oneInvalid with disk }) ∧
        disk.read (.ofText "/home/lenses.json") = .ok (Format.json.encode saved) ∧
        saved.contexts.get? "b" = some { host := "http://c:80", token := "v" } := by
  have hlocate : ((homeWith oneInvalid).locate
      (searchRoots (programAt "/home") (homeWith oneInvalid)) [Format.json, .yaml]).value
        = .ok ⟨oneInvalid, .ofText "/home/lenses.json", .json⟩ := by decide +kernel
  have hstored : oneInvalid.contexts.get? "b" = some { host := "http://b:80" } := by decide +kernel
  have htimeout : ∃ duration, Duration.parse "" = .ok duration := ⟨none, by decide +kernel⟩
  obtain ⟨hrepaired, hsaved, -⟩ := run_configure_repairs (p := programAt "/home") hlocate rfl hstored
    htimeout (by decide) (by decide : "c" ≠ "") (by decide : "v" ≠ "")
  obtain ⟨disk, saved, client, hrun, hread, hclient, -, hsettings, -⟩ :=
    hsaved (hrepaired.mpr (by decide +kernel))
  have hnormal : client = { host := "http://c:80", token := "v" } :=
    hsettings.trans (by decide +kernel)
  rw [hnormal] at hclient
  exact ⟨by decide +kernel, disk, saved, hrun, hread, hclient⟩

/-- Two contexts after their tokens were cleared. -/
def clearedContexts : World :=
  (run (programAt "/home") (homeWith twoContexts) ["clear-tokens"]).value.2

/-- Where the tokens of both contexts were cleared, neither can be repaired: the other one is in the
way. -/
theorem not_repairs_clearedContexts :
    (clearedContexts.locate (searchRoots (programAt "/home") clearedContexts)
        [Format.json, .yaml]).value = .ok ⟨⟨"a", .ofList [("a", { host := "http://a:80" }),
          ("b", { host := "http://b:80" })]⟩, .ofText "/home/lenses.json", .json⟩ ∧
      (programAt "/home").refusals = noRefusals ∧
      ({ host := "http://a:80" } : Client).isValid = false ∧
      (∃ duration, Duration.parse "" = .ok duration) ∧
      (run (programAt "/home") clearedContexts (configureWith "a" "a" "v")).value.1
        = .failed (.invalid (.contexts ["b"])) ∧
      (run (programAt "/home") clearedContexts (configureWith "b" "b" "v")).value.1
        = .failed (.invalid (.contexts ["a"])) :=
  ⟨by decide +kernel, rfl, by decide +kernel, ⟨none, by decide +kernel⟩, by decide +kernel,
    by decide +kernel⟩

end Repairing

end CommandLine

end ContextConfig
