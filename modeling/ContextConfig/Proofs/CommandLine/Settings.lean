import ContextConfig.CommandLine.Run
import ContextConfig.Proofs.Normalization
/-!
# What options make of a client

Options replace the settings that they give and leave the others as they are, and credentials are
one setting. A layer made of options is almost the same: only the debug switch is part of it in any
case, so that where the options do not give one it matters for which client the layer was made.
-/

namespace ContextConfig

/-- A client with the settings that options give in place of its own. -/
def Client.withOptions (client : Client) (given : List CommandLine.Given) : Client where
  host := overrideText client.host (CommandLine.textOf .host given)
  token := overrideText client.token (CommandLine.textOf .token given)
  timeout := overrideText client.timeout (CommandLine.textOf .timeout given)
  debug := (CommandLine.switchOf? .debug given).getD client.debug
  authentication := ((CommandLine.credentials given).toOption.join).or client.authentication

namespace CommandLine

variable {given : List Given} {flags : Client}

/-- Options describe settings unless they contradict each other, whatever they are for. -/
theorem exists_settingsFor_iff {c : Configuration} :
    (∃ flags, settingsFor c given = .ok flags) ↔ ∃ a, credentials given = .ok a := by
  rw [settingsFor, CommandLine.settings]
  cases credentials given with
  | ok a => exact ⟨fun _ => ⟨a, rfl⟩, fun _ => ⟨_, rfl⟩⟩
  | error error =>
    constructor
    · rintro ⟨flags, h⟩
      cases h
    · rintro ⟨a, h⟩
      cases h

/-- The debug setting of the current context, where there is one. -/
def debugOf (c : Configuration) : Bool := (c.currentClient?.map Client.debug).getD false

theorem fill_of_settingsFor {c : Configuration} (h : settingsFor c given = .ok flags)
    (client : Client) : client.fill flags
      = { client.withOptions given with debug := (switchOf? .debug given).getD (debugOf c) } := by
  obtain ⟨a, ha⟩ := exists_settingsFor_iff.mp ⟨flags, h⟩
  rw [settingsFor, CommandLine.settings, ha] at h
  cases h
  rw [Client.fill, Client.withOptions, ha]
  rfl

end CommandLine

end ContextConfig
