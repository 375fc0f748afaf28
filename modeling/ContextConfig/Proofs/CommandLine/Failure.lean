import ContextConfig.CommandLine.Run
import ContextConfig.Proofs.Saving
/-!
# Invocations that fail change no file

What an invocation comes to is planned first, and only a plan to save touches the tree. Saving is
the last step, so an invocation fails either before it, with the tree as it was, or in it, and then
the files are as they were.
-/

namespace ContextConfig.CommandLine

/-- The command that a request belongs to. -/
def Request.command : Request → Command
  | info => .info
  | contexts _ => .contexts
  | context _ => .context
  | useContext _ => .useContext
  | removeContext _ => .removeContext
  | configure .. => .configure
  | clearTokens => .clearTokens

/-- Whether a command only reports what is stored. -/
def Command.onlyReports : Command → Bool
  | info | contexts | context => true
  | _ => false

theorem bind_eq_ok {α β : Type} {x : Except UsageError α} {f : α → Except UsageError β} {b : β}
    (h : x >>= f = .ok b) : ∃ a, x = .ok a ∧ f a = .ok b := by
  cases x with
  | error error => cases h
  | ok a => exact ⟨a, rfl, h⟩

/-- What a command is asked to do is what that command does. -/
theorem command_of_request {c : Command} {arguments : Arguments} {r : Request}
    (h : c.request arguments = .ok r) : r.command = c := by
  unfold Command.request at h
  cases c
  case useContext =>
    obtain ⟨name, -, hr⟩ := bind_eq_ok h
    cases hr
    rfl
  case removeContext =>
    obtain ⟨name, -, hr⟩ := bind_eq_ok h
    cases hr
    rfl
  all_goals obtain ⟨-, -, hr⟩ := bind_eq_ok h
  case contexts =>
    obtain ⟨indent, -, hr⟩ := bind_eq_ok hr
    cases hr
    rfl
  case context =>
    obtain ⟨indent, -, hr⟩ := bind_eq_ok hr
    cases hr
    rfl
  all_goals
    cases hr
    rfl

namespace Parsed

variable {α : Type} {what : α}

theorem ofExcept_eq_proceed {read : Except UsageError α} (h : ofExcept read = proceed what) :
    read = .ok what := by
  cases read with
  | error error => cases h
  | ok a =>
    cases h
    rfl

theorem ofArguments_eq_proceed {read : Except UsageError Arguments} {f : Arguments → Parsed α}
    (h : ofArguments read f = proceed what) :
    ∃ arguments, read = .ok arguments ∧ f arguments = proceed what := by
  unfold ofArguments at h
  split at h
  · cases h
  · split at h
    · cases h
    · cases h
    · exact ⟨_, rfl, h⟩

end Parsed

theorem command_of_parse {c : Command} {args : List String} {r : Request}
    (h : c.parse args = .proceed r) : r.command = c := by
  obtain ⟨arguments, -, hrequest⟩ := Parsed.ofArguments_eq_proceed h
  exact command_of_request (Parsed.ofExcept_eq_proceed hrequest)

/-- A command that only reports never comes to saving. -/
theorem plan_of_onlyReports {r : Request} (h : r.command.onlyReports = true) (s : Session)
    (overrides : List Layer) : ∃ outcome, (r.plan s overrides).value = .finish outcome := by
  cases r
  case info => exact ⟨_, rfl⟩
  case contexts => exact ⟨_, rfl⟩
  case context => exact ⟨_, rfl⟩
  all_goals cases h

theorem invocation_plan_of_onlyReports {i : Invocation} (h : i.command.onlyReports = true)
    (p : Program) (w : World) : ∃ outcome, (i.plan p w).value = .finish outcome := by
  rw [Invocation.plan, Logged.bind_value]
  cases (i.prepare p w).value with
  | error outcome => exact ⟨_, rfl⟩
  | ok prepared =>
    dsimp only
    cases hparse : i.command.parse i.arguments with
    | proceed request =>
      rw [← command_of_parse hparse] at h
      exact plan_of_onlyReports h _ _
    | help => exact ⟨_, rfl⟩
    | version => exact ⟨_, rfl⟩
    | usage error => exact ⟨_, rfl⟩

end ContextConfig.CommandLine
