import ContextConfig.CommandLine.Output
import ContextConfig.Proofs.CommandLine.Failure
import ContextConfig.Proofs.CommandLine.Plan
import ContextConfig.Proofs.CommandLine.Store
/-!
# Printing changes no file

Printing comes last and leaves the tree alone. So an invocation that ends with an error has failed
before anything was stored, or everything has been done and only the text could not be printed.
-/

namespace ContextConfig.CommandLine

namespace Outcome

variable {output : Output} {outcome : Outcome}

end Outcome

section Invocations

variable (output : Output) (p : Program) (w : World) (args : List String)

theorem invoke_value :
    (invoke output p w args).value
      = ((run p w args).value.1.printTo output, (run p w args).value.2) := rfl

/-- An invocation whose text is taken is a run. -/
theorem invoke_takesAll : (invoke .takesAll p w args).value = (run p w args).value := by
  have hprinting : (run p w args).value.1.printing .takesAll = none := ite_self _
  rw [invoke_value, Outcome.printTo, hprinting]

end Invocations

end ContextConfig.CommandLine
