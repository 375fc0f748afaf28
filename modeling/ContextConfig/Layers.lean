import ContextConfig.Configuration
import ContextConfig.Log
/-!
# Override layers

Partial settings from several sources are filled into the current context one after the other,
lowest precedence first. Every layer is reported with the fields it changed. A missing context is
seeded by the first layer that is valid on its own; layers refused before it change nothing.
-/

namespace ContextConfig

/-- Partial settings and the name of their source. -/
structure Layer where
  source : String
  settings : Client
  deriving DecidableEq, Repr

namespace Layer

/-- Fill one layer into the current context. -/
def apply (c : Configuration) (layer : Layer) : Logged (Bool × Configuration) :=
  let (valid, filled) := c.fillCurrent layer.settings
  let fields :=
    if filled.currentExists then (c.currentClient?.getD {}).changedFields layer.settings else []
  do
    Logged.log (.overrideApplied filled.current layer.source fields valid)
    return (valid, filled)

end Layer

namespace Configuration

/-- Fill layers into the current context, from a known validity of it. -/
def fillFrom (valid : Bool) (c : Configuration) : List Layer → Logged (Bool × Configuration)
  | [] => pure (valid, c)
  | layer :: rest => do
    let (valid, filled) ← layer.apply c
    fillFrom valid filled rest

/-- Fill layers into the current context. The flag is the validity of the current client after the
last one; it is false while the context is missing. -/
def fillLayers (c : Configuration) (layers : List Layer) : Logged (Bool × Configuration) :=
  c.fillFrom (c.currentClient?.any Client.isValid) layers

end Configuration
end ContextConfig
