import ContextConfig.Fault
/-!
# Why reading stops

A text that is not well formed has one kind of flaw as far as its readers are concerned; a fault
says more.
-/

namespace ContextConfig.Yaml

/-- Why reading stopped: the text is malformed, or it asks for a value that does not exist. -/
inductive Stop where
  | malformed
  | fault (fault : Fault)
  deriving DecidableEq, Repr

end ContextConfig.Yaml
