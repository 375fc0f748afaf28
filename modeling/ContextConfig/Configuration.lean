import ContextConfig.Client
import ContextConfig.OrderedMap
/-!
# Configurations

A configuration holds one client per context name, in insertion order, and the name of the current
context, which need not be stored. Asking for the current client creates an empty one where it is
missing; everything else leaves the stored contexts as they are unless it says so.
-/

namespace ContextConfig

structure Configuration where
  current : String := ""
  contexts : OrderedMap Client := .empty
  deriving DecidableEq, Inhabited

namespace Configuration

/-- The name under which a first context is created when none is current. -/
def defaultContext : String := "master"

def empty : Configuration := {}

/-- The client of the current context, if it is stored. -/
def currentClient? (c : Configuration) : Option Client := c.contexts.get? c.current

/-- There is a context, and all of them are valid. -/
def isValid (c : Configuration) : Bool :=
  !c.contexts.isEmpty && c.contexts.values.all Client.isValid

def invalidContexts (c : Configuration) : List String :=
  (c.contexts.entries.filter fun entry => !entry.2.isValid).map Prod.fst

def currentExists (c : Configuration) : Bool := c.contexts.contains c.current

def setCurrent (c : Configuration) (name : String) : Configuration := { c with current := name }

/-- The name in use: the default one when there is none. -/
def currentName (c : Configuration) : String :=
  if c.current = "" then defaultContext else c.current

/-- Make sure that the current context is stored: where it is missing, an empty client is inserted
under the name in use. -/
def heal (c : Configuration) : Configuration :=
  match c.currentClient? with
  | some _ => c
  | none => { current := c.currentName, contexts := c.contexts.insert c.currentName {} }

/-- The current client of the healed configuration. -/
def healedClient (c : Configuration) : Client := (c.currentClient?).getD {}

/-- Change the current client, if it is stored. -/
def modifyCurrent (c : Configuration) (f : Client → Client) : Configuration :=
  match c.currentClient? with
  | some client => { c with contexts := c.contexts.insert c.current (f client) }
  | none => c

/-- The name of the first valid context other than `name`. -/
def replacementFor (c : Configuration) (name : String) : Option String :=
  (c.contexts.entries.find? fun entry => entry.1 ≠ name && entry.2.isValid).map Prod.fst

/-- Remove a context. Removing the current one makes the first other valid context current; without
one the removal is refused. The flag tells whether the context was removed. -/
def removeContext (c : Configuration) (name : String) : Bool × Configuration :=
  if !c.contexts.contains name then (false, c)
  else if c.current = name then
    match c.replacementFor name with
    | none => (false, c)
    | some other => (true, { current := other, contexts := c.contexts.erase name })
  else (true, { c with contexts := c.contexts.erase name })

/-- Fill the current client from a layer. A missing context only adopts a layer that is valid on
its own. The flag is the validity of the current client afterwards. -/
def fillCurrent (c : Configuration) (layer : Client) : Bool × Configuration :=
  match c.currentClient? with
  | some client =>
    let filled := client.fill layer
    (filled.isValid, { c with contexts := c.contexts.insert c.current filled })
  | none =>
    if layer.isValid then (true, { c with contexts := c.contexts.insert c.current layer })
    else (false, c)

def removeTokens (c : Configuration) : Configuration :=
  { c with contexts := c.contexts.map fun client => { client with token := "" } }

def normalizeHosts (c : Configuration) : Configuration :=
  { c with contexts := c.contexts.map Client.normalizeHost }

/-- Equal current names and equal clients under equal names, in whatever order. -/
def sameAs (a b : Configuration) : Bool :=
  a.current == b.current && a.contexts.sameEntries b.contexts

end Configuration

/-- A configuration whose contexts may not have been set at all. Whatever needs them takes none to
mean an empty map, except that such a configuration is never valid. -/
structure Draft where
  current : String
  contexts : Option (OrderedMap Client)

namespace Draft

def ofConfiguration (c : Configuration) : Draft := ⟨c.current, some c.contexts⟩

/-- The configuration, with an empty map for contexts that were not set. -/
def settle (d : Draft) : Configuration := ⟨d.current, d.contexts.getD .empty⟩

def isValid (d : Draft) : Bool := d.contexts.isSome && d.settle.isValid

end Draft
end ContextConfig
