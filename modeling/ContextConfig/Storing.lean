import ContextConfig.Locations
/-!
# Storing configurations

A configuration is written to a temporary file beside its target, which is restricted to its owner
and then renamed. A step that fails takes the temporary file away again, so the previous content
stays, and at no time can others read what is written.
-/

namespace ContextConfig

/-- The format of a file by the end of its name: JSON if that says so, else YAML. -/
def formatForPath (p : Path) : Format :=
  if p.suffix.map Char.toLower = ['.', 'j', 's', 'o', 'n'] then .json else .yaml

/-- The steps of storing a file. -/
inductive StoringStep where
  | makeDirectories
  | create
  | fill
  | restrict
  | rename
  deriving DecidableEq, Repr

/-- The steps at which the operating system refuses for reasons outside the tree. -/
abbrev Refusals := StoringStep → Option Errno

def noRefusals : Refusals := fun _ => none

namespace Storing

def privateMode : Nat := 0o600

def temporaryName (n : Nat) : String := ".lenses-config-" ++ toString n

/-- A name in a directory that is not taken. Among more names than there are entries one is
free. -/
def freshPlace (d : Disk) (directory : Place) : Place :=
  let names := (List.range (d.entries.length + 1)).map temporaryName
  directory ++ [(names.find? fun name => (d.get? (directory ++ [name])).isNone).getD ""]

/-- Rename a file to a path. -/
def rename (d : Disk) (source : Place) (target : Path) : Except Errno Disk := do
  let place ← d.locate target
  match d.get? place, d.get? source with
  | some .directory, _ => throw .isADirectory
  | _, some entry => return (d.remove source).put place entry
  | _, none => throw .noEntry

/-- Fill, restrict and rename a new file at a place. Where a step fails the file is removed. -/
def complete (refusals : Refusals) (d : Disk) (source : Place) (target : Path)
    (payload : List UInt8) : Disk × Except Errno Unit :=
  let created := d.put source (.file privateMode [])
  let giveUp (errno : Errno) : Disk × Except Errno Unit := (created.remove source, .error errno)
  match refusals .fill with
  | some errno => giveUp errno
  | none =>
    let filled := created.put source (.file privateMode payload)
    match refusals .restrict with
    | some errno => giveUp errno
    | none =>
      match refusals .rename with
      | some errno => giveUp errno
      | none =>
        match rename filled source target with
        | .error errno => giveUp errno
        | .ok d => (d, .ok ())

/-- Store bytes under a path from the root. -/
def store (refusals : Refusals) (d : Disk) (target : Path) (payload : List UInt8) :
    Disk × Except Errno Unit :=
  match refusals .makeDirectories with
  | some errno => (d, .error errno)
  | none =>
    match d.makeDirectories target.parent with
    | (d, .error errno) => (d, .error errno)
    | (d, .ok ()) =>
      match refusals .create, d.locate target.parent with
      | some errno, _ => (d, .error errno)
      | none, .error errno => (d, .error errno)
      | none, .ok directory =>
        if d.denied.contains directory then (d, .error .denied)
        else complete refusals d (freshPlace d directory) target payload

end Storing

namespace World

/-- Write a configuration to a file, in the format of its name unless another one is given. -/
def write (w : World) (refusals : Refusals) (c : Configuration) (target : Path)
    (format : Option Format) : Logged (World × Except Error Path) :=
  let format := format.getD (formatForPath target)
  let path := target.absolute w.workingDirectory
  match Storing.store refusals w.disk path (format.encode c) with
  | (disk, .error errno) => return ({ w with disk }, .error (.system errno path.text))
  | (disk, .ok ()) => do
    Logged.log (.saved c.current target.text format)
    return ({ w with disk }, .ok target)

end World
end ContextConfig
