import ContextConfig.Error
/-!
# File trees

A disk is a tree of directories and files, as a list of the places that are occupied. A path leads
to a place by one name after the other, and every name but the last has to be that of a directory.
Access can be denied place by place: a file is not read then, and a directory is not searched. Names
and paths have a largest size. So a check whether a path leads to a file can fail, without saying
that there is none.
-/

namespace ContextConfig

/-- A place in the tree: the names from the root. -/
abbrev Place := List String

inductive Entry where
  | directory
  | file (mode : Nat) (content : List UInt8)
  deriving DecidableEq, Repr

structure Disk where
  entries : List (Place × Entry)
  /-- The places to which access is denied: files that cannot be read, and directories in which no
  name can be looked up. -/
  denied : List Place := []
  deriving DecidableEq, Repr

/-- The size of a name in bytes. -/
def nameSize (name : String) : Nat := name.utf8ByteSize

/-- The size of a path from the root in bytes, with the slash before each name. -/
def Path.size (p : Path) : Nat :=
  p.names.foldl (fun size name => size + (nameSize name + 1)) (if p.root = .twoSlashes then 1 else 0)

def maxNameSize : Nat := 255

def maxPathSize : Nat := 4095

namespace Disk

/-- The entry at a place. The root is always a directory. -/
def get? (d : Disk) (place : Place) : Option Entry :=
  if place = [] then some .directory
  else (d.entries.find? (·.1 = place)).map Prod.snd

def remove (d : Disk) (place : Place) : Disk :=
  { d with entries := d.entries.filter (·.1 ≠ place) }

/-- Put an entry at a place, whatever was there. -/
def put (d : Disk) (place : Place) (entry : Entry) : Disk :=
  { d.remove place with entries := (place, entry) :: (d.remove place).entries }

def isDirectory (d : Disk) (place : Place) : Bool := d.get? place = some .directory

/-- Why a name cannot be looked up at a place, if it cannot. -/
def refusal (d : Disk) (place : Place) (name : String) : Option Errno :=
  match d.get? place with
  | none => some .noEntry
  | some (.file ..) => some .notADirectory
  | some .directory =>
    if d.denied.contains place then some .denied
    else if maxNameSize < nameSize name then some .nameTooLong
    else none

/-- Follow names from a place. Each name but the last has to lead to a directory. -/
def follow (d : Disk) (place : Place) : List String → Except Errno Place
  | [] => .ok place
  | name :: rest =>
    match d.refusal place name with
    | some errno => .error errno
    | none => if name = ".." then d.follow place.dropLast rest else d.follow (place ++ [name]) rest

/-- The place that a path from the root leads to. -/
def locate (d : Disk) (p : Path) : Except Errno Place :=
  if maxPathSize < p.size then .error .nameTooLong else d.follow [] p.names

/-- The place and the entry of a path from the root. -/
def stat (d : Disk) (p : Path) : Except Errno (Place × Entry) := do
  let place ← d.locate p
  match d.get? place with
  | some entry => return (place, entry)
  | none => throw .noEntry

/-- Whether a path leads to a file. Where nothing is there it does not; where that cannot be told
the check fails. -/
def checkFile (d : Disk) (p : Path) : Except Errno Bool :=
  match d.stat p with
  | .ok (_, .file ..) => .ok true
  | .ok (_, .directory) => .ok false
  | .error errno => if errno.isAbsence then .ok false else .error errno

/-- Whether a path is known to lead to a file. -/
def isFile (d : Disk) (p : Path) : Bool := d.checkFile p matches .ok true

/-- The bytes of a file. -/
def read (d : Disk) (p : Path) : Except Errno (List UInt8) := do
  match ← d.stat p with
  | (_, .directory) => throw .isADirectory
  | (place, .file _ content) => if d.denied.contains place then throw .denied else return content

/-- Make one directory. -/
def makeDirectory (d : Disk) (p : Path) : Except Errno Disk := do
  let place ← d.locate p
  match d.get? place with
  | some _ => throw .fileExists
  | none => return d.put place .directory

/-- Make a directory and those above it, as far as they are missing. An error leaves the
directories that were made before it. -/
def makeDirectories (d : Disk) (p : Path) : Disk × Except Errno Unit :=
  go p.names.length d p
where
  go : Nat → Disk → Path → Disk × Except Errno Unit
    | fuel, d, p =>
      match d.makeDirectory p with
      | .ok d => (d, .ok ())
      | .error .noEntry =>
        match fuel with
        | 0 => (d, .error .noEntry)
        | fuel + 1 =>
          match go fuel d p.parent with
          | (d, .error errno) => (d, .error errno)
          | (d, .ok ()) => settle d p (d.makeDirectory p)
      | .error errno => settle d p (.error errno)
  settle (d : Disk) (p : Path) : Except Errno Disk → Disk × Except Errno Unit
    | .ok d => (d, .ok ())
    | .error errno =>
      match d.stat p with
      | .ok (_, .directory) => (d, .ok ())
      | _ => (d, .error errno)

end Disk
end ContextConfig
