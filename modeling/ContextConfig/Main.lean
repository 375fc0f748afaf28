import ContextConfig.CommandLine.Output
/-!
# The program

The files that can be read are put into a tree, the command is run on it, the files that it wrote
are put back on the disk, and what it has to say is printed.
-/

namespace ContextConfig.FileSystem

open CommandLine

/-- A tree with a file and the directories above it. -/
def withFile (d : Disk) (place : Place) (content : List UInt8) : Disk :=
  let parents := (List.range place.length).tail.map fun n => place.take n
  (parents.foldl (fun d parent => d.put parent .directory) d).put place (.file 0o644 content)

/-- Add a file to a tree if it is there. -/
def addFile (d : Disk) (p : Path) : IO Disk := do
  try
    let content ← IO.FS.readBinFile p.text
    return withFile d p.names content.toList
  catch
    | .permissionDenied .. =>
      let d := withFile d p.names []
      return { d with denied := p.names :: d.denied }
    | _ => return d

/-- The tree of the files that can be configurations. -/
def readWorld (p : Program) (workingDirectory : Path) : IO World := do
  let empty : World := ⟨⟨[], []⟩, workingDirectory⟩
  let roots := ((startSession p empty).locations.roots workingDirectory).value
  let files := roots.flatMap fun root => candidatePaths (root.resolve workingDirectory)
  return { empty with disk := ← files.foldlM addFile empty.disk }

def ownerOnly : IO.FileRight := { user := { read := true, write := true } }

/-- Replace a file by one that only its owner can read. -/
def writeFile (place : Place) (content : List UInt8) : IO Unit := do
  let p := Path.ofText ("/" ++ "/".intercalate place)
  let temporary := p.parent.child (Storing.temporaryName 0)
  IO.FS.createDirAll p.parent.text
  IO.FS.writeBinFile temporary.text ⟨#[]⟩
  IO.setAccessRights temporary.text ownerOnly
  IO.FS.writeBinFile temporary.text ⟨content.toArray⟩
  IO.FS.rename temporary.text p.text

/-- Write the files that differ from what they were. -/
def writeWorld (before after : World) : IO Unit :=
  after.disk.entries.forM fun (place, entry) =>
    match entry with
    | .directory => pure ()
    | .file _ content =>
      if before.disk.get? place = some entry then pure () else writeFile place content

/-- Print a text, and tell what goes wrong. -/
def printText (text : String) : IO (Option Error) := do
  try
    IO.print text
    (← IO.getStdout).flush
    return none
  catch _ => return some (.system .ioError "<stdout>")

end ContextConfig.FileSystem

open ContextConfig in
def main (args : List String) : IO UInt32 := do
  let workingDirectory := Path.ofText (← IO.currentDir).toString
  let values ← variableNames.mapM fun name => return (name, (← IO.getEnv name).getD "")
  let program : CommandLine.Program :=
    { environment := .ofList values, interpreter := .ofText (← IO.appPath).toString }
  let before ← FileSystem.readWorld program workingDirectory
  let (outcome, after) := (CommandLine.run program before args).value
  FileSystem.writeWorld before after
  let refusal ← FileSystem.printText outcome.output
  let outcome := outcome.printTo fun _ => refusal
  if outcome.complaint ≠ "" then IO.eprintln ("Error: " ++ outcome.complaint)
  return UInt32.ofNat outcome.exitCode
