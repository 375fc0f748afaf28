import ContextConfig.Disk
/-!
# Where configurations are searched

A configuration is looked for in three directories: that of the user's configurations, that of the
program, and the working directory. The first one is named by an environment variable or lies in
the user's home; without a home the other two are searched alone.
-/

namespace ContextConfig

/-- The values of the names in an environment. -/
abbrev Environment := OrderedMap String

/-- What a lookup of files depends on: the tree and the working directory of the process. -/
structure World where
  disk : Disk
  workingDirectory : Path

/-- What is known about the running program and its user. -/
structure Locations where
  cwd : Path
  executable : Path
  environment : Environment
  platform : String
  userHome : String

def defaultPlatform : String := "linux"

/-- The names under which a configuration can be stored, in the order of preference. -/
def candidateNames : List String :=
  ["lenses.yml", "lenses.yaml", "lenses.json", ".lenses.yml", ".lenses.yaml", ".lenses.json",
    "lenses-cli.yml", "lenses-cli.yaml", "lenses-cli.json", ".lenses-cli.yml", ".lenses-cli.yaml",
    ".lenses-cli.json"]

/-- The name under which a configuration is stored for the first time. -/
def defaultName : String := "lenses-cli.yml"

/-- The names in the environment that locations depend on. -/
def variableNames : List String :=
  [homeVariable, "HOME", "home", "HOMEDRIVE", "HOMEPATH", "USERPROFILE"]

/-- The directory of configurations in the user's home. -/
def homeDirectoryName : String := ".lenses"

def candidatePaths (directory : Path) : List Path := candidateNames.map directory.child

def valueOf (environment : Environment) (name : String) : String := (environment.get? name).getD ""

/-- The first text that is not empty. -/
def firstNonempty (texts : List String) : String := (texts.find? (· ≠ "")).getD ""

/-- The home directory of the user: the one on record, else the one that the environment names. -/
def homeDirectory (environment : Environment) (platform userHome : String) : String :=
  let value := valueOf environment
  firstNonempty ([userHome, value "HOME"] ++
    if platform = "plan9" then [value "home"]
    else if Text.startsWith ['w', 'i', 'n'] platform.toList then
      [value "HOMEDRIVE" ++ value "HOMEPATH", value "USERPROFILE"]
    else [])

/-- The path of the running program: its first argument if that is a file. -/
def defaultExecutable (w : World) (firstArgument : String) (interpreter : Path) : Path :=
  let path := Path.ofText firstArgument
  if firstArgument ≠ "" && w.disk.isFile (path.absolute w.workingDirectory) then path
  else interpreter

namespace Locations

/-- The directory of the user's configurations. -/
def configHome (l : Locations) : Except Error Path :=
  let override := valueOf l.environment homeVariable
  if override ≠ "" then .ok (.ofText override)
  else
    match homeDirectory l.environment l.platform l.userHome with
    | "" => .error (.missing .home)
    | home => .ok ((Path.ofText home).child homeDirectoryName)

def executableDirectory (l : Locations) (workingDirectory : Path) : Path :=
  (l.executable.resolve workingDirectory).parent

/-- Paths without those that lead to the same place as an earlier one. -/
def distinctPaths (workingDirectory : Path) : List Path → List Path → List Path
  | _, [] => []
  | seen, p :: rest =>
    let place := p.resolve workingDirectory
    if seen.contains place then distinctPaths workingDirectory seen rest
    else p :: distinctPaths workingDirectory (place :: seen) rest

/-- The directories to search, in order and each of them once. -/
def roots (l : Locations) (workingDirectory : Path) : Logged (List Path) := do
  let home ← match l.configHome with
    | .ok home => pure [home]
    | .error _ => do
      Logged.log .homeUnresolved
      pure []
  let roots := distinctPaths workingDirectory []
    (home ++ [l.executableDirectory workingDirectory, l.cwd])
  Logged.log (.searchRoots (roots.map Path.text))
  return roots

end Locations
end ContextConfig
