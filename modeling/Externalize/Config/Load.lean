import Externalize.Config.Reader

/-
The configuration that is in force for a file.

* `Config.find?`: the nearest configuration file; the search ends at the root of a repository.
* `Config.projectRoot?`: the nearest directory that holds a mark of a project.
* `Config.load`: the configuration, and the root of the project.
-/
namespace Externalize

/-- Why there is no configuration. -/
inductive ConfigError where
  | read (path : Path) (e : ReadError)
  | syntaxFault (path : Path) (text : Text) (f : Json.Fault)
  | invalid (p : ConfigProblem)
deriving DecidableEq

/-- The message of a configuration error. -/
def ConfigError.message : ConfigError → String
  | read path e => s!"Failed to read config file: {path}: {e.message}"
  | syntaxFault path t f => s!"Failed to parse config file: {path}: {f.message t}"
  | invalid p => p.message

/-- A configuration, the root of the project, and the file that gave it, if one did. -/
structure LoadedConfig where
  config : Config
  root : Path
  file : Option Path
deriving DecidableEq

namespace Config

/-- The directory that marks the root of a repository. -/
def repositoryMark : Path := .ofString ".git"

/-- What marks the root of a project. -/
def projectMarks : List Path := [.ofString "pubspec.yaml", repositoryMark]

/-- The configuration file in the first of some directories that has one, none of those before it
being the root of a repository. -/
def findIn (fs : FileSystem) : List Path → Option Path
  | [] => none
  | d :: ds =>
    if fs.has (d.join fileName) then some (d.join fileName)
    else if fs.has (d.join repositoryMark) then none
    else findIn fs ds

/-- The nearest configuration file of a directory. -/
def find? (fs : FileSystem) (start : Path) : Option Path := findIn fs start.ancestors

/-- The nearest directory that holds a mark of a project. -/
def projectRoot? (fs : FileSystem) (start : Path) : Option Path :=
  start.ancestors.find? fun d => projectMarks.any fun m => fs.has (d.join m)

/-- The configuration of a file. -/
def ofFile (fs : FileSystem) (path : Path) : Except ConfigError Config :=
  match fs.readText path with
  | .error e => .error (.read path e)
  | .ok t =>
    match parse t with
    | .error f => .error (.syntaxFault path t f)
    | .ok c =>
      match c.problem? with
      | some p => .error (.invalid p)
      | none => .ok c

/-- The configuration in force in a directory. A file gives the root of the project as well; else
that is the nearest directory with a mark, or the directory itself. -/
def load (fs : FileSystem) (start : Path) : Except ConfigError LoadedConfig :=
  match find? fs start with
  | some path => (ofFile fs path).map fun c => ⟨c, path.parent?.getD start, some path⟩
  | none => .ok ⟨default, (projectRoot? fs start).getD start, none⟩

end Config

/-- The records of a configuration that is loaded. -/
def LoadedConfig.records (l : LoadedConfig) : List LogRecord :=
  l.file.toList.map fun path =>
    { level := .debug, target := "arbify::config", message := s!"Loaded config from {path}" }

end Externalize
