import Externalize.CommandLine.Arguments
import Externalize.CommandLine.Help
import Externalize.CommandLine.Run

/-
The program.

It looks at the files that a command is about, runs the command on them, writes what the run
changed, and prints what the run printed. It starts no other program, so the hook is always reported
as not started.
-/
namespace Externalize.Program

/-- The place of a path without links and steps up. -/
def placeOf (path : String) : Place := (FileSystem.plainNames (.ofString path)).reverse

/-- A path at which there is nothing. -/
def nowhere : Path := .ofString "/dev/null/nowhere"

/-- Adds what is at a path, and a link as a link to where it leads in the end. -/
def look (fs : FileSystem) (p : Path) : IO FileSystem := do
  let some name := p.fileName? | return fs
  let .ok dir ← (IO.FS.realPath p.directory.toString).toBaseIO | return fs
  let place := name :: placeOf dir.toString
  let path := dir / String.ofList name
  let .ok found ← path.symlinkMetadata.toBaseIO | return fs
  match found.type with
  | .dir => return fs.insert place .directory
  | .file =>
    match ← (IO.FS.readBinFile path).toBaseIO with
    | .ok bytes => return fs.insert place (.file bytes FileSystem.defaultMode)
    | .error _ => return fs
  | .symlink =>
    match ← (IO.FS.realPath path).toBaseIO with
    | .ok goal => return fs.insert place (.link (.ofString goal.toString))
    | .error _ => return fs.insert place (.link nowhere)
  | .other => return fs

/-- Adds what is at a path and above it, and the same of the place that it leads to. -/
def lookUp (fs : FileSystem) (p : Path) : IO FileSystem := do
  let mut fs := fs
  for q in p.ancestors.reverse do
    fs ← look fs q
    if let .ok real ← (IO.FS.realPath q.toString).toBaseIO then
      for r in (Path.ofString real.toString).ancestors.reverse do
        fs ← look fs r
  return fs

/-- Adds the entries of a directory. -/
def lookInto (fs : FileSystem) (dir : Path) : IO FileSystem := do
  let mut fs ← lookUp fs dir
  if let .ok real ← (IO.FS.realPath dir.toString).toBaseIO then
    if let .ok entries ← real.readDir.toBaseIO then
      for entry in entries do
        fs ← lookUp fs (dir.join (.ofString entry.fileName))
  return fs

/-- The files that a command is about. -/
def lookFor (c : Option Command) : IO FileSystem := do
  let cwd := Path.ofString (← IO.currentDir).toString
  let mut fs ← lookUp (.mk [] (placeOf cwd.toString)) cwd
  match c with
  | some .init => lookUp fs (cwd.join Config.fileName)
  | some (.extract r) =>
    fs ← lookUp fs (cwd.join r.file)
    if let .ok file := fs.canonical r.file then
      for dir in file.parents do
        for name in Config.fileName :: Config.projectMarks do
          fs ← lookUp fs (dir.join name)
    if let (_, .ok job) := Job.resolve r fs then
      fs ← lookInto fs job.store.directory
    return fs
  | _ => return fs

/-- Writes what differs from the files before the run. -/
def save (before after : FileSystem) : IO Unit := do
  for (place, node) in after.entries do
    let path := (Path.ofPlace place).toString
    if before.node? place ≠ some node then
      match node with
      | .directory => IO.FS.createDirAll path
      | .file bytes _ =>
        if let some (.link _) := before.node? place then IO.FS.removeFile path
        IO.FS.createDirAll (Path.ofPlace place).directory.toString
        IO.FS.writeBinFile path bytes
      | .link _ => pure ()

/-- Runs a command. -/
def run (c : Option Command) : IO UInt32 := do
  let before ← lookFor c
  let stdout ← IO.getStdout
  let stderr ← IO.getStderr
  let colours := (← stdout.isTty) && (← IO.getEnv "NO_COLOR").isNone
  let r := Command.run c ⟨colours, .notStarted OsError.notFound.message⟩ before
  save before r.files
  let verbose := c.any (·.isVerbose)
  let filter := LogFilter.inForce ((← IO.getEnv "ARBIFY_LOG").map (·.toList)) verbose
  let shown (l : LogRecord) : Option String :=
    if filter.shows l then some (l.shown verbose) else none
  stdout.putStr (String.ofList (r.stdout helpText.toList))
  stderr.putStr (String.ofList (r.stderr shown ++ r.errorLine))
  return r.exitCode.toUInt32

end Externalize.Program

open Externalize in
/-- Reads the arguments and runs the command that they ask for. -/
def main (arguments : List String) : IO UInt32 := do
  match Command.ofArguments (arguments.map (·.toList)) with
  | .ok c => Program.run c
  | .error e =>
    if e.isRequest then
      (← IO.getStdout).putStr e.message
      return 0
    else
      (← IO.getStderr).putStr e.message
      return 2
