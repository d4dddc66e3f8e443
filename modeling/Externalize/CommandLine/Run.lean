import Externalize.CommandLine.Command
import Externalize.CommandLine.Refusal
import Externalize.CommandLine.Report
import Externalize.Config.Load
import Externalize.Log.Filter

/-
Running a command.

A run takes the files and what surrounds the program, and gives everything that it did: the files
after it, how it ended, what it printed, and the programs that it started.

* `Job.resolve`: what an extraction is about, found without changing anything.
* `Job.preview`, `Job.extract`: the extraction shown, and made; `Job.files_preview` says that
  showing it changes no file.
* `Command.run`: the run of a command.
* `Run.stdout`, `Run.stderr`, `Run.exitCode`: what is seen of a run from outside.
-/
namespace Externalize

/-! ### Runs -/

/-- Something that is printed. -/
inductive Output where
  | out (line : Text)
  | err (line : Text)
  | log (r : LogRecord)
  /-- The description of the command line. -/
  | help
deriving DecidableEq

/-- How a run ends that no error stops. -/
inductive ExitStatus where
  | success
  /-- Not all was done that was asked for. -/
  | failure
deriving DecidableEq

/-- Why a run stops. -/
inductive CommandError where
  | path (p : Path) (e : OsError)
  | config (e : ConfigError)
  | target (e : TargetError)
  | source (e : SourceError)
  | directory (e : DirectoryError)
  | write (e : WriteError)
deriving DecidableEq

/-- The message of an error. -/
def CommandError.message : CommandError → String
  | path p e => s!"Failed to resolve path: {p}: {e.message}"
  | config e => e.message
  | target e => e.message
  | source e => e.message
  | directory e => e.message
  | write e => e.message

/-- What surrounds the program: whether colours are on, and how the program of the hook ends if it
is run. -/
structure Surroundings where
  colours : Bool
  hook : ProcessResult

/-- A run: the files after it, how it ended, what it printed, in order, and the programs that it
started. -/
structure Run where
  files : FileSystem
  result : Except CommandError ExitStatus
  outputs : List Output
  starts : List ProcessStart

namespace Run

/-- A run that changes no file and starts no program. -/
def still (fs : FileSystem) (result : Except CommandError ExitStatus) (outputs : List Output) :
    Run :=
  ⟨fs, result, outputs, []⟩

/-- A run that printed something before. -/
def after (outputs : List Output) (r : Run) : Run := { r with outputs := outputs ++ r.outputs }

@[simp] theorem files_still (fs : FileSystem) (result : Except CommandError ExitStatus)
    (outputs : List Output) : (still fs result outputs).files = fs := rfl

@[simp] theorem starts_still (fs : FileSystem) (result : Except CommandError ExitStatus)
    (outputs : List Output) : (still fs result outputs).starts = [] := rfl

@[simp] theorem files_after (outputs : List Output) (r : Run) :
    (r.after outputs).files = r.files := rfl

@[simp] theorem result_after (outputs : List Output) (r : Run) :
    (r.after outputs).result = r.result := rfl

@[simp] theorem starts_after (outputs : List Output) (r : Run) :
    (r.after outputs).starts = r.starts := rfl

end Run

/-! ### Extractions -/

/-- What an extraction is about. -/
structure Job where
  file : Path
  root : Path
  config : Config
  source : Source
  cursor : Cursor

namespace ExtractRequest

/-- A configuration with what the request puts in place of its settings. -/
def override (r : ExtractRequest) (c : Config) : Config :=
  { c with
    directory := r.directory.getD c.directory
    locale := r.locale.getD c.locale
    trigger := r.trigger.getD c.trigger
    runHook := c.runHook && !r.noHook }

end ExtractRequest

namespace Job

/-- The record of a project that is found. -/
def projectRecord (l : LoadedConfig) (c : Config) : LogRecord where
  level := .debug
  target := "arbify::cli::commands::extract"
  message := s!"Project root {l.root}, resources in {String.ofList c.directory}"
  fields := [("from_file", ToString.toString l.file.isSome)]

/-- Opens the file and finds the cursor in it. -/
def openAt (r : ExtractRequest) (fs : FileSystem) (file root : Path) (c : Config) :
    Except CommandError Job :=
  match Source.open fs file with
  | .error e => .error (.source e)
  | .ok source =>
    match r.target.resolve source.content with
    | .error e => .error (.target e)
    | .ok cursor => .ok ⟨file, root, c, source, cursor⟩

/-- What a request is about, with the records of finding it. -/
def resolve (r : ExtractRequest) (fs : FileSystem) : List LogRecord × Except CommandError Job :=
  match fs.canonical r.file with
  | .error e => ([], .error (.path r.file e))
  | .ok file =>
    match Config.load fs (file.parent?.getD ⟨['.']⟩) with
    | .error e => ([], .error (.config e))
    | .ok loaded =>
      let c := r.override loaded.config
      match c.problem? with
      | some p => (loaded.records, .error (.config (.invalid p)))
      | none => (loaded.records ++ [projectRecord loaded c], openAt r fs file loaded.root c)

/-- The text of the source. -/
def text (j : Job) : Text := j.source.content

/-- The resource documents of the project. -/
def store (j : Job) : Store := j.config.store j.root

/-- The report on the job. -/
def report (j : Job) (colours : Bool) : Report := ⟨j.root, j.file, j.text, colours⟩

/-- Whether an extraction is offered. -/
def isOffered (j : Job) : Bool :=
  j.config.trigger.applies (some j.file) j.config.sourceExtensions j.text j.cursor

/-- The report on a cursor at which nothing is extracted. -/
def skipped (j : Job) (colours : Bool) (skip : Skip) : Output :=
  .err ((j.report colours).skipped j.cursor.start skip)

/-- Tells why an extraction is not offered. -/
def refuse (j : Job) (colours : Bool) (fs : FileSystem) : Run :=
  .still fs (.ok .failure)
    (match Refusal.of? j.config.trigger j.file j.config.sourceExtensions j.cursor with
    | some r => [.err (Report.failure colours r.message)]
    | none =>
      (Extraction.locationRecords j.text j.cursor).map .log ++ [j.skipped colours .noLiteral])

@[simp] theorem files_refuse (j : Job) (colours : Bool) (fs : FileSystem) :
    (j.refuse colours fs).files = fs := rfl

@[simp] theorem starts_refuse (j : Job) (colours : Bool) (fs : FileSystem) :
    (j.refuse colours fs).starts = [] := rfl

/-- Shows what the extraction would do. -/
def preview (j : Job) (colours : Bool) (fs : FileSystem) : Run :=
  .after ((Extraction.previewRecords j.store fs j.text j.cursor).map .log)
    (match Extraction.preview j.store fs j.text j.cursor with
    | .error skip => .still fs (.ok .failure) [j.skipped colours skip]
    | .ok e => .still fs (.ok .success) (((j.report colours).preview fs e).map .out))

@[simp] theorem files_preview (j : Job) (colours : Bool) (fs : FileSystem) :
    (j.preview colours fs).files = fs := by
  rw [preview, Run.files_after]
  split <;> rfl

@[simp] theorem starts_preview (j : Job) (colours : Bool) (fs : FileSystem) :
    (j.preview colours fs).starts = [] := by
  rw [preview, Run.starts_after]
  split <;> rfl

/-- Whether an extraction did all that was asked for. -/
def status (e : Extraction) (edited : Bool) : ExitStatus :=
  if e.merge.any (·.isComplete) && edited then .success else .failure

/-- Commits an extraction and reports on it. -/
def finish (j : Job) (s : Surroundings) (fs : FileSystem) (e : Extraction) : Run :=
  let hook := if j.config.runHook then some ⟨s.hook, j.root⟩ else none
  let done := e.commit hook fs j.source
  let lines := (j.report s.colours).extracted e done.edited (done.hook.map (·.outcome))
  { files := done.files
    result :=
      match done.result with
      | .error err => .error (.source err)
      | .ok _ => .ok (status e done.edited)
    outputs := done.records.map .log ++
      match done.result with
      | .error _ => []
      | .ok _ => lines.map .out
    starts := done.starts }

/-- Makes the extraction. -/
def extract (j : Job) (s : Surroundings) (fs : FileSystem) : Run :=
  let begun := Extraction.begin j.store fs j.text j.cursor
  .after (begun.records.map .log)
    (match begun.result with
    | .error e => .still begun.files (.error (.directory e)) []
    | .ok (.error skip) => .still begun.files (.ok .failure) [j.skipped s.colours skip]
    | .ok (.ok e) => j.finish s begun.files e)

/-- The run of a job. -/
def run (j : Job) (s : Surroundings) (dryRun : Bool) (fs : FileSystem) : Run :=
  if !j.isOffered then j.refuse s.colours fs
  else if dryRun then j.preview s.colours fs
  else j.extract s fs

end Job

/-- The run of an extraction. -/
def ExtractRequest.run (r : ExtractRequest) (s : Surroundings) (fs : FileSystem) : Run :=
  let (records, job) := Job.resolve r fs
  .after (records.map .log)
    (match job with
    | .error e => .still fs (.error e) []
    | .ok j => j.run s r.dryRun fs)

/-! ### Commands -/

/-- Shows the key that words make. -/
def runKey (words : List Text) (s : Surroundings) (fs : FileSystem) : Run :=
  let t : Text := List.intercalate [' '] words
  match Key.derive? t with
  | some k => .still fs (.ok .success) [.out k.text]
  | none => .still fs (.ok .failure) [.err (Report.failure s.colours (Report.noKey t))]

/-- What is said of a new configuration file. -/
def createdLines (colours : Bool) (c : Config) : List Text :=
  let document := (c.store ⟨[]⟩).defaultDocument
  let hook := if c.runHook then Hook.commandLine else "off"
  [Style.green.paint colours Report.successMark ++
      ' ' :: Style.green.paint colours s!"Created {Config.fileName}".toList,
    "  ".toList ++ Style.dim.paint colours s!"resources: {document}, hook: {hook}".toList]

/-- Writes the configuration file with the usual settings, unless there is one. -/
def runInit (s : Surroundings) (fs : FileSystem) : Run :=
  if fs.has Config.fileName then
    .still fs (.ok .failure)
      [.err (Report.failure s.colours s!"{Config.fileName} already exists".toList)]
  else
    match fs.writeAtomically Config.fileName (Config.default.text ++ ['\n']) with
    | (fs, .error e) => .still fs (.error (.write e)) []
    | (fs, .ok ()) => .still fs (.ok .success) ((createdLines s.colours .default).map .out)

/-- The run of a command; without one the command line is described. -/
def Command.run (c : Option Command) (s : Surroundings) (fs : FileSystem) : Run :=
  match c with
  | none => .still fs (.ok .success) [.help]
  | some (.extract r) => r.run s fs
  | some (.key words) => runKey words s fs
  | some .init => runInit s fs

/-! ### Runs from outside -/

namespace Run

/-- What a run prints on its output. -/
def stdout (help : Text) (r : Run) : Text :=
  r.outputs.flatMap fun
    | .out line => line ++ ['\n']
    | .help => help
    | _ => []

/-- What a run prints on its error output: reports, and the records that are shown. -/
def stderr (shown : LogRecord → Option String) (r : Run) : Text :=
  r.outputs.flatMap fun
    | .err line => line ++ ['\n']
    | .log record => ((shown record).map fun line => line.toList ++ ['\n']).getD []
    | _ => []

/-- The code that a run leaves. -/
def exitCode (r : Run) : Nat :=
  match r.result with
  | .ok .success => 0
  | .ok .failure => 1
  | .error _ => 2

/-- The line on an error that stops a run. -/
def errorLine (r : Run) : Text :=
  match r.result with
  | .ok _ => []
  | .error e => s!"Error: {e.message}\n".toList

end Run

end Externalize
