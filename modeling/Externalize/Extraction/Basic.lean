import Externalize.Extraction.Candidate
import Externalize.Hook
import Externalize.Resource.Store
import Externalize.Source.Externalizing
import Externalize.Text.Quoted

/-
Extracting a literal.

The literal under the cursor gets a key, the key goes into the resource documents, and the source
text gets the lookup. The source is edited only if a document holds the key.

* `Extraction.preview`: what would be done; it changes nothing.
* `Extraction.begin`: the merge, and the edits that are then due.
* `Extraction.commit`: the edits, then the hook.
-/
namespace Externalize

/-- A document that a plan can be applied to. -/
inductive Source where
  /-- A text that is held in memory. -/
  | memory (text : Text)
  /-- A file, with its content when it was opened or last written. -/
  | file (path : Path) (content : Text)
deriving DecidableEq

/-- Why a source cannot be opened or changed. -/
inductive SourceError where
  | read (path : Path) (e : ReadError)
  | editFile (path : Path) (e : PlanError)
  | editText (e : PlanError)
  | write (e : WriteError)
deriving DecidableEq

/-- The message of a source error. -/
def SourceError.message : SourceError → String
  | read path e => s!"Failed to read file: {path}: {e.message}"
  | editFile path e => s!"Failed to edit {path}: {e.message}"
  | editText e => e.message
  | write e => e.message

namespace Source

/-- The file of a path, with its content. -/
def «open» (fs : FileSystem) (path : Path) : Except SourceError Source :=
  match fs.readText path with
  | .error e => .error (.read path e)
  | .ok t => .ok (file path t)

/-- The text of a source. -/
def content : Source → Text
  | memory t => t
  | file _ t => t

/-- Applies a plan. A file is written once, after all edits are made; an error leaves it, and the
content, as they were. An empty plan does not touch it. -/
def apply (fs : FileSystem) (s : Source) (p : Plan) :
    FileSystem × Except SourceError Source :=
  match s with
  | memory t =>
    match p.apply t with
    | .error e => (fs, .error (.editText e))
    | .ok t => (fs, .ok (memory t))
  | file path t =>
    if p.edits.isEmpty then (fs, .ok (file path t))
    else
      match p.apply t with
      | .error e => (fs, .error (.editFile path e))
      | .ok t =>
        match fs.writeAtomically path t with
        | (fs, .error e) => (fs, .error (.write e))
        | (fs, .ok ()) => (fs, .ok (file path t))

end Source

/-- A literal that is externalized, or would be. -/
structure Extraction where
  candidate : Candidate
  /-- The edits of the source. -/
  plan : Plan
  /-- The documents that the key goes into. -/
  targets : List Path
  /-- None if nothing was written. -/
  merge : Option MergeReport
deriving DecidableEq

namespace Extraction

/-- The target of the records about extractions. -/
def logTarget : String := "arbify::core::extract"

/-- The text that is stored under the key. -/
def value (e : Extraction) : Text := e.candidate.literal.content

/-- Whether a document holds the key, so that the lookup finds it. -/
def isDue (e : Extraction) : Bool := e.merge.any fun r => !r.isTotalFailure

/-- The record of a literal that is passed over for its directive. -/
def locationRecords (t : Text) (c : Cursor) : List LogRecord :=
  match Location.of t c with
  | .directive o =>
    [{ level := .debug, target := "arbify::core::locator",
       message := "literal belongs to a directive, skipping",
       fields := [("offset", ToString.toString o)] }]
  | _ => []

/-- A reason as a record shows it. -/
def skipText : Skip → String
  | .noLiteral => "NoLiteral"
  | .emptyKey content => "EmptyKey \x7b content: " ++ String.ofList content.quoted ++ " \x7d"

/-- What an extraction would do: a literal, its key, its edits and its targets. -/
def preview (s : Store) (fs : FileSystem) (t : Text) (c : Cursor) : Except Skip Extraction :=
  match Candidate.at t c with
  | .error skip => .error skip
  | .ok candidate =>
    .ok ⟨candidate, .externalizing t candidate.literal candidate.key, (s.targets fs).1, none⟩

/-- The records of a preview. -/
def previewRecords (s : Store) (fs : FileSystem) (t : Text) (c : Cursor) : List LogRecord :=
  locationRecords t c ++
    match Candidate.at t c with
    | .error _ => []
    | .ok _ => s.entryRecords fs

/-- A beginning: the files after the merge, the extraction or why there is none, and the records. -/
structure Beginning where
  files : FileSystem
  result : Except DirectoryError (Except Skip Extraction)
  records : List LogRecord

/-- Merges the literal under the cursor and finds the edits that are due. -/
def begin (s : Store) (fs : FileSystem) (t : Text) (c : Cursor) : Beginning :=
  match Candidate.at t c with
  | .error skip =>
    let skipped : LogRecord :=
      { level := .debug, target := logTarget, message := "nothing to extract",
        fields := [("reason", skipText skip)] }
    ⟨fs, .ok (.error skip), locationRecords t c ++ [skipped]⟩
  | .ok candidate =>
    let extracting : LogRecord :=
      { level := .info, target := logTarget,
        message := s!"extracting {String.ofList candidate.literal.content.quoted}",
        fields := [("key", String.ofList candidate.key.text)] }
    let merge := s.merge fs candidate.key candidate.literal.content
    let result := merge.result.map fun report =>
      Except.ok ⟨candidate, .externalizing t candidate.literal candidate.key, report.paths,
        some report⟩
    ⟨merge.files, result, locationRecords t c ++ extracting :: merge.records⟩

/-- A hook that is set up: how the program ends, and the root of the project. -/
structure HookSetting where
  result : ProcessResult
  root : Path

/-- A commit: the files and the source after it, whether the source was edited, the run of the
hook, the programs that were started, and the records. -/
structure Commit where
  files : FileSystem
  result : Except SourceError Source
  edited : Bool
  hook : Option HookRun
  starts : List ProcessStart
  records : List LogRecord

/-- Applies the edits to the source and runs the hook, unless no document holds the key. -/
def commit (e : Extraction) (hook : Option HookSetting) (fs : FileSystem) (source : Source) :
    Commit :=
  if e.isDue then
    match source.apply fs e.plan with
    | (fs, .error err) => ⟨fs, .error err, false, none, [], []⟩
    | (fs, .ok source) =>
      let run := hook.map fun h => Hook.run h.result h.root
      ⟨fs, .ok source, true, run, run.toList.map fun r => ⟨r.call, fs⟩,
        (run.map (·.records)).getD []⟩
  else
    let refused : LogRecord :=
      { level := .warn, target := logTarget,
        message := "no resource document accepted the key, source left unchanged",
        fields := [("key", String.ofList e.candidate.key.text)] }
    ⟨fs, .ok source, false, none, [], [refused]⟩

end Extraction

end Externalize
