import Externalize.Files.FileSystem
import Externalize.Log.Record
import Externalize.Text.Line

/-
The hook that runs after a source file is edited.

It refreshes the dependencies of the project, so that the generated texts know the new key. What it
says goes to the log, and what becomes of it never changes the result of the extraction.

* `ProcessResult`: how an attempt to run a program can end.
* `HookOutcome`: what that means for the hook.
* `Hook.run`: the one call, its records and its outcome.
-/
namespace Externalize

/-- How an attempt to run a program ends. -/
inductive ProcessResult where
  /-- It ran; it has no code if a signal ended it. -/
  | finished (code : Option Int) (stdout stderr : Text)
  /-- It could not be started. -/
  | notStarted (reason : String)
deriving DecidableEq

/-- A program that was run: its name, its arguments, and the directory it ran in. -/
structure ProcessCall where
  program : String
  arguments : List String
  directory : Path
deriving DecidableEq

/-- A program that was started, and the files as it found them. -/
structure ProcessStart where
  call : ProcessCall
  files : FileSystem
deriving DecidableEq

/-- What became of the hook. -/
inductive HookOutcome where
  | succeeded
  | failed (code : Option Int)
  | notStarted (reason : String)
deriving DecidableEq

namespace Hook

/-- The program that the hook runs. -/
def program : String := "flutter"

/-- Its arguments. -/
def arguments : List String := ["pub", "get"]

/-- The hook as it is typed. -/
def commandLine : String := " ".intercalate (program :: arguments)

end Hook

namespace HookOutcome

/-- Whether the hook did its work. -/
def isSuccess : HookOutcome → Bool
  | succeeded => true
  | _ => false

/-- What is said of an outcome. -/
def message : HookOutcome → String
  | succeeded => s!"`{Hook.commandLine}` succeeded"
  | failed (some code) => s!"`{Hook.commandLine}` exited with status {code}"
  | failed none => s!"`{Hook.commandLine}` was terminated by a signal"
  | notStarted reason => s!"`{Hook.commandLine}` could not be started: {reason}"

/-- What the end of the program means. -/
def ofProcess : ProcessResult → HookOutcome
  | .finished (some 0) _ _ => succeeded
  | .finished code _ _ => failed code
  | .notStarted reason => notStarted reason

end HookOutcome

/-- A run of the hook. -/
structure HookRun where
  outcome : HookOutcome
  call : ProcessCall
  records : List LogRecord
deriving DecidableEq

namespace Hook

/-- The target of the records about the hook. -/
def target : String := "arbify::core::hook"

/-- The records of the lines that the program printed. -/
def outputRecords : ProcessResult → List LogRecord
  | .finished _ stdout stderr =>
    (stdout.lines ++ stderr.lines).map fun line =>
      { level := .info, target := "arbify::hook", message := String.ofList line }
  | .notStarted _ => []

/-- The record of an outcome: a warning unless it is a success. -/
def outcomeRecord (o : HookOutcome) : LogRecord where
  level := if o.isSuccess then .info else .warn
  target := target
  message := o.message

/-- Runs the hook in the root of the project; `result` is how the program ends. -/
def run (result : ProcessResult) (root : Path) : HookRun :=
  let outcome := HookOutcome.ofProcess result
  let started : LogRecord :=
    { level := .info, target := target, message := s!"Running `{commandLine}` in {root}" }
  { outcome, call := ⟨program, arguments, root⟩,
    records := started :: outputRecords result ++ [outcomeRecord outcome] }

end Hook

end Externalize
