import Externalize.CommandLine.Style
import Externalize.Extraction.Basic
import Externalize.Text.Width

/-
What the user is told of an extraction.

Each report is a list of lines. Paths are shown from the root of the project, if they are in it.

* `Report.extracted`: what was written, what could not be written, and whether the hook ran.
* `Report.preview`: what would be written, with the literal underlined.
* `Report.skipped`: why nothing is extracted.
-/
namespace Externalize

/-- What a report needs to know: the root of the project, the source file and its text before any
edit, and whether colours are on. -/
structure Report where
  root : Path
  source : Path
  text : Text
  colours : Bool

namespace Report

/-- The mark of a success. -/
def successMark : Text := ['✓']

/-- The mark of a failure. -/
def failureMark : Text := ['✘']

/-- A line that tells of a failure. -/
def failure (colours : Bool) (message : Text) : Text :=
  Style.red.paint colours failureMark ++ ' ' :: Style.red.paint colours message

/-- What is said of a text that makes no key. -/
def noKey (t : Text) : Text :=
  "Cannot build a key from ".toList ++ t.quoted ++ ": no letters or digits".toList

/-- A path as it is shown. -/
def pathText (x : Report) (p : Path) : Text := ((p.stripBase? x.root).getD p).text

/-- A number as it is shown. -/
def numeral (n : Nat) : Text := (ToString.toString n).toList

/-- A place in the source file as it is shown. -/
def place (x : Report) (p : Position) : Text :=
  x.pathText x.source ++ ':' :: numeral p.line ++ ':' :: numeral p.column

/-- An indented line on a path. -/
def pathLine (x : Report) (p : Path) (what : Text) : Text :=
  "  ".toList ++ x.pathText p ++ ": ".toList ++ what

/-! ### Extractions -/

/-- The literal and its key, after a word on what becomes of them. -/
def headline (x : Report) (what : Text) (e : Extraction) : Text :=
  what ++ Style.bold.paint x.colours e.value.quoted ++ " as ".toList ++
    Style.cyan.paint x.colours e.candidate.key.text

/-- What was written. -/
def successes (x : Report) (e : Extraction) (edited : Bool) (r : MergeReport) : List Text :=
  let editing : Text :=
    if e.plan.edits.any (·.isInsertion) then "rewritten, import added".toList
    else "rewritten".toList
  (Style.green.paint x.colours successMark ++ x.headline " Extracted ".toList e) ::
    r.written.map (fun d =>
      x.pathLine d.path (Style.green.paint x.colours d.action.word.toList)) ++
    if edited then [x.pathLine x.source editing] else []

/-- What could not be written. -/
def failures (x : Report) (r : MergeReport) : List Text :=
  if r.failed.isEmpty then []
  else
    let files := if r.failed.length = 1 then "file" else "files"
    failure x.colours s!"Failed to update {r.failed.length} resource {files}:".toList ::
      r.failed.map (fun d => x.pathLine d.path d.error.message.toList) ++
      if r.isTotalFailure then
        ["  ".toList ++ Style.bold.paint x.colours "note:".toList ++
          ' ' :: x.pathText x.source ++ " was left unchanged".toList]
      else []

/-- The note on a hook that ran. -/
def hookNote (x : Report) : Option HookOutcome → List Text
  | some .succeeded =>
    ["  ".toList ++ Style.dim.paint x.colours HookOutcome.succeeded.message.toList]
  | _ => []

/-- The report on an extraction that was made. -/
def extracted (x : Report) (e : Extraction) (edited : Bool) (hook : Option HookOutcome) :
    List Text :=
  match e.merge with
  | none => []
  | some r =>
    (if r.isTotalFailure then [] else x.successes e edited r) ++ x.failures r ++
      x.hookNote hook

/-! ### Previews -/

/-- So many blanks. -/
def blanks (n : Nat) : Text := List.replicate n ' '

/-- The literal in its line, underlined up to its end or that of the line. -/
def literalLines (x : Report) (l : Literal) : List Text :=
  let p := x.text.positionOf l.start
  let line := x.text.lineAt l.start
  let number := numeral p.line
  let margin := blanks number.length
  let bar := Style.blue.paint x.colours ['|']
  let inLine := x.text.slice l.start (min l.stop (x.text.lineEnd l.start))
  let carets := List.replicate (max 1 inLine.width) '^'
  ["  ".toList ++ Style.blue.paint x.colours "-->".toList ++ ' ' :: x.place p,
    margin ++ ' ' :: bar,
    Style.blue.paint x.colours number ++ ' ' :: bar ++ ' ' :: line,
    margin ++ ' ' :: bar ++ ' ' :: blanks (Text.width (line.take (p.column - 1))) ++
      Style.yellow.paint x.colours carets]

/-- A line on something that would be done. -/
def noteLine (x : Report) (what : String) (text : Text) : Text :=
  "   ".toList ++ Style.blue.paint x.colours ['='] ++ ' ' :: what.toList ++ ": ".toList ++ text

/-- The line on an edit. -/
def editLine (x : Report) (e : Edit) : Text :=
  if e.isInsertion then x.noteLine "add import" e.text.trim else x.noteLine "replace with" e.text

/-- A document that the key would go into. -/
def targetText (x : Report) (fs : FileSystem) (p : Path) : Text :=
  if fs.has p then x.pathText p else x.pathText p ++ " (new)".toList

/-- The report on an extraction that was not made. -/
def preview (x : Report) (fs : FileSystem) (e : Extraction) : List Text :=
  x.headline "Would extract ".toList e :: x.literalLines e.candidate.literal ++
    e.plan.edits.map x.editLine ++
    [x.noteLine "resource files" (List.intercalate ", ".toList (e.targets.map (x.targetText fs)))]

/-! ### Reasons -/

/-- The report on a cursor at which nothing is extracted. -/
def skipped (x : Report) (start : Nat) : Skip → Text
  | .noLiteral =>
    failure x.colours ("No string literal at ".toList ++ x.place (x.text.positionOf start))
  | .emptyKey content => failure x.colours (noKey content)

end Report

end Externalize
