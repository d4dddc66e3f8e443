import Externalize.Files.Path
import Externalize.Literal.Location

/-
When an extraction is offered.

* `Trigger`: whether the user points with a caret or a selection.
* `Trigger.applies`: a caret needs a source file and a literal under it; a selection, in any file,
  must not be empty.
-/
namespace Externalize

/-- How the user points at a literal. -/
inductive Trigger where
  | caret
  | selection
deriving DecidableEq

/-- The word for a trigger in settings and on the command line. -/
def Trigger.word : Trigger → String
  | caret => "caret"
  | selection => "selection"

/-- The trigger with this word. -/
def Trigger.ofWord? (t : Text) : Option Trigger :=
  [caret, selection].find? fun m => m.word.toList = t

/-- Whether the extension of a path is one of those listed. -/
def Path.hasExtensionIn (p : Path) (extensions : List Text) : Bool :=
  match p.extension? with
  | some e => extensions.contains e
  | none => false

/-- Whether an extraction is offered at the cursor. -/
def Trigger.applies (mode : Trigger) (file : Option Path) (extensions : List Text) (t : Text)
    (c : Cursor) : Bool :=
  match mode, c with
  | caret, .caret _ =>
    file.any (·.hasExtensionIn extensions) && (Literal.at? t c).isSome
  | selection, .selection _ _ => !c.isEmptySelection
  | _, _ => false

end Externalize
