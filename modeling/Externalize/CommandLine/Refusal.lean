import Externalize.Trigger

/-
Why an extraction is not offered at a cursor.

* `Refusal.of?`: the reason that the trigger or the file gives; none if all that can be missing is
  the literal, as `Refusal.applies_of_none` says.
-/
namespace Externalize

/-- Why an extraction is not offered. -/
inductive Refusal where
  /-- A selection is given where a caret is wanted. -/
  | unwantedSelection
  /-- A caret is given where a selection is wanted. -/
  | missingSelection
  | emptySelection
  /-- The extension of the file is none of those listed. -/
  | notSource (file : Path) (extensions : List Text)
deriving DecidableEq

namespace Refusal

/-- The message of a refusal. -/
def message : Refusal → Text
  | unwantedSelection =>
    "--selection needs selection mode (pass --mode selection or set \"triggerMode\")".toList
  | missingSelection => "Selection mode needs --selection START..END".toList
  | emptySelection => "The selection is empty".toList
  | notSource file extensions =>
    file.text ++ " is not a source file (expected ".toList ++
      List.intercalate ", ".toList (extensions.map ('.' :: ·)) ++ [')']

/-- The reason that is given where an extraction is not offered. -/
def of? (mode : Trigger) (file : Path) (extensions : List Text) : Cursor → Option Refusal
  | .selection _ _ =>
    match mode with
    | .caret => some unwantedSelection
    | .selection => some emptySelection
  | .caret _ =>
    match mode with
    | .selection => some missingSelection
    | .caret => if file.hasExtensionIn extensions then none else some (notSource file extensions)

/-- Without a reason, all that is missing is a literal at the caret. -/
theorem applies_of_none {mode : Trigger} {file : Path} {extensions : List Text} {c : Cursor}
    (h : of? mode file extensions c = none) (t : Text) :
    mode.applies (some file) extensions t c = (Literal.at? t c).isSome := by
  cases c <;> cases mode <;> simp_all [of?, Trigger.applies]

end Refusal

end Externalize
