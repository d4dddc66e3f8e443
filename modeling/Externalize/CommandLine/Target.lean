import Externalize.Cursor

/-
The place that a command line names.

* `Target`: a byte offset, a line and column, or a selected range; any of them may be missing.
* `Target.resolve`: the cursor it stands for in a text.
* `TargetError`: why it stands for none.
-/
namespace Externalize

/-- Where the literal is, as far as it was given. -/
structure Target where
  offset : Option Nat
  line : Option Nat
  column : Option Nat
  selection : Option (Nat × Nat)
deriving DecidableEq

/-- Why a target is no place in a text. -/
inductive TargetError where
  | unspecified
  | noSuchPosition (p : Position)
  | pastEnd (offset size : Nat)
  | insideCharacter (offset : Nat)
deriving DecidableEq

/-- The message of a target error. -/
def TargetError.message : TargetError → String
  | unspecified => "Specify the literal with --offset, --line and --column, or --selection"
  | noSuchPosition p => s!"Position {p.line}:{p.column} is outside the file"
  | pastEnd o n => s!"Position {o} is past the end of the file ({n} bytes)"
  | insideCharacter o => s!"Position {o} is inside a multi-byte character"

namespace Target

/-- The cursor, before its offsets are checked. An offset counts more than a line and column, and
these more than a selection. -/
def cursor (g : Target) (t : Text) : Except TargetError Cursor :=
  match g.offset, g.line, g.column, g.selection with
  | some o, _, _, _ => .ok (.caret o)
  | none, some l, some c, _ =>
    match t.offsetOf ⟨l, c⟩ with
    | some o => .ok (.caret o)
    | none => .error (.noSuchPosition ⟨l, c⟩)
  | none, none, none, some (a, b) => .ok (.selection a b)
  | _, _, _, _ => .error .unspecified

/-- The cursor: it ends within the text, and no end of it splits a character. -/
def resolve (g : Target) (t : Text) : Except TargetError Cursor :=
  match g.cursor t with
  | .error e => .error e
  | .ok c =>
    if t.size < c.stop then .error (.pastEnd c.stop t.size)
    else if t.IsBoundary c.start ∧ t.IsBoundary c.stop then .ok c
    else .error (.insideCharacter c.start)

end Target

end Externalize
