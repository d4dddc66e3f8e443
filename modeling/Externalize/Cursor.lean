import Externalize.Text.Line

/-
Where the user points.

* `Cursor`: a caret at a byte offset, or a selected byte range whose ends may come in either order.
* `Cursor.lines`: the byte range of the lines that the cursor touches.
-/
namespace Externalize

/-- A caret or a selection, in byte offsets. -/
inductive Cursor where
  | caret (offset : Nat)
  | selection (start stop : Nat)
deriving DecidableEq

namespace Cursor

/-- The first offset of the cursor. -/
def start : Cursor → Nat
  | caret o => o
  | selection s _ => s

/-- The last offset of the cursor. -/
def stop : Cursor → Nat
  | caret o => o
  | selection _ e => e

/-- The cursor selects, but nothing. -/
def isEmptySelection : Cursor → Bool
  | caret _ => false
  | selection s e => e ≤ s

/-- The bytes of the lines from the one that holds the start to the one that holds the stop,
without the last terminator. -/
def lines (c : Cursor) (t : Text) : Nat × Nat :=
  let first := t.lineStart c.start
  (first, max (t.lineEnd c.stop) first)

end Cursor

end Externalize
