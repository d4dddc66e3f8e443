import Externalize.Cursor
import Externalize.Literal.Basic
import Externalize.Text.Blank

/-
The literal under the cursor.

A caret sees the literals of its own line only; a selection sees those of every line it touches and
must lie within one of them. A literal on the line of a directive names a file, not a text for the
user, and is not offered.

* `Location`: what is found.
* `Location.of`: the search.
-/
namespace Externalize

/-- Whether a line is an `import`, `export` or `part` directive. -/
def isDirectiveLine (line : Text) : Bool :=
  let word := line.trimStart
  "import ".toList.isPrefixOf word || "export ".toList.isPrefixOf word ||
    "part ".toList.isPrefixOf word

/-- What a cursor points at. -/
inductive Location where
  /-- No literal contains the cursor. -/
  | nothing
  /-- The literal at this offset stands on the line of a directive. -/
  | directive (offset : Nat)
  | literal (found : Literal)
deriving DecidableEq

namespace Location

/-- The literal that a cursor points at, searched for in the lines that the cursor touches. -/
def of (t : Text) (c : Cursor) : Location :=
  let (first, last) := c.lines t
  match Literal.containing? (t.slice first last) (c.start - first) (c.stop - first) with
  | none => nothing
  | some l =>
    let found := l.shift first
    if isDirectiveLine (t.lineAt found.start) then directive found.start else literal found

/-- The literal, if one is offered. -/
def literal? : Location → Option Literal
  | literal l => some l
  | _ => none

end Location

/-- The literal that a cursor points at, if one is offered. -/
def Literal.at? (t : Text) (c : Cursor) : Option Literal := (Location.of t c).literal?

end Externalize
