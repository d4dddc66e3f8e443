import Externalize.Text.Basic

/-
Lines of a text.

A line ends before `\n` or at the end of the text, and a `\r` right before that end belongs to the
terminator.

* `Text.lineStart`, `Text.lineEnd`: the byte range of the line that holds an offset.
* `Text.offsetOf`: the offset of a line and column, both counted from one, columns in characters.
* `Text.positionOf`: the line and column of an offset.
-/
namespace Externalize

/-- A place in a text: line and column, counted from one, the column in characters. -/
structure Position where
  line : Nat
  column : Nat
deriving DecidableEq

namespace Text

/-- The characters up to the first `\n`. -/
def firstLine (t : Text) : Text := t.takeWhile (· != '\n')

/-- A line without the `\r` that may end it. -/
def dropReturn (line : Text) : Text := if line.getLast? = some '\r' then line.dropLast else line

/-- The first byte of the line that holds the offset. -/
def lineStart (t : Text) (o : Nat) : Nat :=
  size ((before t o).reverse.dropWhile (· != '\n'))

/-- The byte after the last character of the line that holds the offset, its terminator not
counted; never less than the offset. -/
def lineEnd (t : Text) (o : Nat) : Nat :=
  let rest := after t o
  size t - size rest + size (dropReturn (firstLine rest))

/-- The line that holds the offset, without its terminator. -/
def lineAt (t : Text) (o : Nat) : Text := slice t (lineStart t o) (lineEnd t o)

/-- The text after its first `n` terminators; none if it has fewer. -/
def dropLines : Nat → Text → Option Text
  | 0, t => some t
  | n + 1, t =>
    match t.dropWhile (· != '\n') with
    | [] => none
    | _ :: r => dropLines n r

/-- The offset of a position. A column past the end of its line stands for the end of that line;
a line that does not exist has no offset, nor has a zero. -/
def offsetOf (t : Text) (p : Position) : Option Nat :=
  if p.line = 0 ∨ p.column = 0 then none
  else
    (dropLines (p.line - 1) t).map fun rest =>
      size t - size rest + size ((dropReturn (firstLine rest)).take (p.column - 1))

/-- The position of an offset. -/
def positionOf (t : Text) (o : Nat) : Position where
  line := (before t o).count '\n' + 1
  column := (slice t (lineStart t o) o).length + 1

/-- The lines of a text, each with the `\n` that ends it. -/
def terminatedLines : Text → List Text
  | [] => []
  | c :: r =>
    if c = '\n' then [c] :: terminatedLines r
    else
      match terminatedLines r with
      | [] => [[c]]
      | line :: lines => (c :: line) :: lines

/-- The lines of a text, each without its terminator: `\n` or `\r\n`. -/
def lines (t : Text) : List Text :=
  (terminatedLines t).map fun line =>
    if line.getLast? = some '\n' then dropReturn line.dropLast else line

/-- Nothing is lost in the lines. -/
theorem flatten_terminatedLines (t : Text) : (terminatedLines t).flatten = t := by
  induction t with
  | nil => rfl
  | cons c r ih =>
    simp only [terminatedLines]
    split
    next => simp [ih]
    next =>
      split
      next h => simp [h] at ih; simp [← ih]
      next line ls h => simp [h] at ih; simp [← ih]

end Text

end Externalize
