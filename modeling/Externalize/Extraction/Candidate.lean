import Externalize.Key
import Externalize.Literal.Location

/-
What a cursor offers for extraction.

* `Candidate`: a literal and the key made of its content.
* `Skip`: why there is none.
-/
namespace Externalize

/-- Why nothing is extracted. -/
inductive Skip where
  /-- No literal contains the cursor. -/
  | noLiteral
  /-- Nothing of the content can be part of a key. -/
  | emptyKey (content : Text)
deriving DecidableEq

/-- A literal and the key made of its content. -/
structure Candidate where
  literal : Literal
  key : Key
deriving DecidableEq

/-- The candidate that a literal makes. -/
def Candidate.ofLiteral (l : Literal) : Except Skip Candidate :=
  match Key.derive? l.content with
  | some k => .ok ⟨l, k⟩
  | none => .error (.emptyKey l.content)

/-- The candidate at a cursor. -/
def Candidate.at (t : Text) (c : Cursor) : Except Skip Candidate :=
  match Literal.at? t c with
  | some l => ofLiteral l
  | none => .error .noLiteral

end Externalize
