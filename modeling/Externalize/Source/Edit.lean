import Externalize.Text.Basic

/-
Edits of a text.

* `Edit`: a byte range and the text to put in its place; all edits of a plan speak of the same text.
* `Plan.apply`: all edits of a plan, or an error and no change. Edits of one place keep the order in
  which they were given.
* `PlanError`: the ways in which a plan does not fit a text.
-/
namespace Externalize

/-- Replace a byte range by a text; an empty range is an insertion. -/
structure Edit where
  start : Nat
  stop : Nat
  text : Text
deriving DecidableEq

namespace Edit

/-- An edit that removes nothing. -/
def isInsertion (e : Edit) : Bool := e.stop ≤ e.start

/-- The order of ranges: by start, then by stop. -/
def precedes (a b : Edit) : Bool := a.start < b.start || (a.start == b.start && a.stop ≤ b.stop)

/-- The edit put into an ordered list, before the edits of the same range. -/
def insertInto (e : Edit) : List Edit → List Edit
  | [] => [e]
  | x :: r => if e.precedes x then e :: x :: r else x :: e.insertInto r

end Edit

/-- Why a plan cannot be applied to a text. -/
inductive PlanError where
  /-- The range is inverted or ends past the text, which has `size` bytes. -/
  | outside (e : Edit) (size : Nat)
  /-- The range cuts a character. -/
  | splitsCharacter (e : Edit)
  /-- The first range ends after the second one starts. -/
  | overlap (a b : Edit)
deriving DecidableEq

/-- The message of a plan error. -/
def PlanError.message : PlanError → String
  | outside e size => s!"Edit {e.start}..{e.stop} is outside the document ({size} bytes)"
  | splitsCharacter e => s!"Edit {e.start}..{e.stop} does not fall on character boundaries"
  | overlap a b => s!"Edits {a.start}..{a.stop} and {b.start}..{b.stop} overlap"

/-- Edits that apply together or not at all. -/
structure Plan where
  edits : List Edit
deriving DecidableEq

namespace Plan

/-- The edits by their ranges, those of one range in the order given. -/
def ordered (p : Plan) : List Edit := p.edits.foldr Edit.insertInto []

/-- What is wrong with the range of one edit. -/
def rangeError? (t : Text) (e : Edit) : Option PlanError :=
  if e.stop < e.start ∨ t.size < e.stop then some (.outside e t.size)
  else if ¬ t.IsBoundary e.start ∨ ¬ t.IsBoundary e.stop then some (.splitsCharacter e)
  else none

/-- The first two neighbours that overlap. -/
def overlap? : List Edit → Option PlanError
  | a :: b :: r => if b.start < a.stop then some (.overlap a b) else overlap? (b :: r)
  | _ => none

/-- The text after ordered edits that fit it: the last one is made first, so that the offsets of
the others stay right. -/
def splices (t : Text) (edits : List Edit) : Text :=
  edits.foldr (fun e t => t.splice e.start e.stop e.text) t

/-- All edits of the plan, or the first error in the order of the ranges. -/
def apply (p : Plan) (t : Text) : Except PlanError Text :=
  match p.ordered.findSome? (rangeError? t) with
  | some e => .error e
  | none =>
    match overlap? p.ordered with
    | some e => .error e
    | none => .ok (splices t p.ordered)

end Plan

end Externalize
