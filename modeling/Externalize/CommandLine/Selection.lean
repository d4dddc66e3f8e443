import Externalize.Numeric.Word64
import Externalize.Text.Blank

/-
A selected range, as it is typed.

* `Selection.ofText`: the two offsets of `START..END`, blanks allowed around each of them.
* `SelectionFault`: what is wrong with a text.
* `Selection.ofText_le`: the first offset is not after the second.
-/
namespace Externalize

/-- Why a text is no range. -/
inductive SelectionFault where
  /-- It has no two dots. -/
  | noDots (text : Text)
  | start (text : Text)
  | stop (text : Text)
  /-- The first offset is after the second. -/
  | reversed (start stop : Nat)
deriving DecidableEq

/-- The message of a fault. -/
def SelectionFault.message : SelectionFault → String
  | noDots t => s!"expected START..END, got \"{String.ofList t}\""
  | start t => s!"invalid selection start \"{String.ofList t}\""
  | stop t => s!"invalid selection end \"{String.ofList t}\""
  | reversed a b => s!"selection start {a} is after end {b}"

namespace Selection

/-- What stands before and after the first two dots in a row. -/
def cut? : Text → Option (Text × Text)
  | '.' :: '.' :: r => some ([], r)
  | c :: r => (cut? r).map fun (a, b) => (c :: a, b)
  | [] => none

/-- The number of one side. -/
def side (fault : Text → SelectionFault) (t : Text) : Except SelectionFault Nat :=
  match Word64.ofText t.trim with
  | .ok n => .ok n
  | .error _ => .error (fault t)

/-- The range that a text writes. -/
def ofText (t : Text) : Except SelectionFault (Nat × Nat) :=
  match cut? t with
  | none => .error (.noDots t)
  | some (a, b) =>
    match side .start a, side .stop b with
    | .error e, _ => .error e
    | _, .error e => .error e
    | .ok m, .ok n => if m ≤ n then .ok (m, n) else .error (.reversed m n)

/-- Nothing but the two dots is lost. -/
theorem eq_of_cut? {t a b : Text} (h : cut? t = some (a, b)) : t = a ++ '.' :: '.' :: b := by
  fun_induction cut? t generalizing a b with
  | case1 r => cases h; rfl
  | case2 c r _ ih =>
    obtain ⟨⟨a', b'⟩, hr, he⟩ := Option.map_eq_some_iff.1 h
    cases he
    simp [ih hr]
  | case3 => cases h

/-- The range is not reversed. -/
theorem ofText_le {t : Text} {m n : Nat} (h : ofText t = .ok (m, n)) : m ≤ n := by
  unfold ofText at h
  split at h
  next => cases h
  next =>
    split at h
    next => cases h
    next => cases h
    next =>
      split at h
      next hle => cases h; exact hle
      next => cases h

end Selection

end Externalize
