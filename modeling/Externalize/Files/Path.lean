import Externalize.Text.Basic

/-
Paths, as texts.

A path is kept as it is written. Its segments are what stands between the slashes; empty segments
and dots say nothing and are passed over, but for a dot at the very start of a relative path.

* `Path.join`, `Path.parent?`, `Path.ancestors`, `Path.fileName?`, `Path.extension?`: the parts of a
  path, each cut out of its text.
* `Path.stripBase?`: the path from a base on.
* `Path.names`: the steps from the root or the working directory.
-/
namespace Externalize

/-- A path as it is written. -/
structure Path where
  text : Text
deriving DecidableEq

namespace Path

/-- The path with this text. -/
def ofString (s : String) : Path := ⟨s.toList⟩

/-- The text of a path. -/
def toString (p : Path) : String := String.ofList p.text

instance : ToString Path := ⟨toString⟩

/-! ### Segments -/

/-- What stands between the slashes of a text. -/
def split : Text → List Text
  | [] => [[]]
  | c :: r =>
    if c = '/' then [] :: split r
    else
      match split r with
      | [] => [[c]]
      | s :: ss => (c :: s) :: ss

/-- Segments with slashes between them. -/
def unsplit : List Text → Text
  | [] => []
  | [s] => s
  | s :: ss => s ++ '/' :: unsplit ss

theorem split_ne_nil (t : Text) : split t ≠ [] := by
  cases t with
  | nil => simp [split]
  | cons c r => simp only [split]; split <;> (try split) <;> simp

/-- Nothing is lost in the segments. -/
theorem unsplit_split (t : Text) : unsplit (split t) = t := by
  induction t with
  | nil => rfl
  | cons c r ih =>
    simp only [split]
    split
    next h =>
      subst h
      cases hs : split r with
      | nil => exact absurd hs (split_ne_nil r)
      | cons s ss => simp [unsplit, ← hs, ih]
    next =>
      split
      next hs => exact absurd hs (split_ne_nil r)
      next s ss hs =>
        rw [hs] at ih
        cases ss <;> simp_all [unsplit]

/-- A segment that says nothing. -/
def isIdle (s : Text) : Bool := s.isEmpty || s == ['.']

/-- Whether the path starts at the root. -/
def isAbsolute (p : Path) : Bool := p.text.head? == some '/'

/-- The path of a first segment and others: the root if all of them are empty. -/
def ofSegments (first : Text) (others : List Text) : Path :=
  if first.isEmpty && others.isEmpty then ⟨['/']⟩ else ⟨unsplit (first :: others)⟩

/-! ### Parts -/

/-- The path and a second one from there on; an absolute path starts anew. -/
def join (p q : Path) : Path :=
  if q.isAbsolute then q
  else if p.text.isEmpty || p.text.getLast? == some '/' then ⟨p.text ++ q.text⟩
  else ⟨p.text ++ '/' :: q.text⟩

/-- The paths above a first segment and others, the others in reverse order. -/
def above (first : Text) : List Text → List Path
  | [] => if first.isEmpty then [] else [⟨[]⟩]
  | s :: r =>
    if isIdle s then above first r
    else ofSegments first (r.dropWhile isIdle).reverse :: above first r

/-- The paths above a path, the nearest first. -/
def parents (p : Path) : List Path :=
  match split p.text with
  | [] => []
  | first :: others => above first others.reverse

/-- The path without its last component; none of the root or the empty path. -/
def parent? (p : Path) : Option Path := p.parents.head?

/-- The path and the paths above it. -/
def ancestors (p : Path) : List Path := p :: p.parents

/-- The last component, if it is a name. -/
def fileName? (p : Path) : Option Text :=
  let last := match split p.text with
    | [] => []
    | first :: others =>
      match others.reverse.dropWhile isIdle with
      | [] => first
      | s :: _ => s
  if isIdle last || last == ['.', '.'] then none else some last

/-- What stands after the last dot of the file name, unless that dot begins the name. -/
def extension? (p : Path) : Option Text :=
  match p.fileName? with
  | none => none
  | some name =>
    let stem := (name.reverse.dropWhile (· != '.')).drop 1
    if stem.isEmpty then none else some (name.drop (stem.length + 1))

/-! ### Bases -/

/-- The segments after those of a base, without the idle ones at either end. -/
def dropBase : List Text → List Text → Option (List Text)
  | [], segments => some ((segments.dropWhile isIdle).reverse.dropWhile isIdle).reverse
  | b :: base, segments =>
    match segments.dropWhile isIdle with
    | [] => none
    | s :: r => if s = b then dropBase base r else none

/-- The path from a base on, if the components of the base begin it. Both start at the root, or
both at the same first segment. -/
def stripBase? (p base : Path) : Option Path :=
  match split base.text, split p.text with
  | b :: bs, s :: ss =>
    if b = s then (dropBase (bs.filter fun x => !isIdle x) ss).map fun r => ⟨unsplit r⟩ else none
  | _, _ => none

/-! ### Steps -/

/-- The steps of a path. A slash at the end is a step to the place itself, as a dot is. -/
def names (p : Path) : List Text :=
  let steps := (split p.text).filter fun s => !s.isEmpty
  if p.text.getLast? == some '/' then steps ++ [['.']] else steps

/-- The order of components: the root, then the dot, then the step up, then names. -/
def componentRank (s : Text) : Nat :=
  if s.isEmpty then 0 else if s == ['.'] then 1 else if s == ['.', '.'] then 2 else 3

/-- The components of a path: the first segment, unless the path is empty, and the later ones that
say something. -/
def components (p : Path) : List Text :=
  match split p.text with
  | [] => []
  | first :: others =>
    let later := others.filter fun s => !isIdle s
    if first.isEmpty && others.isEmpty then later else first :: later

/-- Whether one list of components is not after another: by rank, then by code points. -/
def componentsLe : List Text → List Text → Bool
  | [], _ => true
  | _ :: _, [] => false
  | a :: as, b :: bs =>
    if a = b then componentsLe as bs
    else
      componentRank a < componentRank b ||
        (componentRank a == componentRank b && decide (a < b))

/-- The order of paths: that of their components. -/
def le (p q : Path) : Bool := componentsLe p.components q.components

end Path

end Externalize
