/-
Texts and their byte offsets.

A text is a list of characters; an offset counts the bytes of its UTF-8 form and may lie inside a
character or past the end.

* `Text.before`, `Text.after`: the characters that end at or before an offset, and those that begin
  at or after it; a character that the offset splits is in neither.
* `Text.IsBoundary`: the offset lies between two characters or at an end of the text.
* `Text.before_append_after`: at a boundary nothing is lost.
* `Text.splice`: the text with one byte range replaced.
-/
namespace Externalize

/-- A text is the list of its characters. -/
abbrev Text := List Char

namespace Text

/-! ### Size -/

/-- The number of bytes of the UTF-8 form. -/
def size : Text → Nat
  | [] => 0
  | c :: r => c.utf8Size + size r

@[simp] theorem size_nil : size [] = 0 := rfl

@[simp] theorem size_cons (c : Char) (r : Text) : size (c :: r) = c.utf8Size + size r := rfl

@[simp] theorem size_append (a b : Text) : size (a ++ b) = size a + size b := by
  induction a with
  | nil => simp
  | cons c r ih => simp [ih, Nat.add_assoc]

@[simp] theorem size_reverse (t : Text) : size t.reverse = size t := by
  induction t with
  | nil => rfl
  | cons c r ih => simp [ih, Nat.add_comm]

/-- Every character takes at least one byte. -/
theorem length_le_size (t : Text) : t.length ≤ size t := by
  induction t with
  | nil => simp
  | cons c r ih =>
    have := c.utf8Size_pos
    simp only [List.length_cons, size_cons]
    omega

/-! ### Cutting at an offset -/

/-- The characters that end at or before the offset. -/
def before : Text → Nat → Text
  | [], _ => []
  | c :: r, o => if c.utf8Size ≤ o then c :: before r (o - c.utf8Size) else []

/-- The characters that begin at or after the offset. -/
def after : Text → Nat → Text
  | [], _ => []
  | c :: r, o => if o = 0 then c :: r else after r (o - c.utf8Size)

/-- The offset lies between two characters or at an end of the text. -/
def IsBoundary (t : Text) (o : Nat) : Prop := size (before t o) = o

instance (t : Text) (o : Nat) : Decidable (IsBoundary t o) :=
  inferInstanceAs (Decidable (size (before t o) = o))

@[simp] theorem before_zero (t : Text) : before t 0 = [] := by
  cases t with
  | nil => rfl
  | cons c r =>
    have := c.utf8Size_pos
    simp only [before]
    rw [if_neg (by omega)]

@[simp] theorem after_zero (t : Text) : after t 0 = t := by cases t <;> simp [after]

/-- What ends at or before an offset has at most that many bytes. -/
theorem size_before_le (t : Text) (o : Nat) : size (before t o) ≤ o := by
  induction t generalizing o with
  | nil => simp [before]
  | cons c r ih =>
    simp only [before]
    split
    next h =>
      have := ih (o - c.utf8Size)
      simp only [size_cons]
      omega
    next => simp

/-- At a boundary the two parts are the whole text. -/
theorem before_append_after {t : Text} {o : Nat} (h : IsBoundary t o) :
    before t o ++ after t o = t := by
  induction t generalizing o with
  | nil => simp [before, after]
  | cons c r ih =>
    have := c.utf8Size_pos
    unfold IsBoundary at h
    simp only [before, after] at h ⊢
    by_cases hc : c.utf8Size ≤ o
    · rw [if_pos hc] at h ⊢
      rw [if_neg (by omega)]
      have hr : IsBoundary r (o - c.utf8Size) := by
        simp only [size_cons] at h
        unfold IsBoundary
        omega
      simp [ih hr]
    · rw [if_neg hc] at h ⊢
      have ho : o = 0 := by simpa using h.symm
      simp [ho]

/-- The size of the first part of a text is a boundary, and cuts there. -/
@[simp] theorem before_size_append (a b : Text) : before (a ++ b) (size a) = a := by
  induction a with
  | nil => simp
  | cons c r ih => simp [before, ih]

@[simp] theorem after_size_append (a b : Text) : after (a ++ b) (size a) = b := by
  induction a with
  | nil => simp
  | cons c r ih =>
    have := c.utf8Size_pos
    simp only [List.cons_append, after, size_cons]
    rw [if_neg (by omega), show c.utf8Size + size r - c.utf8Size = size r by omega, ih]

theorem isBoundary_size_append (a b : Text) : IsBoundary (a ++ b) (size a) := by
  simp [IsBoundary]

theorem isBoundary_zero (t : Text) : IsBoundary t 0 := by simp [IsBoundary]

/-- A boundary never lies past the end. -/
theorem IsBoundary.le_size {t : Text} {o : Nat} (h : IsBoundary t o) : o ≤ size t := by
  have := congrArg size (before_append_after h)
  simp only [size_append] at this
  unfold IsBoundary at h
  omega

/-! ### Ranges -/

/-- The characters that lie within the byte range. -/
def slice (t : Text) (start stop : Nat) : Text := before (after t start) (stop - start)

/-- The text with the byte range replaced. -/
def splice (t : Text) (start stop : Nat) (new : Text) : Text :=
  before t start ++ new ++ after t stop

/-! ### Trimming and searching -/

/-- The text without the characters at its end that satisfy `p`. -/
def dropEndWhile (p : Char → Bool) (t : Text) : Text := (t.reverse.dropWhile p).reverse

theorem dropEndWhile_cons (p : Char → Bool) (c : Char) (r : Text) :
    dropEndWhile p (c :: r) =
      if dropEndWhile p r = [] ∧ p c = true then [] else c :: dropEndWhile p r := by
  have hd : ∀ (l : Text), (l ++ [c]).dropWhile p =
      if l.dropWhile p = [] then [c].dropWhile p else l.dropWhile p ++ [c] := by
    intro l
    induction l with
    | nil => simp
    | cons a l ih => by_cases h : p a = true <;> simp [h, ih]
  simp only [dropEndWhile, List.reverse_cons, hd, List.reverse_eq_nil_iff]
  by_cases h : r.reverse.dropWhile p = []
  · by_cases hp : p c = true <;> simp [h, hp]
  · simp [h]

/-- Whether `part` occurs in the text as a run of neighbouring characters. -/
def contains (part : Text) : Text → Bool
  | [] => part.isEmpty
  | c :: r => part.isPrefixOf (c :: r) || contains part r

end Text

end Externalize
