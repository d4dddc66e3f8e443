import Mathlib.Tactic
import Externalize.Text.Line

/-
Where a text can be cut.

* `Text.isBoundary_iff`: the boundaries of a text are the sizes of its beginnings.
* `Text.exists_slice`: two boundaries cut a text in three, and the slice is the middle part.
* `Text.isBoundary_lineStart`, `Text.isBoundary_lineEnd`: a line begins and ends at boundaries.
-/
namespace Externalize.Text

variable {t u : Text} {o : Nat}

lemma eq_nil_of_size_eq_zero (h : size t = 0) : t = [] := by
  have hlength := length_le_size t
  exact List.length_eq_zero_iff.mp (by omega)

theorem isBoundary_iff : IsBoundary t o ↔ ∃ a b, t = a ++ b ∧ size a = o := by
  constructor
  · exact fun h => ⟨before t o, after t o, (before_append_after h).symm, h⟩
  · rintro ⟨a, b, rfl, rfl⟩
    exact isBoundary_size_append a b

/-- Of two beginnings of a text the one that is not longer begins the other. -/
lemma exists_append_of_size_le {a b a' b' : Text} (h : a ++ b = a' ++ b')
    (hsize : size a ≤ size a') : ∃ c, a' = a ++ c ∧ b = c ++ b' := by
  rcases List.append_eq_append_iff.mp h with ⟨c, ha, hb⟩ | ⟨c, ha, hb⟩
  · exact ⟨c, ha, hb⟩
  · have hc : c = [] := by
      rw [ha, size_append] at hsize
      exact eq_nil_of_size_eq_zero (by omega)
    subst hc
    exact ⟨[], by simpa using ha.symm, by simpa using hb.symm⟩

lemma slice_append (a c b : Text) : slice (a ++ (c ++ b)) (size a) (size (a ++ c)) = c := by
  rw [slice, after_size_append, size_append, Nat.add_sub_cancel_left, before_size_append]

lemma slice_append_right (a c : Text) : slice (a ++ c) (size a) (size (a ++ c)) = c := by
  simpa using slice_append a c []

theorem exists_slice {start stop : Nat} (hstart : IsBoundary t start) (hstop : IsBoundary t stop)
    (h : start ≤ stop) : ∃ a b, t = a ++ (slice t start stop ++ b) ∧ size a = start ∧
      size (slice t start stop) = stop - start := by
  obtain ⟨a, r, hr, rfl⟩ := isBoundary_iff.mp hstart
  obtain ⟨a', b, hb, rfl⟩ := isBoundary_iff.mp hstop
  obtain ⟨c, rfl, rfl⟩ := exists_append_of_size_le (hr.symm.trans hb) h
  have hslice : slice t (size a) (size (a ++ c)) = c := by
    rw [hr, slice_append]
  rw [hslice]
  exact ⟨a, b, hr, rfl, by rw [size_append]; omega⟩

/-! ### Lines -/

lemma before_prefix (t : Text) (o : Nat) : ∃ r, t = before t o ++ r := by
  induction t generalizing o with
  | nil => exact ⟨[], rfl⟩
  | cons c t ih =>
      rw [before]
      split_ifs
      · obtain ⟨r, hr⟩ := ih (o - c.utf8Size)
        exact ⟨r, congrArg (c :: ·) hr⟩
      · exact ⟨c :: t, rfl⟩

lemma after_suffix (t : Text) (o : Nat) : ∃ a, t = a ++ after t o := by
  induction t generalizing o with
  | nil => exact ⟨[], rfl⟩
  | cons c t ih =>
      rw [after]
      split_ifs
      · exact ⟨[], rfl⟩
      · obtain ⟨a, ha⟩ := ih (o - c.utf8Size)
        exact ⟨c :: a, congrArg (c :: ·) ha⟩

theorem isBoundary_lineStart (t : Text) (o : Nat) : IsBoundary t (lineStart t o) := by
  obtain ⟨r, hr⟩ := before_prefix t o
  have hcut := List.takeWhile_append_dropWhile (p := (· != '\n')) (l := (before t o).reverse)
  have hbefore : before t o = ((before t o).reverse.dropWhile (· != '\n')).reverse ++
      ((before t o).reverse.takeWhile (· != '\n')).reverse := by
    rw [← List.reverse_append, hcut, List.reverse_reverse]
  refine isBoundary_iff.mpr ⟨((before t o).reverse.dropWhile (· != '\n')).reverse,
    ((before t o).reverse.takeWhile (· != '\n')).reverse ++ r, ?_, ?_⟩
  · rw [← List.append_assoc, ← hbefore, ← hr]
  · rw [size_reverse, lineStart]

lemma lineStart_le (t : Text) (o : Nat) : lineStart t o ≤ o := by
  have hcut := congrArg size
    (List.takeWhile_append_dropWhile (p := (· != '\n')) (l := (before t o).reverse))
  have hbefore := size_before_le t o
  rw [size_append, size_reverse] at hcut
  rw [lineStart]
  omega

lemma dropReturn_concat (line : Text) : dropReturn (line ++ ['\r']) = line := by
  rw [dropReturn, if_pos List.getLast?_concat, List.dropLast_concat]

lemma dropReturn_prefix (line : Text) : ∃ r, line = dropReturn line ++ r := by
  rw [dropReturn]
  split_ifs with h
  · exact ⟨['\r'], (List.dropLast_append_getLast? _ h).symm⟩
  · exact ⟨[], (List.append_nil line).symm⟩

/-- What begins a text up to the end of its first line. -/
lemma firstLine_prefix (t : Text) : ∃ r, t = dropReturn (firstLine t) ++ r := by
  obtain ⟨r, hr⟩ := dropReturn_prefix (firstLine t)
  refine ⟨r ++ t.dropWhile (· != '\n'), ?_⟩
  rw [← List.append_assoc, ← hr, firstLine, List.takeWhile_append_dropWhile]

/-- An offset within a rest of a text is a boundary if it is one of the rest. -/
lemma isBoundary_of_suffix {a r : Text} (h : t = a ++ r) (hr : IsBoundary r o) :
    IsBoundary t (size t - size r + o) := by
  obtain ⟨b, c, rfl, rfl⟩ := isBoundary_iff.mp hr
  refine isBoundary_iff.mpr ⟨a ++ b, c, by rw [h, List.append_assoc], ?_⟩
  rw [h, size_append, size_append, size_append]
  omega

theorem isBoundary_lineEnd (t : Text) (o : Nat) : IsBoundary t (lineEnd t o) := by
  obtain ⟨a, ha⟩ := after_suffix t o
  obtain ⟨r, hr⟩ := firstLine_prefix (after t o)
  exact isBoundary_of_suffix ha (isBoundary_iff.mpr ⟨_, r, hr, rfl⟩)

end Externalize.Text
