import Externalize.Proofs.Text.Extents

/-
Offsets, and lines with columns.

* `Text.dropLines_append`: as many lines are passed over as there are line feeds in front of the
  rest.
* `Text.IsLine.offsetOf_eq`, `Text.IsLine.positionOf_eq`: the two conversions in a line of a text.
* `Text.positions_agree`: **the conversions undo each other**, but for columns past the end of a
  line and for offsets within a terminator.
-/
namespace Externalize.Text

variable {t a b above line below part rest : Text} {n o : Nat}

/-! ### Passing over lines -/

lemma dropLines_line_append (hline : '\n' ∉ line) (n : Nat) (rest : Text) :
    dropLines (n + 1) (line ++ '\n' :: rest) = dropLines n rest := by
  have hall : ∀ c ∈ line, (c != '\n') = true := fun c hc =>
    bne_iff_ne.mpr fun heq => hline (heq ▸ hc)
  rw [dropLines, List.dropWhile_append_of_pos hall]
  rfl

/-- What ends with a line feed is passed over with its last line. -/
theorem dropLines_append (ha : EndsLine a) (b : Text) :
    dropLines (a.count '\n') (a ++ b) = some b := by
  induction a using lines_induction with
  | last line hline =>
      obtain rfl : line = [] := by
        by_contra hne
        exact hline (ha.mem_of_append (a := []) hne)
      rfl
  | more line rest hline ih =>
      rw [count_line_append hline, List.append_assoc, List.cons_append,
        dropLines_line_append hline, ih ((endsLine_append_cons line rest).mp ha)]

/-- No more lines are passed over than the text has line feeds. -/
lemma dropLines_eq_none (h : t.count '\n' < n) : dropLines n t = none := by
  induction t using lines_induction generalizing n with
  | last line hline =>
      obtain ⟨n, rfl⟩ := Nat.exists_eq_add_of_lt h
      have hall : ∀ c ∈ line, (c != '\n') = true := fun c hc =>
        bne_iff_ne.mpr fun heq => hline (heq ▸ hc)
      rw [dropLines, List.dropWhile_eq_nil_iff.mpr hall]
  | more line rest hline ih =>
      rw [count_line_append hline] at h
      obtain ⟨n, rfl⟩ := Nat.exists_eq_add_of_lt h
      rw [dropLines_line_append hline]
      exact ih (by omega)

/-- There is a line in front of each line feed, and one after the last. -/
lemma exists_isLine_of_le_count (hn : n ≤ t.count '\n') : ∃ above line below,
    IsLine t above line below ∧ above.count '\n' = n ∧ (t.splitOn '\n')[n]? = some line := by
  have hget : (t.splitOn '\n')[n]? = some _ :=
    List.getElem?_eq_getElem (by rw [length_splitOn]; omega)
  obtain ⟨above, below, hline, hcount, -⟩ := exists_isLine_of_get hget
  exact ⟨above, _, below, hline, hcount, hget⟩

/-- What is left below the lines that are passed over is an end of the text. -/
lemma dropLines_suffix (h : dropLines n t = some rest) : ∃ a, t = a ++ rest := by
  rcases Nat.lt_or_ge (t.count '\n') n with hlt | hge
  · rw [dropLines_eq_none hlt] at h
    cases h
  · obtain ⟨above, line, below, hline, rfl, -⟩ := exists_isLine_of_le_count hge
    rw [hline.append, List.append_assoc, dropLines_append hline.above] at h
    exact ⟨above, by rw [hline.append, List.append_assoc, Option.some_injective _ h]⟩

/-! ### The conversions in a line -/

/-- A column, counted from one, stands for that many characters of its line, or for all of them. -/
theorem IsLine.offsetOf_eq (h : IsLine t above line below) (column : Nat) :
    offsetOf t ⟨above.count '\n' + 1, column + 1⟩ =
      some (size (above ++ (dropReturn line).take column)) := by
  have hfirst : firstLine (line ++ below) = line := by
    rw [firstLine_append line h.below, firstLine_of_notMem h.line]
  rw [offsetOf, if_neg (by simp), Nat.add_sub_cancel, Nat.add_sub_cancel, h.append,
    List.append_assoc, dropLines_append h.above, Option.map_some, hfirst, size_append above,
    size_append above, Nat.add_sub_cancel]

/-- The characters before an offset in its line are counted. -/
theorem IsLine.positionOf_eq (h : IsLine t above (part ++ rest) below) :
    positionOf t (size (above ++ part)) = ⟨above.count '\n' + 1, part.length + 1⟩ := by
  have hpart : '\n' ∉ part := fun hmem => h.line (List.mem_append_left rest hmem)
  have hcut : t = above ++ part ++ (rest ++ below) := by
    rw [h.append]
    simp only [List.append_assoc]
  rw [positionOf, hcut, before_size_append, lineStart_size_append h.above hpart,
    List.append_assoc above part, slice_append, List.count_append,
    List.count_eq_zero_of_not_mem hpart, Nat.add_zero]

/-- A line ends where its characters do, its terminator apart. -/
lemma IsLine.lineEnd_eq (h : IsLine t above line below) :
    lineEnd t (size above) = size (above ++ dropReturn line) := by
  rw [h.append, List.append_assoc, lineEnd_size_append, firstLine_append line h.below,
    firstLine_of_notMem h.line]

/-! ### The conversions of a text -/

/-- The position stands in no line of the text. -/
def IsNoPlace (t : Text) (p : Position) : Prop :=
  p.line = 0 ∨ p.column = 0 ∨ t.count '\n' + 1 < p.line

lemma offsetOf_eq_none {p : Position} (h : IsNoPlace t p) : offsetOf t p = none := by
  rw [offsetOf]
  split_ifs with hzero
  · rfl
  · rw [dropLines_eq_none, Option.map_none]
    rcases h with h | h | h
    · exact absurd (.inl h) hzero
    · exact absurd (.inr h) hzero
    · omega

/-- Any other position stands in a line. -/
lemma exists_isLine_of_not_isNoPlace {p : Position} (h : ¬ IsNoPlace t p) :
    ∃ above line below column, IsLine t above line below ∧
      (t.splitOn '\n')[p.line - 1]? = some line ∧ p = ⟨above.count '\n' + 1, column + 1⟩ := by
  obtain ⟨number, column⟩ := p
  simp only [IsNoPlace, not_or] at h
  obtain ⟨n, rfl⟩ := Nat.exists_eq_add_one_of_ne_zero h.1
  obtain ⟨column, rfl⟩ := Nat.exists_eq_add_one_of_ne_zero h.2.1
  obtain ⟨above, line, below, hline, rfl, hget⟩ := exists_isLine_of_le_count (t := t) (n := n)
    (by omega)
  exact ⟨above, line, below, column, hline, hget, rfl⟩

/-- A line begins with any number of its characters, its terminator not counted. -/
lemma exists_take_dropReturn (line : Text) (column : Nat) :
    ∃ rest, line = (dropReturn line).take column ++ rest := by
  obtain ⟨r, hr⟩ := dropReturn_prefix line
  refine ⟨(dropReturn line).drop column ++ r, ?_⟩
  rw [← List.append_assoc, List.take_append_drop, ← hr]

lemma IsLine.isBoundary (h : IsLine t above (part ++ rest) below) :
    IsBoundary t (size (above ++ part)) := by
  refine isBoundary_iff.mpr ⟨above ++ part, rest ++ below, ?_, rfl⟩
  rw [h.append]
  simp only [List.append_assoc]

/-- The offset of a position in a line has that position, or the one at the end of the line. -/
lemma IsLine.positionOf_take (h : IsLine t above line below) (column : Nat) :
    positionOf t (size (above ++ (dropReturn line).take column)) =
      ⟨above.count '\n' + 1, min (column + 1) ((dropReturn line).length + 1)⟩ := by
  obtain ⟨rest, hcut⟩ := exists_take_dropReturn line column
  rw [hcut] at h
  rw [h.positionOf_eq, List.length_take, Nat.add_min_add_right]

/-- A boundary in a line, not within its terminator, is the offset of its position. -/
lemma IsLine.offsetOf_positionOf (h : IsLine t above (part ++ rest) below)
    (hle : size part ≤ size (dropReturn (part ++ rest))) :
    offsetOf t (positionOf t (size (above ++ part))) = some (size (above ++ part)) := by
  obtain ⟨r, hr⟩ := dropReturn_prefix (part ++ rest)
  obtain ⟨shown, hshown, -⟩ := exists_append_of_size_le hr hle
  rw [h.positionOf_eq, h.offsetOf_eq, hshown, List.take_left]

/-- **The conversions between offsets and positions undo each other.** A position has no offset if
its line or column is zero or if the text has fewer lines; else it has one, between two characters,
whose position is the same, but for a column past the end of the line, its terminator not counted.
An offset that is not within the terminator of its line is that of its position. -/
theorem positions_agree (t : Text) :
    (∀ p, offsetOf t p = none ↔ p.line = 0 ∨ p.column = 0 ∨ t.count '\n' + 1 < p.line) ∧
    (∀ p o, offsetOf t p = some o → IsBoundary t o ∧ o ≤ t.size ∧
      ∃ line, (t.splitOn '\n')[p.line - 1]? = some line ∧
        positionOf t o = ⟨p.line, min p.column ((dropReturn line).length + 1)⟩) ∧
    ∀ o, IsBoundary t o → o ≤ lineEnd t (lineStart t o) → offsetOf t (positionOf t o) = some o := by
  refine ⟨fun p => ⟨fun hnone => ?_, offsetOf_eq_none⟩, fun p o ho => ?_, fun o ho hle => ?_⟩
  · by_contra hplace
    obtain ⟨above, line, below, column, hline, -, rfl⟩ := exists_isLine_of_not_isNoPlace hplace
    rw [hline.offsetOf_eq] at hnone
    cases hnone
  · have hplace : ¬ IsNoPlace t p := fun hnone => by
      rw [offsetOf_eq_none hnone] at ho
      cases ho
    obtain ⟨above, line, below, column, hline, hget, rfl⟩ := exists_isLine_of_not_isNoPlace hplace
    rw [hline.offsetOf_eq] at ho
    obtain rfl := Option.some_injective _ ho
    obtain ⟨rest, hcut⟩ := exists_take_dropReturn line column
    have hboundary := (hcut ▸ hline : IsLine t above (_ ++ rest) below).isBoundary
    exact ⟨hboundary, hboundary.le_size, line, hget, hline.positionOf_take column⟩
  · obtain ⟨above, line, below, hline, habove, hend⟩ := exists_isLine_of_le ho.le_size
    obtain ⟨part, rest, rfl, rfl⟩ := hline.exists_part ho (habove ▸ lineStart_le t o) hend
    rw [← habove, hline.lineEnd_eq, size_append, size_append above (dropReturn _)] at hle
    exact hline.offsetOf_positionOf (Nat.le_of_add_le_add_left hle)

/-- A column far past the end of a line that has a return, and an offset in the last line. -/
theorem positions_agree_clamped :
    offsetOf "é\r\n\nab".toList ⟨4, 1⟩ = none ∧
    offsetOf "é\r\n\nab".toList ⟨1, 18446744073709551615⟩ = some 2 ∧
    positionOf "é\r\n\nab".toList 2 = ⟨1, 2⟩ ∧
    IsBoundary "é\r\n\nab".toList 6 ∧
    6 ≤ lineEnd "é\r\n\nab".toList (lineStart "é\r\n\nab".toList 6) ∧
    offsetOf "é\r\n\nab".toList (positionOf "é\r\n\nab".toList 6) = some 6 := by
  obtain ⟨hnone, hplace, hoffset⟩ := positions_agree "é\r\n\nab".toList
  have hclamped : offsetOf "é\r\n\nab".toList ⟨1, 18446744073709551615⟩ = some 2 := by
    decide +kernel
  have hboundary : IsBoundary "é\r\n\nab".toList 6 := by decide
  have hline : 6 ≤ lineEnd "é\r\n\nab".toList (lineStart "é\r\n\nab".toList 6) := by decide
  refine ⟨(hnone _).mpr (.inr (.inr (by decide))), hclamped, ?_, hboundary, hline,
    hoffset 6 hboundary hline⟩
  obtain ⟨-, -, line, hget, hposition⟩ := hplace _ _ hclamped
  obtain rfl : "é\r".toList = line := Option.some_injective _ hget
  exact hposition

end Externalize.Text
