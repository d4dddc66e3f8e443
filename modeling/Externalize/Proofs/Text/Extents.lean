import Externalize.Proofs.Text.Bytes

/-
The lines of a text by number, and where they begin and end.

* `Text.firstByte`: the first byte of a line, the line being counted from zero.
* `Text.LineHolds`: the line that an offset lies in, also within a character or a terminator.
* `Text.exists_isLine_of_get`: a line by number is a line of the text, at its offset.
* `Text.LineHolds.lineStart_eq`, `Text.LineHolds.lineEnd_eq`: the searches from an offset end at the
  bounds of its line.
* `Text.lineBounds_agree`: **the searches agree with the lines of the text**, wherever the offset
  is.
-/
namespace Externalize.Text

variable {t first line line' : Text} {n m o : Nat}

/-! ### Lines by number -/

/-- The first byte of a line: each line above it takes its bytes and a line feed. -/
def firstByte (t : Text) (n : Nat) : Nat :=
  (((t.splitOn '\n').map fun line => size line + 1).take n).sum

/-- The offset lies in the line: from the first byte to the line feed that ends the line, or
to the end of the text. -/
structure LineHolds (t : Text) (n : Nat) (line : Text) (o : Nat) : Prop where
  get : (t.splitOn '\n')[n]? = some line
  start : firstByte t n ≤ o
  stop : o ≤ firstByte t n + size line

@[simp] lemma firstByte_zero (t : Text) : firstByte t 0 = 0 := rfl

lemma firstByte_mono (t : Text) : Monotone (firstByte t) := List.monotone_sum_take _

lemma firstByte_succ (h : (t.splitOn '\n')[n]? = some line) :
    firstByte t (n + 1) = firstByte t n + (size line + 1) := by
  rw [firstByte, List.take_add_one, List.getElem?_map, h, List.sum_append, firstByte]
  rfl

lemma firstByte_line_append (hline : '\n' ∉ line) (rest : Text) (n : Nat) :
    firstByte (line ++ '\n' :: rest) (n + 1) = size line + 1 + firstByte rest n := by
  rw [firstByte, List.splitOn_append_cons_self_of_not_mem hline, List.map_cons, List.take_succ_cons,
    List.sum_cons, firstByte]

/-- A line by number is a line of the text: as many line feeds are above it, and the bytes before
it. -/
theorem exists_isLine_of_get (h : (t.splitOn '\n')[n]? = some line) : ∃ above below,
    IsLine t above line below ∧ above.count '\n' = n ∧ size above = firstByte t n := by
  induction t using lines_induction generalizing n with
  | last only honly =>
      rw [List.splitOn_eq_singleton honly, List.getElem?_singleton] at h
      split_ifs at h with hn
      obtain rfl := Option.some_injective _ h
      subst hn
      exact ⟨[], [], ⟨by simp, endsLine_nil, honly, beginsAfterLine_nil⟩, rfl, rfl⟩
  | more first rest hfirst ih =>
      rw [List.splitOn_append_cons_self_of_not_mem hfirst] at h
      cases n with
      | zero =>
          obtain rfl : first = line := Option.some_injective _ h
          exact ⟨[], '\n' :: rest, ⟨rfl, endsLine_nil, hfirst, beginsAfterLine_cons rest⟩, rfl, rfl⟩
      | succ n =>
          obtain ⟨above, below, hline, hcount, hsize⟩ := ih h
          refine ⟨first ++ '\n' :: above, below, hline.line_append first, ?_, ?_⟩
          · rw [count_line_append hfirst, hcount]
          · rw [firstByte_line_append hfirst, size_append, size_cons, hsize, Nat.add_assoc]
            rfl

/-- A text has one line more than line feeds. -/
lemma length_splitOn (t : Text) : (t.splitOn '\n').length = t.count '\n' + 1 := by
  induction t using lines_induction with
  | last line hline =>
      rw [List.splitOn_eq_singleton hline, List.count_eq_zero_of_not_mem hline]
      rfl
  | more line rest hline ih =>
      rw [List.splitOn_append_cons_self_of_not_mem hline, List.length_cons, ih,
        count_line_append hline]

/-! ### The line that holds an offset -/

namespace LineHolds

/-- A line in front of the text makes the number of the line one larger. -/
lemma line_append (h : LineHolds t n line o) (hfirst : '\n' ∉ first) :
    LineHolds (first ++ '\n' :: t) (n + 1) line (size first + o + 1) where
  get := by
    rw [List.splitOn_append_cons_self_of_not_mem hfirst]
    exact h.get
  start := by
    have hstart := h.start
    rw [firstByte_line_append hfirst]
    omega
  stop := by
    have hstop := h.stop
    rw [firstByte_line_append hfirst]
    omega

/-- What holds an offset is no later line than another one that does. -/
lemma number_le (h : LineHolds t n line o) (h' : LineHolds t m line' o) : n ≤ m := by
  by_contra hlt
  have hnext : firstByte t (m + 1) ≤ firstByte t n := firstByte_mono t (Nat.lt_of_not_le hlt)
  rw [firstByte_succ h'.get] at hnext
  have hstart := h.start
  have hstop := h'.stop
  omega

/-- No offset lies in two lines. -/
theorem unique (h : LineHolds t n line o) (h' : LineHolds t m line' o) : n = m :=
  Nat.le_antisymm (h.number_le h') (h'.number_le h)

end LineHolds

/-- Every offset of a text lies in a line. -/
lemma exists_lineHolds (ho : o ≤ size t) : ∃ n line, LineHolds t n line o := by
  induction t using lines_induction generalizing o with
  | last only honly =>
      refine ⟨0, only, ?_, Nat.zero_le o, ?_⟩
      · rw [List.splitOn_eq_singleton honly]
        rfl
      · rwa [firstByte_zero, Nat.zero_add]
  | more first rest hfirst ih =>
      rcases Nat.lt_or_ge (size first) o with hlt | hge
      · obtain ⟨k, rfl⟩ := Nat.exists_eq_add_of_lt hlt
        have hk : k ≤ size rest := by
          have hfeed : '\n'.utf8Size = 1 := rfl
          rw [size_append, size_cons, hfeed] at ho
          omega
        obtain ⟨n, line, hin⟩ := ih hk
        exact ⟨n + 1, line, hin.line_append hfirst⟩
      · refine ⟨0, first, ?_, Nat.zero_le o, ?_⟩
        · rw [List.splitOn_append_cons_self_of_not_mem hfirst]
          rfl
        · rwa [firstByte_zero, Nat.zero_add]

/-! ### The searches in a line -/

lemma lineEnd_of_size_le (h : size t ≤ o) : lineEnd t o = size t := by
  rw [lineEnd, after_of_size_le h]
  rfl

lemma dropReturn_of_ne (h : line.getLast? ≠ some '\r') : dropReturn line = line := if_neg h

lemma notMem_after (hline : '\n' ∉ line) (o : Nat) : '\n' ∉ after line o := by
  obtain ⟨a, ha⟩ := after_suffix line o
  exact fun hmem => hline (ha ▸ List.mem_append_right a hmem)

/-- The search goes to the end of the line, but from an offset before the return that ends it not
past the return. -/
lemma lineEnd_of_notMem (hline : '\n' ∉ line) (ho : o ≤ size line) :
    lineEnd line o = max o (size (dropReturn line)) := by
  by_cases hreturn : line.getLast? = some '\r'
  · obtain ⟨shown, rfl⟩ : ∃ shown, line = shown ++ ['\r'] :=
      ⟨line.dropLast, (List.dropLast_append_getLast? _ hreturn).symm⟩
    have hsize : size (shown ++ ['\r']) = size shown + 1 := size_append shown ['\r']
    rw [dropReturn_concat]
    rcases Nat.lt_or_ge (size shown) o with hlt | hge
    · -- the return is a single byte, so that the offset is the end of the line
      rw [lineEnd_of_size_le (by omega)]
      omega
    · have hafter : after (shown ++ ['\r']) o = after shown o ++ ['\r'] := after_append_of_le hge _
      have hrest : size (after shown o ++ ['\r']) = size (after shown o) + 1 :=
        size_append (after shown o) ['\r']
      have hle := size_after_le shown o
      rw [lineEnd, firstLine_of_notMem (notMem_after hline o), hafter, dropReturn_concat]
      omega
  · have hrest : (after line o).getLast? ≠ some '\r' := by
      obtain ⟨a, ha⟩ := after_suffix line o
      intro hlast
      rw [ha, List.getLast?_append, hlast] at hreturn
      exact hreturn rfl
    have hle := size_after_le line o
    rw [lineEnd, firstLine_of_notMem (notMem_after hline o), dropReturn_of_ne hrest,
      dropReturn_of_ne hreturn]
    omega

namespace LineHolds

/-- A line, and the offset in it. -/
lemma exists_isLine (h : LineHolds t n line o) : ∃ above below k, IsLine t above line below ∧
    size above = firstByte t n ∧ o = size above + k ∧ k ≤ size line := by
  obtain ⟨above, below, hline, -, hsize⟩ := exists_isLine_of_get h.get
  have hstart := h.start
  have hstop := h.stop
  exact ⟨above, below, o - size above, hline, hsize, by omega, by omega⟩

/-- The search backwards ends at the first byte of the line. -/
theorem lineStart_eq (h : LineHolds t n line o) : lineStart t o = firstByte t n := by
  obtain ⟨above, below, k, hline, hsize, rfl, hk⟩ := h.exists_isLine
  rw [← hsize, hline.append, lineStart_append hline.above line below hk,
    lineStart_of_notMem hline.line, Nat.add_zero]

/-- The search onwards ends at the end of the line, or at the offset if that is in the
terminator. -/
theorem lineEnd_eq (h : LineHolds t n line o) :
    lineEnd t o = max o (firstByte t n + size (dropReturn line)) := by
  obtain ⟨above, below, k, hline, hsize, rfl, hk⟩ := h.exists_isLine
  rw [← hsize, hline.append, lineEnd_append hline.below above line hk,
    lineEnd_of_notMem hline.line hk, Nat.add_max_add_left]

end LineHolds

/-- No line feed lies between the bounds of a line. -/
lemma feed_notMem_lineAt (t : Text) (o : Nat) : '\n' ∉ t.lineAt o := by
  obtain ⟨above, mid, below, ht, hstart, hstop, -, hmid⟩ := exists_lines_caret t o
  rwa [lineAt, ← hstart, ← hstop, ht, List.append_assoc, slice_append]

/-- **The searches from an offset agree with the lines of the text**, cut at its line feeds. An
offset, or the end of the text if the offset is past it, lies in one line. The search backwards ends
at the first byte of the line, and the search onwards at the end of the line, a return that ends it
not counted, or at the offset if that is further on. So both ends are between two characters, also
if the offset is not, and no line feed is between them. -/
theorem lineBounds_agree (t : Text) (o : Nat) :
    (∃! n, ∃ line, LineHolds t n line (min o t.size)) ∧
    (∀ n line, LineHolds t n line (min o t.size) → lineStart t o = firstByte t n ∧
      lineEnd t o = max (min o t.size) (firstByte t n + size (dropReturn line))) ∧
    lineStart t o ≤ min o t.size ∧ min o t.size ≤ lineEnd t o ∧
    '\n' ∉ slice t (lineStart t o) (lineEnd t o) ∧
    IsBoundary t (lineStart t o) ∧ IsBoundary t (lineEnd t o) := by
  obtain ⟨n, line, hin⟩ := exists_lineHolds (Nat.min_le_right o t.size)
  refine ⟨⟨n, ⟨line, hin⟩, fun m ⟨line', hin'⟩ => hin'.unique hin⟩, fun n line hin => ⟨?_, ?_⟩, ?_,
    ?_, feed_notMem_lineAt t o, isBoundary_lineStart t o, isBoundary_lineEnd t o⟩
  · rw [← lineStart_min_size, hin.lineStart_eq]
  · rw [← lineEnd_min_size, hin.lineEnd_eq]
  · rw [← lineStart_min_size]
    exact lineStart_le t _
  · rw [← lineEnd_min_size]
    exact le_lineEnd (Nat.min_le_right o t.size)

/-- An offset between a return and a line feed, one within a character, and one past the end. -/
theorem lineBounds_agree_accented :
    LineHolds "a\r\n\r\né".toList 0 "a\r".toList (min 2 (size "a\r\n\r\né".toList)) ∧
    lineStart "a\r\n\r\né".toList 2 = 0 ∧ lineEnd "a\r\n\r\né".toList 2 = 2 ∧
    ¬ IsBoundary "a\r\n\r\né".toList 6 ∧
    LineHolds "a\r\n\r\né".toList 2 "é".toList (min 6 (size "a\r\n\r\né".toList)) ∧
    lineStart "a\r\n\r\né".toList 6 = 5 ∧ lineEnd "a\r\n\r\né".toList 6 = 7 ∧
    LineHolds "a\r\n\r\né".toList 2 "é".toList
      (min 18446744073709551615 (size "a\r\n\r\né".toList)) ∧
    lineStart "a\r\n\r\né".toList 18446744073709551615 = 5 ∧
    lineEnd "a\r\n\r\né".toList 18446744073709551615 = 7 := by
  have hbetween : LineHolds "a\r\n\r\né".toList 0 "a\r".toList
      (min 2 (size "a\r\n\r\né".toList)) := ⟨rfl, by decide, by decide⟩
  have hwithin : LineHolds "a\r\n\r\né".toList 2 "é".toList
      (min 6 (size "a\r\n\r\né".toList)) := ⟨rfl, by decide, by decide⟩
  have hpast : LineHolds "a\r\n\r\né".toList 2 "é".toList
      (min 18446744073709551615 (size "a\r\n\r\né".toList)) := ⟨rfl, by decide, by decide⟩
  have hfeed := (lineBounds_agree "a\r\n\r\né".toList 2).2.1 _ _ hbetween
  have hcharacter := (lineBounds_agree "a\r\n\r\né".toList 6).2.1 _ _ hwithin
  have hend := (lineBounds_agree "a\r\n\r\né".toList 18446744073709551615).2.1 _ _ hpast
  exact ⟨hbetween, hfeed.1, hfeed.2, by decide, hwithin, hcharacter.1, hcharacter.2, hpast, hend.1,
    hend.2⟩

end Externalize.Text
