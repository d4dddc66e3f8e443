import Externalize.Extraction.Candidate
import Externalize.Proofs.Text.Boundaries

/-
Where the literals of a text are.

* `Grammar.occurrences_range`: a literal of a text is there, between its delimiters.
* `isDirectiveLine_iff`: how the line of a directive begins.
* `Literal.at?_eq_some_iff`: the literal at a cursor is the one that contains it in the lines that
  it touches, on no line of a directive.
* `Literal.at?_range`, `Candidate.at_range`: the literal at a cursor is in the text, too.
-/
namespace Externalize

open Text

/-- A literal is in a text at the range that it has there: its content between its delimiters. -/
structure Literal.IsIn (l : Literal) (t : Text) : Prop where
  cut : ∃ a b, t = a ++ (l.grammar.delimiter ++ l.content ++ l.grammar.delimiter ++ b) ∧
    l.start = size a ∧
    l.stop = size a + size (l.grammar.delimiter ++ l.content ++ l.grammar.delimiter)

namespace Literal

variable {l : Literal} {t : Text}

lemma shift_shift (l : Literal) (m n : Nat) : (l.shift m).shift n = l.shift (m + n) := by
  simp [shift, Nat.add_assoc]

lemma IsIn.append_left (h : l.IsIn t) (a : Text) : (l.shift (size a)).IsIn (a ++ t) := by
  obtain ⟨b, r, ht, hstart, hstop⟩ := h.cut
  refine ⟨a ++ b, r, ?_, ?_, ?_⟩
  · rw [List.append_assoc]
    exact congrArg (a ++ ·) ht
  · rw [shift, hstart, size_append, Nat.add_comm]
  · simp only [shift]
    rw [hstop, size_append a b]
    omega

lemma IsIn.append_right (h : l.IsIn t) (b : Text) : l.IsIn (t ++ b) := by
  obtain ⟨a, r, ht, hstart, hstop⟩ := h.cut
  refine ⟨a, r ++ b, ?_, hstart, hstop⟩
  rw [ht]
  simp only [List.append_assoc]

/-- A literal has two delimiters at least. -/
lemma IsIn.start_lt_stop (h : l.IsIn t) : l.start < l.stop := by
  obtain ⟨a, r, -, hstart, hstop⟩ := h.cut
  have hquote := l.grammar.quote.utf8Size_pos
  have hsize : 0 < size l.grammar.delimiter := by
    rw [Grammar.delimiter]
    split_ifs <;> simp only [size_cons, size_nil] <;> omega
  rw [hstart, hstop, size_append, size_append]
  omega

lemma IsIn.isBoundary (h : l.IsIn t) : IsBoundary t l.start ∧ IsBoundary t l.stop := by
  obtain ⟨a, r, ht, hstart, hstop⟩ := h.cut
  refine ⟨isBoundary_iff.mpr ⟨a, _, ht, hstart.symm⟩, isBoundary_iff.mpr
    ⟨a ++ (l.grammar.delimiter ++ l.content ++ l.grammar.delimiter), r, ?_, ?_⟩⟩
  · rw [ht]
    simp only [List.append_assoc]
  · rw [hstop, size_append]

lemma IsIn.slice_eq (h : l.IsIn t) :
    t.slice l.start l.stop = l.grammar.delimiter ++ l.content ++ l.grammar.delimiter := by
  obtain ⟨a, r, ht, hstart, hstop⟩ := h.cut
  rw [hstart, hstop, ← size_append, ht, slice_append]

end Literal

namespace Grammar

variable {g : Grammar} {t content rest : Text}

theorem append_of_match? (h : g.match? t = some (content, rest)) :
    t = g.delimiter ++ content ++ g.delimiter ++ rest := by
  rw [match?] at h
  split_ifs at h with hopen htriple
  · obtain ⟨r, rfl⟩ := List.isPrefixOf_iff_prefix.mp hopen
    rw [List.drop_left] at h
    have hclose := append_of_closeTriple? h
    simp [delimiter, htriple, hclose]
  · obtain ⟨r, rfl⟩ := List.isPrefixOf_iff_prefix.mp hopen
    rw [List.drop_left] at h
    have hclose := append_of_close? h
    simp [delimiter, htriple, hclose]

/-- The literals of what is left of a text, wherever the search goes on. -/
lemma occurrencesFrom_range {l : Literal} {offset skip : Nat}
    (h : l ∈ g.occurrencesFrom offset skip t) :
    ∃ l' : Literal, l'.IsIn t ∧ l = l'.shift offset := by
  induction t generalizing offset skip with
  | nil => cases skip <;> cases h
  | cons c r ih =>
      have hlater : ∀ {skip}, l ∈ g.occurrencesFrom (offset + c.utf8Size) skip r →
          ∃ l' : Literal, l'.IsIn (c :: r) ∧ l = l'.shift offset := by
        intro skip hl
        obtain ⟨l', hl', rfl⟩ := ih hl
        refine ⟨l'.shift (size [c]), hl'.append_left [c], ?_⟩
        rw [Literal.shift_shift]
        simp [Nat.add_comm]
      cases skip with
      | succ skip => exact hlater h
      | zero =>
          rw [occurrencesFrom] at h
          split at h
          · next content rest hmatch =>
              rcases List.mem_cons.mp h with rfl | h
              · have hcut := append_of_match? hmatch
                refine ⟨⟨0, size (c :: r) - size rest, content, g⟩, ⟨[], rest, ?_, rfl, ?_⟩, ?_⟩
                · exact hcut
                · simp only [hcut, size_append, size_nil]
                  omega
                · simp [Literal.shift, Nat.add_comm]
              · exact hlater h
          · exact hlater h

theorem occurrences_range {l : Literal} (h : l ∈ g.occurrences t) : l.IsIn t := by
  obtain ⟨l', hl', rfl⟩ := occurrencesFrom_range h
  exact hl'

end Grammar

/-! ### Lines -/

/-- The lines that a cursor touches are a part of the text. -/
lemma Cursor.exists_lines (c : Cursor) (t : Text) : ∃ a b,
    t = a ++ (t.slice (c.lines t).1 (c.lines t).2 ++ b) ∧ size a = (c.lines t).1 ∧
      size (t.slice (c.lines t).1 (c.lines t).2) = (c.lines t).2 - (c.lines t).1 := by
  have hstart : IsBoundary t (c.lines t).1 := isBoundary_lineStart t c.start
  have hstop : IsBoundary t (c.lines t).2 := by
    rw [Cursor.lines]
    rcases le_total (t.lineEnd c.stop) (t.lineStart c.start) with hle | hle
    · simp only [Nat.max_eq_right hle]
      exact hstart
    · simp only [Nat.max_eq_left hle]
      exact isBoundary_lineEnd t c.stop
  exact exists_slice hstart hstop (Nat.le_max_right _ _)

/-- The line of a directive begins, after blanks, with one of three words. -/
lemma isDirectiveLine_iff {line : Text} : isDirectiveLine line = true ↔
    ∃ word ∈ ["import ", "export ", "part "], word.toList <+: line.trimStart := by
  simp [isDirectiveLine, List.isPrefixOf_iff_prefix, or_assoc]

/-- A word at the start of a line is not changed by a blank at the end of the line. -/
lemma prefix_trimStart_concat {word line : Text} {c : Char} (hblank : isBlank c = true)
    (hword : c ∉ word) : word <+: trimStart (line ++ [c]) ↔ word <+: trimStart line := by
  rw [trimStart, trimStart, List.dropWhile_append]
  split_ifs with hnone
  · rw [List.isEmpty_iff.mp hnone, List.dropWhile_cons_of_pos hblank, List.dropWhile_nil]
  · rw [List.prefix_concat_iff]
    exact or_iff_right fun heq => hword (heq ▸ List.mem_concat_self)

/-- A return at its end does not make a line a directive. -/
lemma isDirectiveLine_append_return (line : Text) :
    isDirectiveLine (line ++ ['\r']) = isDirectiveLine line := by
  have hwords : ∀ word ∈ ["import ", "export ", "part "], '\r' ∉ word.toList := by decide
  rw [Bool.eq_iff_iff, isDirectiveLine_iff, isDirectiveLine_iff]
  exact exists_congr fun word => and_congr_right fun hword =>
    prefix_trimStart_concat (by decide) (hwords word hword)

lemma isDirectiveLine_append_dropReturn (part rest : Text) :
    isDirectiveLine (part ++ dropReturn rest) = isDirectiveLine (part ++ rest) := by
  rw [dropReturn]
  split_ifs with hreturn
  · rw [← isDirectiveLine_append_return, List.append_assoc, List.dropLast_append_getLast? _ hreturn]
  · rfl

/-- A word at the start of a line ends before a character that is neither blank nor in the word. -/
lemma prefix_trimStart_append_cons {word part : Text} {c : Char} (hblank : isBlank c = false)
    (hword : c ∉ word) (r : Text) :
    word <+: trimStart (part ++ c :: r) ↔ word <+: trimStart part := by
  have htrim : trimStart (part ++ c :: r) = trimStart part ++ c :: r := by
    rw [trimStart, trimStart, List.dropWhile_append]
    split_ifs with hnone
    · rw [List.isEmpty_iff.mp hnone, List.dropWhile_cons_of_neg (by simp [hblank]), List.nil_append]
    · rfl
  rw [htrim]
  constructor
  · intro hprefix
    rcases List.prefix_or_prefix_of_prefix hprefix (List.prefix_append _ _) with h | ⟨x, rfl⟩
    · exact h
    · cases x with
      | nil => rw [List.append_nil]
      | cons d x =>
          obtain ⟨rfl, -⟩ := List.cons_prefix_cons.mp ((List.prefix_append_right_inj _).mp hprefix)
          simp at hword
  · exact fun hprefix => hprefix.trans (List.prefix_append _ _)

/-- Whether a line is a directive shows before a character that is neither blank nor in one of the
words. -/
lemma isDirectiveLine_append_cons {c : Char} (hblank : isBlank c = false)
    (hwords : ∀ word ∈ ["import ", "export ", "part "], c ∉ word.toList) (part r : Text) :
    isDirectiveLine (part ++ c :: r) = isDirectiveLine part := by
  rw [Bool.eq_iff_iff, isDirectiveLine_iff, isDirectiveLine_iff]
  exact exists_congr fun word => and_congr_right fun hword =>
    prefix_trimStart_append_cons hblank (hwords word hword) r

lemma isDirectiveLine_append_quote (g : Grammar) (part r : Text) :
    isDirectiveLine (part ++ g.quote :: r) = isDirectiveLine part :=
  isDirectiveLine_append_cons (by cases g <;> decide) (by cases g <;> decide) part r

/-! ### The literal at a cursor -/

namespace Literal

variable {t : Text} {c : Cursor} {l : Literal}

lemma containing?_range {start stop : Nat} (h : containing? t start stop = some l) :
    l.IsIn t ∧ l.contains start stop = true := by
  obtain ⟨g, -, hg⟩ := List.exists_of_findSome?_eq_some h
  have hcontains := List.find?_some hg
  exact ⟨Grammar.occurrences_range (List.mem_of_find?_eq_some hg), hcontains⟩

/-- A literal of the lines that a cursor touches is one of the text. -/
lemma IsIn.of_lines (h : l.IsIn (t.slice (c.lines t).1 (c.lines t).2)) :
    (l.shift (c.lines t).1).IsIn t := by
  obtain ⟨a, b, ht, ha, -⟩ := c.exists_lines t
  have hin := (h.append_right b).append_left a
  rwa [ha, ← ht] at hin

/-- The literal at a cursor is the one that contains it in the lines that it touches, unless the
line of that literal is a directive. -/
theorem at?_eq_some_iff : Literal.at? t c = some l ↔ ∃ found : Literal,
    containing? (t.slice (c.lines t).1 (c.lines t).2) (c.start - (c.lines t).1)
      (c.stop - (c.lines t).1) = some found ∧
    l = found.shift (c.lines t).1 ∧ isDirectiveLine (t.lineAt l.start) = false := by
  simp only [Literal.at?, Location.of]
  cases containing? (t.slice (c.lines t).1 (c.lines t).2) (c.start - (c.lines t).1)
      (c.stop - (c.lines t).1) with
  | none => simp [Location.literal?]
  | some found =>
      simp only [Option.some.injEq, exists_eq_left']
      split_ifs with hdirective
      · constructor
        · exact fun h => nomatch h
        · rintro ⟨rfl, hline⟩
          cases hdirective.symm.trans hline
      · constructor
        · rintro ⟨⟩
          exact ⟨rfl, Bool.eq_false_iff.mpr hdirective⟩
        · rintro ⟨rfl, -⟩
          rfl

/-- The literal at a cursor is one of the lines that the cursor touches, contains the cursor, and is
not on the line of a directive. -/
lemma at?_cases (h : Literal.at? t c = some l) :
    isDirectiveLine (t.lineAt l.start) = false ∧
      ∃ found : Literal, found.IsIn (t.slice (c.lines t).1 (c.lines t).2) ∧
        found.contains (c.start - (c.lines t).1) (c.stop - (c.lines t).1) = true ∧
        l = found.shift (c.lines t).1 := by
  obtain ⟨found, hfound, rfl, hdirective⟩ := at?_eq_some_iff.mp h
  obtain ⟨hin, hcontains⟩ := containing?_range hfound
  exact ⟨hdirective, found, hin, hcontains, rfl⟩

theorem at?_range (h : Literal.at? t c = some l) : l.IsIn t := by
  obtain ⟨-, found, hfound, -, rfl⟩ := at?_cases h
  exact hfound.of_lines

/-- The literal at a cursor contains it. -/
lemma at?_contains (h : Literal.at? t c = some l) : l.start ≤ c.start ∧ c.stop ≤ l.stop := by
  obtain ⟨-, found, -, hcontains, rfl⟩ := at?_cases h
  have hfirst : (c.lines t).1 ≤ c.start := lineStart_le t c.start
  simp only [contains, Bool.and_eq_true, decide_eq_true_eq] at hcontains
  simp only [shift]
  omega

end Literal

/-- A candidate is the literal at the cursor with the key that is derived from its content. -/
lemma Candidate.at_eq_ok_iff {t : Text} {c : Cursor} {candidate : Candidate} :
    Candidate.at t c = .ok candidate ↔ Literal.at? t c = some candidate.literal ∧
      Key.derive? candidate.literal.content = some candidate.key := by
  rw [Candidate.at]
  cases Literal.at? t c with
  | none => simp
  | some l =>
      simp only [ofLiteral, Option.some_inj]
      cases hkey : Key.derive? l.content with
      | none =>
          refine iff_of_false (fun h => nomatch h) ?_
          rintro ⟨rfl, h⟩
          cases hkey.symm.trans h
      | some k =>
          constructor
          · rintro ⟨⟩
            exact ⟨rfl, hkey⟩
          · rintro ⟨rfl, h⟩
            obtain rfl := Option.some_injective _ (hkey.symm.trans h)
            rfl

/-- A candidate is made of the literal at the cursor. -/
lemma Candidate.at?_of_at {t : Text} {c : Cursor} {candidate : Candidate}
    (h : Candidate.at t c = .ok candidate) : Literal.at? t c = some candidate.literal :=
  (at_eq_ok_iff.mp h).1

theorem Candidate.at_range {t : Text} {c : Cursor} {candidate : Candidate}
    (h : Candidate.at t c = .ok candidate) : candidate.literal.IsIn t :=
  Literal.at?_range (Candidate.at?_of_at h)

end Externalize
