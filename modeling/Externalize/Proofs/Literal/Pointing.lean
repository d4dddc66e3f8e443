import Externalize.Proofs.Literal.Scanning
import Externalize.Proofs.Text.Lines

/-
What a cursor points at.

* `Literal.LiesAt`: a literal of the text, well formed, around the cursor and within the lines that
  it touches, that begins on no line of a directive.
* `Literal.liesAt_of_at?`: so is the literal that a cursor points at.
-/
namespace Externalize

open Text

variable {t : Text} {c : Cursor} {l : Literal}

/-- The literal is a well-formed one of the text, around the cursor in the lines that it touches,
and not part of a directive. -/
structure Literal.LiesAt (l : Literal) (t : Text) (c : Cursor) : Prop where
  in_lines : (c.lines t).1 ≤ l.start ∧ l.stop ≤ (c.lines t).2
  around : l.start ≤ c.start ∧ c.stop ≤ l.stop
  isBoundary : IsBoundary t l.start ∧ IsBoundary t l.stop
  slice_eq : t.slice l.start l.stop = l.grammar.delimiter ++ l.content ++ l.grammar.delimiter
  encloses : l.grammar.Encloses l.content
  line : ∀ above line below, IsLine t above line below →
    size above ≤ l.start → l.start ≤ size (above ++ line) →
    ∀ word ∈ ["import ", "export ", "part "], ¬ word.toList <+: line.trimStart

/-- The line that holds a boundary is a directive if that whole line is one. -/
lemma isDirectiveLine_lineAt {above line below : Text} {o : Nat} (h : IsLine t above line below)
    (ho : IsBoundary t o) (habove : size above ≤ o) (hline : o ≤ size (above ++ line)) :
    isDirectiveLine (t.lineAt o) = isDirectiveLine line := by
  obtain ⟨part, rest, rfl, rfl⟩ := h.exists_part ho habove hline
  rw [h.lineAt_eq, isDirectiveLine_append_dropReturn]

/-- The line of a quote is a directive if what is before the quote in it begins one. -/
lemma isDirectiveLine_lineAt_quote {above part : Text} (habove : EndsLine above)
    (hpart : '\n' ∉ part) (g : Grammar) (r : Text) :
    isDirectiveLine ((above ++ part ++ g.quote :: r).lineAt (size (above ++ part))) =
      isDirectiveLine part := by
  have hquote : '\n' ∉ part ++ [g.quote] :=
    List.not_mem_append hpart (by cases g <;> decide)
  obtain ⟨line, below, hline, x, rfl⟩ := exists_isLine above (part ++ [g.quote]) r habove hquote
  have hcut : above ++ (part ++ [g.quote]) ++ r = above ++ part ++ g.quote :: r := by
    simp only [List.append_assoc, List.cons_append, List.nil_append]
  rw [hcut, List.append_assoc part, List.singleton_append] at hline
  rw [hline.lineAt_eq, isDirectiveLine_append_dropReturn, isDirectiveLine_append_quote]

namespace Literal

/-- **The literal that a cursor points at** is well formed, lies around the cursor in the lines that
it touches, and is not part of a directive. -/
theorem liesAt_of_at? (h : Literal.at? t c = some l) : l.LiesAt t c := by
  obtain ⟨found, hfound, rfl, hdirective⟩ := at?_eq_some_iff.mp h
  have hin := (containing?_range hfound).1
  have hin' := hin.of_lines
  refine ⟨?_, at?_contains h, hin'.isBoundary, hin'.slice_eq, ?_, ?_⟩
  · obtain ⟨a, b, -, -, hsize⟩ := c.exists_lines t
    have hstop := hin.isBoundary.2.le_size
    have hlt := hin.start_lt_stop
    simp only [shift]
    omega
  · exact (Grammar.mem_occurrences (mem_occurrences_of_containing? hfound)).2
  · intro above line below hline habove hle word hword hprefix
    rw [isDirectiveLine_lineAt hline hin'.isBoundary.1 habove hle] at hdirective
    exact absurd (isDirectiveLine_iff.mpr ⟨word, hword, hprefix⟩) (by simp [hdirective])

/-- A selection of two lines, with returns, points at a triple literal that has quotes in it. -/
theorem liesAt_of_at?_twoLines :
    Literal.at? "import 'a';\r\n f('''x'\r\n\\''');".toList (.selection 16 27) =
      some ⟨16, 27, "x'\r\n\\".toList, .tripleSingleQuoted⟩ ∧
    (⟨16, 27, "x'\r\n\\".toList, .tripleSingleQuoted⟩ : Literal).LiesAt
      "import 'a';\r\n f('''x'\r\n\\''');".toList (.selection 16 27) := by
  have h : Literal.at? "import 'a';\r\n f('''x'\r\n\\''');".toList (.selection 16 27) =
      some ⟨16, 27, "x'\r\n\\".toList, .tripleSingleQuoted⟩ := by decide +kernel
  exact ⟨h, liesAt_of_at? h⟩

end Literal

end Externalize
