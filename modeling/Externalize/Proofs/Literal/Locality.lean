import Externalize.Proofs.Literal.Scanning
import Externalize.Proofs.Text.Lines

/-
A literal is found by the lines of its cursor alone.

* `Cursor.shift`, `Candidate.shift`: a cursor and a candidate in a text that has more in front.
* `Cursor.lines_append`: the lines of a cursor in a part of whole lines.
* `Literal.at?_append`, `Candidate.at_append`: what a cursor in a part of whole lines points at is
  what it points at in that part.
* `Literal.at?_append_return`, `Literal.at?_amid`: so it is if the lines end with returns.
-/
namespace Externalize

open Text

/-- The cursor in a text that has `n` bytes more in front. -/
def Cursor.shift (n : Nat) : Cursor → Cursor
  | caret o => caret (n + o)
  | selection s e => selection (n + s) (n + e)

/-- The candidate in a text that has `n` bytes more in front. -/
def Candidate.shift (c : Candidate) (n : Nat) : Candidate :=
  { c with literal := c.literal.shift n }

variable {a mid b : Text} {c : Cursor}

namespace Cursor

@[simp] lemma start_shift (c : Cursor) (n : Nat) : (c.shift n).start = n + c.start := by
  cases c <;> rfl

@[simp] lemma stop_shift (c : Cursor) (n : Nat) : (c.shift n).stop = n + c.stop := by
  cases c <;> rfl

/-- The lines of a cursor in a part of whole lines are where they are in that part. -/
theorem lines_append (ha : EndsLine a) (hb : BeginsAfterLine b) (hstart : c.start ≤ size mid)
    (hstop : c.stop ≤ size mid) :
    (c.shift (size a)).lines (a ++ mid ++ b) =
      (size a + (c.lines mid).1, size a + (c.lines mid).2) := by
  simp only [lines, start_shift, stop_shift, lineStart_append ha mid b hstart,
    lineEnd_append hb a mid hstop, Nat.add_max_add_left]

lemma lines_le_size (c : Cursor) (t : Text) : (c.lines t).2 ≤ size t :=
  Nat.max_le.mpr ⟨(isBoundary_lineEnd t c.stop).le_size, (isBoundary_lineStart t c.start).le_size⟩

/-- A return after the text leaves where the lines of a cursor begin, and may become a part of
them. -/
lemma lines_append_return (hstart : c.start ≤ size mid) (hstop : c.stop ≤ size mid) :
    (c.lines (mid ++ ['\r'])).1 = (c.lines mid).1 ∧
    (slice (mid ++ ['\r']) (c.lines (mid ++ ['\r'])).1 (c.lines (mid ++ ['\r'])).2 =
        slice mid (c.lines mid).1 (c.lines mid).2 ∨
      slice (mid ++ ['\r']) (c.lines (mid ++ ['\r'])).1 (c.lines (mid ++ ['\r'])).2 =
        slice mid (c.lines mid).1 (c.lines mid).2 ++ ['\r']) := by
  simp only [lines, lineStart_append_return hstart]
  exact ⟨trivial, slice_lineEnd_append_return (isBoundary_lineStart mid c.start) hstop⟩

end Cursor

/-- A cursor in a part of whole lines points at the literal that it points at in that part. -/
theorem Literal.at?_append (ha : EndsLine a) (hb : BeginsAfterLine b)
    (hstart : c.start ≤ size mid) (hstop : c.stop ≤ size mid) :
    Literal.at? (a ++ mid ++ b) (c.shift (size a)) =
      (Literal.at? mid c).map (·.shift (size a)) := by
  have hslice : slice (a ++ mid ++ b) (size a + (c.lines mid).1) (size a + (c.lines mid).2) =
      slice mid (c.lines mid).1 (c.lines mid).2 :=
    slice_append_mid (isBoundary_lineStart mid c.start) (c.lines_le_size mid) a b
  simp only [Literal.at?, Location.of, Cursor.lines_append ha hb hstart hstop, hslice,
    Cursor.start_shift, Cursor.stop_shift, Nat.add_sub_add_left]
  cases hfound : containing? (slice mid (c.lines mid).1 (c.lines mid).2)
      (c.start - (c.lines mid).1) (c.stop - (c.lines mid).1) with
  | none => rfl
  | some l =>
      have hin := (containing?_range hfound).1.of_lines
      have hline := lineAt_append ha hb (hin.start_lt_stop.le.trans hin.isBoundary.2.le_size)
      have hshift : l.shift (size a + (c.lines mid).1) =
          (l.shift (c.lines mid).1).shift (size a) := by
        rw [shift_shift, Nat.add_comm]
      have hfrom : ((l.shift (c.lines mid).1).shift (size a)).start =
          size a + (l.shift (c.lines mid).1).start := Nat.add_comm _ _
      simp only [hshift, hfrom, hline]
      split_ifs <;> rfl

/-- A cursor in a part of whole lines offers the candidate that it offers in that part. -/
theorem Candidate.at_append (ha : EndsLine a) (hb : BeginsAfterLine b)
    (hstart : c.start ≤ size mid) (hstop : c.stop ≤ size mid) :
    Candidate.at (a ++ mid ++ b) (c.shift (size a)) =
      (Candidate.at mid c).map (·.shift (size a)) := by
  rw [Candidate.at, Candidate.at, Literal.at?_append ha hb hstart hstop]
  cases Literal.at? mid c with
  | none => rfl
  | some l =>
      simp only [Option.map_some, ofLiteral, Literal.shift]
      cases Key.derive? l.content <;> rfl

/-! ### Terminators of two characters -/

/-- A text is empty or begins with the terminator of a line, with or without a return. -/
def Text.BeginsWithTerminator (b : Text) : Prop := b = [] ∨ ['\n'] <+: b ∨ ['\r', '\n'] <+: b

lemma Literal.containing?_append_return (t : Text) (start stop : Nat) :
    containing? (t ++ ['\r']) start stop = containing? t start stop := by
  have hoccurrences : ∀ g : Grammar, g.occurrences (t ++ ['\r']) = g.occurrences t := fun g =>
    Grammar.occurrences_append_right (by cases g <;> decide) t
  simp only [containing?, hoccurrences]

lemma isDirectiveLine_lineAt_append_return {o : Nat} (ho : o ≤ size mid) :
    isDirectiveLine ((mid ++ ['\r']).lineAt o) = isDirectiveLine (mid.lineAt o) := by
  rcases lineAt_append_return ho with hline | hline
  · rw [hline]
  · rw [hline, isDirectiveLine_append_return]

/-- A return after a text does not change what a cursor in it points at. -/
theorem Literal.at?_append_return (hstart : c.start ≤ size mid) (hstop : c.stop ≤ size mid) :
    Literal.at? (mid ++ ['\r']) c = Literal.at? mid c := by
  obtain ⟨hfirst, hslice⟩ := Cursor.lines_append_return hstart hstop
  rw [hfirst] at hslice
  have hcontaining : ∀ start stop,
      containing? (slice (mid ++ ['\r']) (c.lines mid).1 (c.lines (mid ++ ['\r'])).2) start stop =
        containing? (slice mid (c.lines mid).1 (c.lines mid).2) start stop := by
    intro start stop
    rcases hslice with hslice | hslice
    · rw [hslice]
    · rw [hslice, containing?_append_return]
  refine Option.ext fun l => ?_
  rw [at?_eq_some_iff, at?_eq_some_iff, hfirst]
  refine exists_congr fun found => ?_
  rw [hcontaining]
  refine and_congr_right fun hfound => and_congr_right fun hl => ?_
  have hin := (containing?_range hfound).1.of_lines
  have hle : l.start ≤ size mid := by
    rw [hl]
    exact hin.start_lt_stop.le.trans hin.isBoundary.2.le_size
  rw [isDirectiveLine_lineAt_append_return hle]

/-- **What stands on other lines never changes which literal a cursor points at**, whichever
terminators the lines have. -/
theorem Literal.at?_amid (ha : EndsLine a) (hb : b.BeginsWithTerminator)
    (hstart : c.start ≤ size mid) (hstop : c.stop ≤ size mid) :
    Literal.at? (a ++ mid ++ b) (c.shift (size a)) =
      (Literal.at? mid c).map (·.shift (size a)) := by
  rcases hb with rfl | ⟨r, rfl⟩ | ⟨r, rfl⟩
  · exact at?_append ha beginsAfterLine_nil hstart hstop
  · exact at?_append ha (beginsAfterLine_cons r) hstart hstop
  · have hsize : size mid ≤ size (mid ++ ['\r']) := by
      rw [size_append]
      omega
    have hcut : a ++ mid ++ (['\r', '\n'] ++ r) = a ++ (mid ++ ['\r']) ++ ('\n' :: r) := by
      simp only [List.append_assoc, List.cons_append, List.nil_append]
    rw [hcut, at?_append ha (beginsAfterLine_cons r) (hstart.trans hsize) (hstop.trans hsize),
      at?_append_return hstart hstop]

/-- A selection from its end to its start, between lines that end with returns. -/
theorem Literal.at?_amid_returns :
    EndsLine "g('a');\r\n".toList ∧ BeginsWithTerminator "\r\n'b'".toList ∧
    Literal.at? ("g('a');\r\n".toList ++ "f('Hi')".toList ++ "\r\n'b'".toList)
      (.selection 15 12) = some ⟨11, 15, "Hi".toList, .singleQuoted⟩ := by
  have ha : EndsLine "g('a');\r\n".toList := endsLine_concat "g('a');\r".toList
  have hb : BeginsWithTerminator "\r\n'b'".toList := .inr (.inr ⟨"'b'".toList, rfl⟩)
  have hmid : Literal.at? "f('Hi')".toList (.selection 6 3) =
      some ⟨2, 6, "Hi".toList, .singleQuoted⟩ := by decide +kernel
  have hamid : Literal.at? ("g('a');\r\n".toList ++ "f('Hi')".toList ++ "\r\n'b'".toList)
      (Cursor.shift (size "g('a');\r\n".toList) (.selection 6 3)) =
        (Literal.at? "f('Hi')".toList (.selection 6 3)).map (·.shift (size "g('a');\r\n".toList)) :=
    Literal.at?_amid ha hb (by decide) (by decide)
  rw [hmid] at hamid
  exact ⟨ha, hb, hamid⟩

end Externalize
