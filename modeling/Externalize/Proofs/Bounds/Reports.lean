import Externalize.CommandLine.Report
import Externalize.CommandLine.Target
import Externalize.Proofs.Bounds.Extraction
import Externalize.Proofs.Text.Positions

/-
Positions and reports, with operations that may have no result.

* `Checked.positionOf`, `Checked.offsetOf`: the conversions between offsets and positions.
* `Checked.skipped`, `Checked.preview`: what the user is told of a place in the text.
* `Checked.eq_ok_of_size_lt`: **every operation on offsets has a result**, for every text and every
  cursor.
-/
namespace Externalize

open Text

namespace Checked

variable {t a b : Text} {o n : Nat}

/-! ### Positions -/

/-- The position of an offset. -/
def positionOf (t : Text) (o : Nat) : Checked Position := do
  let front ← slice t 0 o
  let line ← add (front.count '\n') 1
  let first ← lineStart t o
  let part ← slice t first o
  let column ← add part.length 1
  .ok ⟨line, column⟩

/-- The start of the line that is `n` lines below the one that begins at an offset. -/
def passLines (t : Text) : (n : Nat) → (start : Nat) → Checked (Option Nat)
  | 0, start => .ok (some start)
  | n + 1, start => do
    let rest ← slice t start t.size
    match find? '\n' rest with
    | none => .ok none
    | some feed =>
      let step ← add feed 1
      let next ← add start step
      passLines t n next

/-- The offset of a position. -/
def offsetOf (t : Text) (p : Position) : Checked (Option Nat) :=
  if p.line = 0 ∨ p.column = 0 then .ok none
  else do
    let below ← sub p.line 1
    match ← passLines t below 0 with
    | none => .ok none
    | some start =>
      let stop ← lineEnd t start
      let line ← slice t start stop
      let n ← sub p.column 1
      if n < line.length then
        let o ← add start (size (line.take n))
        .ok (some o)
      else .ok (some stop)

/-- An offset within a character has no position. -/
example : positionOf "é".toList 1 = .error .splitsCharacter := by decide

lemma slice_zero (h : IsBoundary t o) : slice t 0 o = .ok (before t o) := by
  rw [slice_eq (Nat.zero_le _) (isBoundary_zero t) h, Text.slice, after_zero, Nat.sub_zero]

/-- **A boundary of a text has a position.** -/
theorem positionOf_eq (ht : t.size < Word64.largest) (h : IsBoundary t o) :
    positionOf t o = .ok (t.positionOf o) := by
  have hstart := isBoundary_lineStart t o
  have hle := h.le_size
  have hcount : (before t o).count '\n' ≤ o :=
    List.count_le_length.trans ((length_le_size _).trans (size_before_le t o))
  have hlength : (t.slice (t.lineStart o) o).length ≤ o - t.lineStart o :=
    (length_le_size _).trans (size_before_le _ _)
  rw [positionOf, slice_zero h, ok_bind, add_eq (by omega), ok_bind, lineStart_eq ht, ok_bind,
    slice_eq (lineStart_le t o) hstart h, ok_bind, add_eq (by omega), ok_bind]
  rfl

/-- The lines after the start of one are passed over in turn. -/
lemma passLines_eq (ht : size (a ++ b) < Word64.largest) (n : Nat) :
    passLines (a ++ b) n (size a) =
      .ok ((dropLines n b).map fun rest => size (a ++ b) - size rest) := by
  induction n generalizing a b with
  | zero => rw [passLines, dropLines, Option.map_some, size_append, Nat.add_sub_cancel]
  | succ n ih =>
      rw [passLines, slice_append_right, ok_bind]
      by_cases hfeed : '\n' ∈ b
      · obtain ⟨line, rest, rfl, hline⟩ := List.eq_append_cons_of_mem hfeed
        have hcut : a ++ (line ++ '\n' :: rest) = a ++ line ++ ['\n'] ++ rest := by simp
        have hnext : size a + (size line + 1) = size (a ++ line ++ ['\n']) := by
          rw [size_append, size_append, Nat.add_assoc]
          rfl
        have hle : size (a ++ line ++ ['\n']) ≤ size (a ++ (line ++ '\n' :: rest)) := by
          rw [hcut, size_append (a ++ line ++ ['\n'])]
          exact Nat.le_add_right _ _
        simp only [find?_append_cons hline, dropLines_line_append hline]
        rw [add_eq (by omega), ok_bind, add_eq (by omega), ok_bind, hnext, hcut]
        exact ih (hcut ▸ ht)
      · simp only [find?_eq_none hfeed]
        rw [dropLines_eq_none (by rw [List.count_eq_zero_of_not_mem hfeed]; omega), Option.map_none]

/-- **Every position has an offset, or is found to have none.** -/
theorem offsetOf_eq (ht : t.size < Word64.largest) (p : Position) :
    offsetOf t p = .ok (t.offsetOf p) := by
  rw [offsetOf, Text.offsetOf]
  split_ifs with hzero
  · rfl
  · obtain ⟨hline, hcolumn⟩ := not_or.mp hzero
    have hpassed := passLines_eq (a := []) (b := t) (by rwa [List.nil_append]) (p.line - 1)
    rw [size_nil, List.nil_append] at hpassed
    rw [sub_eq (by omega), ok_bind, hpassed, ok_bind]
    cases hrest : dropLines (p.line - 1) t with
    | none => rfl
    | some rest =>
        obtain ⟨a, rfl⟩ := dropLines_suffix hrest
        obtain ⟨r, hr⟩ := firstLine_prefix rest
        have hstart : size (a ++ rest) - size rest = size a := by
          rw [size_append, Nat.add_sub_cancel]
        simp only [Option.map_some, hstart]
        rw [lineEnd_eq ht, ok_bind, lineEnd_size_append]
        generalize dropReturn (firstLine rest) = line at hr ⊢
        rw [hr] at ht ⊢
        rw [slice_append, ok_bind, sub_eq (by omega), ok_bind]
        split_ifs with hinside
        · have htake := congrArg size (List.take_append_drop (p.column - 1) line)
          simp only [size_append] at ht htake
          rw [add_eq (by omega), ok_bind]
        · -- a column past the end of the line stands for that end
          rw [List.take_of_length_le (by omega), size_append]

/-! ### Reports -/

/-- The literal in its line, underlined up to its end or that of the line. -/
def literalLines (x : Report) (l : Literal) : Checked (List Text) := do
  let p ← positionOf x.text l.start
  let line ← lineAt x.text l.start
  let shown ← sub p.column 1
  let last ← lineEnd x.text l.start
  let inLine ← slice x.text l.start (min l.stop last)
  let number := Report.numeral p.line
  let margin := Report.blanks number.length
  let bar := Style.blue.paint x.colours ['|']
  let carets := List.replicate (max 1 inLine.width) '^'
  .ok
    ["  ".toList ++ Style.blue.paint x.colours "-->".toList ++ ' ' :: x.place p,
      margin ++ ' ' :: bar,
      Style.blue.paint x.colours number ++ ' ' :: bar ++ ' ' :: line,
      margin ++ ' ' :: bar ++ ' ' :: Report.blanks (Text.width (line.take shown)) ++
        Style.yellow.paint x.colours carets]

/-- The report on an extraction that was not made. -/
def preview (x : Report) (fs : FileSystem) (e : Extraction) : Checked (List Text) := do
  let shown ← literalLines x e.candidate.literal
  .ok (x.headline "Would extract ".toList e :: shown ++ e.plan.edits.map x.editLine ++
    [x.noteLine "resource files" (List.intercalate ", ".toList (e.targets.map (x.targetText fs)))])

/-- The report on a cursor at which nothing is extracted. -/
def skipped (x : Report) (start : Nat) : Skip → Checked Text
  | .noLiteral => do
    let p ← positionOf x.text start
    .ok (Report.failure x.colours ("No string literal at ".toList ++ x.place p))
  | .emptyKey content => .ok (Report.failure x.colours (Report.noKey content))

/-- **The lines on a literal of the text can be made.** -/
theorem literalLines_eq {x : Report} {l : Literal} (ht : x.text.size < Word64.largest)
    (h : l.IsIn x.text) : literalLines x l = .ok (x.literalLines l) := by
  obtain ⟨hstart, hstop⟩ := h.isBoundary
  have hle := le_lineEnd hstart.le_size
  have hmin : x.text.IsBoundary (min l.stop (x.text.lineEnd l.start)) := by
    rcases min_choice l.stop (x.text.lineEnd l.start) with heq | heq <;> rw [heq]
    · exact hstop
    · exact isBoundary_lineEnd _ _
  have hcolumn : 1 ≤ (x.text.positionOf l.start).column := Nat.le_add_left _ _
  rw [literalLines, positionOf_eq ht hstart, ok_bind, lineAt_eq ht, ok_bind,
    sub_eq hcolumn, ok_bind, lineEnd_eq ht, ok_bind,
    slice_eq (le_min h.start_lt_stop.le hle) hstart hmin, ok_bind]
  rfl

lemma preview_eq {x : Report} {e : Extraction} (ht : x.text.size < Word64.largest)
    (h : e.candidate.literal.IsIn x.text) (fs : FileSystem) :
    preview x fs e = .ok (x.preview fs e) := by
  rw [preview, literalLines_eq ht h, ok_bind]
  rfl

lemma skipped_eq {x : Report} (ht : x.text.size < Word64.largest) (h : IsBoundary x.text o)
    (skip : Skip) : skipped x o skip = .ok (x.skipped o skip) := by
  cases skip with
  | noLiteral =>
      rw [skipped, positionOf_eq ht h, ok_bind]
      rfl
  | emptyKey content => rfl

/-! ### All operations -/

/-- A cursor that a command line names begins at a boundary. -/
lemma isBoundary_of_resolve {g : Target} {c : Cursor} (h : g.resolve t = .ok c) :
    IsBoundary t c.start := by
  rw [Target.resolve] at h
  split at h
  · cases h
  · split_ifs at h with hend hbounds
    cases h
    exact hbounds.1

/-- **No position makes an operation on offsets fail.** For every cursor, whose offsets may be past
the end, within a character or in either order, the search for the literal and for the place of
the import go through, and so does the reading of every position. For a cursor that a command line
names, so do the reports on it. A text in memory is always smaller than the largest word. -/
theorem eq_ok_of_size_lt (t : Text) (ht : t.size < Word64.largest) :
    (∀ c, lines c t = .ok (c.lines t) ∧ locate t c = .ok (Location.of t c) ∧
      candidate t c = .ok (Candidate.at t c)) ∧
    importEdit t = .ok (importEdit? t) ∧
    (∀ l k, externalizing t l k = .ok (Plan.externalizing t l k)) ∧
    (∀ p, offsetOf t p = .ok (t.offsetOf p)) ∧
    ∀ (g : Target) (c : Cursor), g.resolve t = .ok c → ∀ x : Report, x.text = t →
      (∀ skip, skipped x c.start skip = .ok (x.skipped c.start skip)) ∧
      ∀ fs e, Candidate.at t c = .ok e.candidate → preview x fs e = .ok (x.preview fs e) := by
  refine ⟨fun c => ⟨lines_eq ht c, locate_eq ht c, candidate_eq ht c⟩, importEdit_eq ht,
    externalizing_eq ht, offsetOf_eq ht, ?_⟩
  rintro g c hresolve x rfl
  exact ⟨skipped_eq ht (isBoundary_of_resolve hresolve), fun fs e he =>
    preview_eq ht (Candidate.at_range he) fs⟩

/-- Cursors past the end, within a character and inverted, and a literal below a return. -/
theorem eq_ok_of_size_lt_accented :
    locate "é\r\nf('x')".toList (.caret 18446744073709551615) = .ok .nothing ∧
    locate "é\r\nf('x')".toList (.caret 1) = .ok .nothing ∧
    locate "é\r\nf('x')".toList (.selection 9 7) =
      .ok (.literal ⟨6, 9, ['x'], .singleQuoted⟩) ∧
    ∃ (c : Cursor) (e : Extraction),
      (⟨none, some 2, some 4, none⟩ : Target).resolve "é\r\nf('x')".toList = .ok c ∧
      Candidate.at "é\r\nf('x')".toList c = .ok e.candidate ∧
      skipped ⟨⟨[]⟩, ⟨[]⟩, "é\r\nf('x')".toList, false⟩ c.start .noLiteral =
        .ok "✘ No string literal at :2:4".toList ∧
      preview ⟨⟨[]⟩, ⟨[]⟩, "é\r\nf('x')".toList, false⟩ (.mk [] []) e =
        .ok (Report.preview ⟨⟨[]⟩, ⟨[]⟩, "é\r\nf('x')".toList, false⟩ (.mk [] []) e) := by
  obtain ⟨hcursors, -, -, -, hreports⟩ := eq_ok_of_size_lt "é\r\nf('x')".toList (by decide)
  have hresolve : (⟨none, some 2, some 4, none⟩ : Target).resolve "é\r\nf('x')".toList =
      .ok (.caret 7) := by decide
  have hat : Candidate.at "é\r\nf('x')".toList (.caret 7) =
      .ok ⟨⟨6, 9, ['x'], .singleQuoted⟩, ⟨['x'], by decide⟩⟩ := by decide +kernel
  obtain ⟨hskipped, hpreview⟩ :=
    hreports _ _ hresolve ⟨⟨[]⟩, ⟨[]⟩, "é\r\nf('x')".toList, false⟩ rfl
  refine ⟨?_, ?_, ?_, .caret 7, ⟨_, ⟨[]⟩, [], none⟩, hresolve, hat, ?_, hpreview _ _ hat⟩
  · rw [(hcursors _).2.1]
    decide +kernel
  · rw [(hcursors _).2.1]
    decide +kernel
  · rw [(hcursors _).2.1]
    decide +kernel
  · rw [hskipped]
    decide +kernel

end Checked

end Externalize
