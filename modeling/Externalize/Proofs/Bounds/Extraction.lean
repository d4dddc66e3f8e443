import Externalize.Proofs.Bounds.Lines
import Externalize.Proofs.Source.Directives

/-
The search for a literal and the edits of a source, with operations that may have no result.

* `Checked.locate`, `Checked.candidate`: the literal at a cursor, cut out of the lines that the
  cursor touches.
* `Checked.importEdit`, `Checked.externalizing`: the edits, with the place of the import found in
  the text.
* `Checked.locate_eq`, `Checked.importEdit_eq`: all of them always have a result, that of the plain
  definitions.
-/
namespace Externalize

open Text

namespace Checked

variable {t b : Text} {n : Nat} {c : Char}

/-! ### The literal at a cursor -/

/-- The line that holds an offset, without its terminator. -/
def lineAt (t : Text) (o : Nat) : Checked Text := do
  let first ← lineStart t o
  let last ← lineEnd t o
  slice t first last

/-- The literal in a text that has `by_` bytes more in front. -/
def shift (l : Literal) (by_ : Nat) : Checked Literal := do
  let start ← add l.start by_
  let stop ← add l.stop by_
  .ok { l with start, stop }

/-- The literal that a cursor points at, searched for in the lines that the cursor touches. -/
def locate (t : Text) (c : Cursor) : Checked Location := do
  let (first, last) ← lines c t
  let scope ← slice t first last
  match Literal.containing? scope (c.start - first) (c.stop - first) with
  | none => .ok .nothing
  | some l =>
    let found ← shift l first
    let line ← lineAt t found.start
    .ok (if isDirectiveLine line then .directive found.start else .literal found)

/-- The candidate at a cursor. -/
def candidate (t : Text) (c : Cursor) : Checked (Except Skip Candidate) := do
  let found ← locate t c
  match found.literal? with
  | some l => .ok (Candidate.ofLiteral l)
  | none => .ok (.error .noLiteral)

lemma lineAt_eq (ht : t.size < Word64.largest) (o : Nat) : lineAt t o = .ok (t.lineAt o) := by
  rw [lineAt, lineStart_eq ht, ok_bind, lineEnd_eq ht, ok_bind]
  exact slice_eq (lineStart_le_lineEnd t o) (isBoundary_lineStart t o) (isBoundary_lineEnd t o)

/-- A literal that is in the text after the shift can be shifted. -/
lemma shift_eq {l : Literal} (ht : t.size < Word64.largest) (h : (l.shift n).IsIn t) :
    shift l n = .ok (l.shift n) := by
  have hstart : l.start + n ≤ t.size := h.isBoundary.1.le_size
  have hstop : l.stop + n ≤ t.size := h.isBoundary.2.le_size
  rw [shift, add_eq (by omega), ok_bind, add_eq (by omega), ok_bind]
  rfl

/-- The lines that a cursor touches can be cut out of the text. -/
lemma slice_lines (c : Cursor) (t : Text) :
    slice t (c.lines t).1 (c.lines t).2 = .ok (t.slice (c.lines t).1 (c.lines t).2) := by
  obtain ⟨a, b, hcut, hfirst, hsize⟩ := c.exists_lines t
  have hle : (c.lines t).1 ≤ (c.lines t).2 := Nat.le_max_right _ _
  refine slice_eq hle (isBoundary_iff.mpr ⟨a, _, hcut, hfirst⟩) (isBoundary_iff.mpr
    ⟨a ++ t.slice (c.lines t).1 (c.lines t).2, b, by rw [List.append_assoc, ← hcut], ?_⟩)
  rw [size_append]
  omega

/-- **The search for the literal at a cursor always has a result**, whatever the offsets of the
cursor are. -/
theorem locate_eq (ht : t.size < Word64.largest) (c : Cursor) :
    locate t c = .ok (Location.of t c) := by
  rw [locate, lines_eq ht, ok_bind, Location.of]
  simp only [slice_lines, ok_bind]
  cases hfound : Literal.containing? (t.slice (c.lines t).1 (c.lines t).2)
      (c.start - (c.lines t).1) (c.stop - (c.lines t).1) with
  | none => rfl
  | some l =>
      have hin := (Literal.containing?_range hfound).1.of_lines
      simp only [shift_eq ht hin, lineAt_eq ht, ok_bind]

lemma candidate_eq (ht : t.size < Word64.largest) (c : Cursor) :
    candidate t c = .ok (Candidate.at t c) := by
  rw [candidate, locate_eq ht, ok_bind, Candidate.at, Literal.at?]
  cases (Location.of t c).literal? <;> rfl

/-! ### The first place of a character -/

/-- The offset of the first place of a character. -/
def find? (c : Char) (t : Text) : Option Nat :=
  if c ∈ t then some (size (t.takeWhile (· != c))) else none

lemma find?_append_cons (hb : c ∉ b) (r : Text) : find? c (b ++ c :: r) = some (size b) := by
  rw [find?, if_pos (by simp), takeWhile_append_cons hb]

lemma find?_eq_none (h : c ∉ t) : find? c t = none := if_neg h

/-! ### The place of the import -/

/-- The line terminator of a text, seen at the first line feed. -/
def terminator (t : Text) : Checked Text :=
  match find? '\n' t with
  | some n => do
    let line ← slice t 0 n
    .ok (if line.getLast? = some '\r' then ['\r', '\n'] else ['\n'])
  | none => .ok ['\n']

/-- The offset of the last import directive after one more line, which begins at `o`. -/
def lastImportAfter (o : Nat) (last : Option Nat) (line : Text) : Checked (Option Nat) :=
  if isImportLine line.trimStart then do
    let blanks ← sub line.size line.trimStart.size
    let start ← add o blanks
    .ok (some start)
  else .ok last

/-- The offset of the last import directive in the lines from `o` on, or else the one found
before. -/
def lastImportFrom (o : Nat) (last : Option Nat) : List Text → Checked (Option Nat)
  | [] => .ok last
  | line :: ls => do
    let found ← lastImportAfter o last line
    let next ← add o line.size
    lastImportFrom next found ls

/-- The offset after the last import directive. -/
def lastImportEnd (t : Text) : Checked (Option Nat) := do
  match ← lastImportFrom 0 none (terminatedLines t) with
  | none => .ok none
  | some start =>
    let d ← slice t start t.size
    match find? ';' d with
    | some semicolon =>
      let last ← add start semicolon
      let stop ← add last 1
      .ok (some stop)
    | none =>
      let stop ← lineEnd t start
      .ok (some stop)

/-- The insertion that makes the text import the declaration. -/
def importEdit (t : Text) : Checked (Option Edit) :=
  if Text.contains importDeclaration t then .ok none
  else do
    let eol ← terminator t
    match ← lastImportEnd t with
    | some o => .ok (some ⟨o, o, eol ++ importDeclaration⟩)
    | none => .ok (some ⟨0, 0, importDeclaration ++ eol⟩)

/-- The edits that externalize a literal under a key. -/
def externalizing (t : Text) (l : Literal) (k : Key) : Checked Plan := do
  let e ← importEdit t
  .ok ⟨l.replacement k :: e.toList⟩

lemma terminator_eq (t : Text) : terminator t = .ok t.terminator := by
  rw [terminator, Text.terminator]
  by_cases hfeed : '\n' ∈ t
  · obtain ⟨line, rest, rfl, hline⟩ := List.eq_append_cons_of_mem hfeed
    have hslice : slice (line ++ '\n' :: rest) 0 (size line) = .ok line :=
      slice_append [] line ('\n' :: rest)
    have hfirst : firstLine (line ++ '\n' :: rest) = line := takeWhile_append_cons hline rest
    simp only [find?_append_cons hline, hslice, ok_bind, hfeed, hfirst, true_and]
  · rw [find?_eq_none hfeed, if_neg fun h => hfeed h.1]

/-- One line of the search. -/
lemma lastImportFrom_cons {u line : Text} (h : size (u ++ line) ≤ Word64.largest)
    (last : Option Nat) (ls : List Text) : lastImportFrom (size u) last (line :: ls) =
      lastImportFrom (size (u ++ line)) (if isImportLine line.trimStart then
        some (size (u ++ line) - size line.trimStart) else last) ls := by
  have htrim := size_trimStart_le line
  rw [size_append] at h
  rw [lastImportFrom, lastImportAfter, size_append]
  split_ifs
  · rw [sub_eq htrim, ok_bind, add_eq (by omega), ok_bind, ok_bind, add_eq h, ok_bind,
      Nat.add_sub_assoc htrim]
  · rw [ok_bind, add_eq h, ok_bind]

/-- The search goes down the lines, and the last directive counts. -/
lemma lastImportFrom_eq {u : Text} (h : size (u ++ t) ≤ Word64.largest) (last : Option Nat) :
    lastImportFrom (size u) last (terminatedLines t) =
      .ok (((fromLastImport? t).map fun d => size (u ++ t) - size d).or last) := by
  induction t using lines_induction generalizing u last with
  | last line hline =>
      rcases eq_or_ne line [] with rfl | hne
      · rfl
      · rw [terminatedLines_of_notMem hne hline, lastImportFrom_cons h, lastImportFrom,
          fromLastImport?_of_notMem hline]
        split_ifs <;> rfl
  | more line rest hline ih =>
      -- the line takes its line feed along, so that the search goes on where the rest begins
      rw [List.append_cons line, ← List.append_assoc] at h ⊢
      rw [← List.append_cons line, terminatedLines_append hline,
        lastImportFrom_cons (by rw [size_append] at h; omega), ih h,
        fromLastImport?_line_append hline, isImportLine_append_feed, Option.map_or, Option.or_assoc]
      congr 2
      split_ifs with himport
      · rw [trimStart_append (ne_nil_of_isImportLine himport), Option.map_some, Option.some_or]
        simp only [size_append, size_cons, size_nil]
        congr 1
        omega
      · rfl

/-- **The search for the end of the last import directive always has a result.** -/
theorem lastImportEnd_eq (ht : t.size < Word64.largest) :
    lastImportEnd t = .ok t.lastImportEnd? := by
  have hstart := lastImportFrom_eq (u := []) (t := t) (by rw [List.nil_append]; omega) none
  rw [size_nil, List.nil_append, Option.or_none] at hstart
  rw [lastImportEnd, hstart, ok_bind, lastImportEnd?]
  cases hd : fromLastImport? t with
  | none => rfl
  | some d =>
      obtain ⟨a, rfl⟩ := append_of_fromLastImport? hd
      rw [size_append] at ht
      have hsize : size (a ++ d) - size d = size a := by
        rw [size_append, Nat.add_sub_cancel]
      simp only [Option.map_some, hsize, slice_append_right, ok_bind]
      by_cases hsemicolon : ';' ∈ d
      · obtain ⟨b, r, rfl, hb⟩ := List.eq_append_cons_of_mem hsemicolon
        rw [size_append, size_cons] at ht
        have hpos := Char.utf8Size_pos ';'
        simp only [find?_append_cons hb, takeWhile_append_cons hb, if_pos hsemicolon]
        rw [add_eq (by omega), ok_bind, add_eq (by omega), ok_bind]
      · simp only [find?_eq_none hsemicolon, if_neg hsemicolon]
        rw [lineEnd_eq (by rwa [size_append]), ok_bind, lineEnd_size_append, size_append]

/-- **The import always has a place.** -/
theorem importEdit_eq (ht : t.size < Word64.largest) : importEdit t = .ok (importEdit? t) := by
  rw [importEdit, importEdit?]
  split_ifs
  · rfl
  · rw [terminator_eq, ok_bind, lastImportEnd_eq ht, ok_bind]
    cases t.lastImportEnd? <;> rfl

lemma externalizing_eq (ht : t.size < Word64.largest) (l : Literal) (k : Key) :
    externalizing t l k = .ok (Plan.externalizing t l k) := by
  rw [externalizing, importEdit_eq ht, ok_bind]
  rfl

end Checked

end Externalize
