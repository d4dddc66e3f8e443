import Externalize.Proofs.Literal.Pointing
import Externalize.Proofs.Source.Rounds

/-
The import in a text from which a literal was taken.

* `Text.Imports`: a line of the text begins, after blanks, with the declaration.
* `importEdit?_eq_none_iff`: a text gets no import just if it has the declaration, wherever that is.
* `Text.imports_of_import`, `Text.ImportsAt.replaced`: a line that begins with the declaration is
  inserted, or stays if the literal does not reach into it; `Text.imports_of_replaced`: no literal
  makes one.
* `Candidate.imports_of_apply`: when the text imports the declaration after an extraction.
-/
namespace Externalize

open Text

/-- A line at this place of the text begins, after blanks, with the declaration. -/
structure Text.ImportsAt (t above line below : Text) : Prop where
  isLine : IsLine t above line below
  declaration : importDeclaration <+: line.trimStart

/-- A line of the text begins, after blanks, with the declaration. -/
def Text.Imports (t : Text) : Prop := ∃ above line below, t.ImportsAt above line below

/-- The literal ends above the line or begins below it. -/
def Literal.IsApart (l : Literal) (above line : Text) : Prop :=
  l.stop < size above ∨ size (above ++ line) < l.start

variable {t t' above line below : Text} {c : Cursor} {l : Literal} {k : Key}

/-! ### Whether a text has the declaration -/

lemma importEdit?_eq_none_iff :
    importEdit? t = none ↔ Text.contains importDeclaration t = true := by
  rw [importEdit?]
  split_ifs with hcontains
  · simp [hcontains]
  · split <;> simp [hcontains]

namespace Text.ImportsAt

lemma infix_line (h : t.ImportsAt above line below) : importDeclaration <:+: line :=
  h.declaration.isInfix.trans (List.dropWhile_suffix isBlank).isInfix

/-- A text that imports the declaration has it. -/
lemma contains (h : t.ImportsAt above line below) : Text.contains importDeclaration t = true :=
  importEdit?_eq_none_iff.mp (importEdit?_of_isLine h.isLine h.infix_line)

lemma import_prefix (h : t.ImportsAt above line below) : "import ".toList <+: line.trimStart :=
  List.IsPrefix.trans ⟨importDeclaration.drop 7, rfl⟩ h.declaration

/-- Nothing but blanks is before the declaration in its line. -/
lemma head?_trimStart (h : t.ImportsAt above line below) : line.trimStart.head? = some 'i' := by
  obtain ⟨r, hr⟩ := h.declaration
  rw [← hr]
  rfl

/-! ### What stays -/

/-- A line that begins with the declaration stays if a literal apart from it is replaced. -/
theorem replaced (h : t.ImportsAt above line below) (hl : l.IsIn t) (hapart : l.IsApart above line)
    (new : Text) : ∃ above' below', (t.splice l.start l.stop new).ImportsAt above' line below' := by
  have hle := hl.start_lt_stop.le
  rcases hapart with habove | hbelow
  · exact ⟨_, below, h.isLine.splice_above hle habove new, h.declaration⟩
  · obtain ⟨below', hafter⟩ := h.isLine.splice_below hle hbelow hl.isBoundary.2.le_size new
    exact ⟨above, below', hafter, h.declaration⟩

/-- The literal at a caret is apart from every line that begins with the declaration. -/
lemma isApart_of_caret {o : Nat} (h : t.ImportsAt above line below)
    (hl : Literal.at? t (.caret o) = some l) : l.IsApart above line :=
  h.isLine.literal_apart h.import_prefix hl

end Text.ImportsAt

/-! ### What is new -/

/-- A text that gets the import has a line that begins with the declaration then. -/
theorem Text.imports_of_import {i : Edit} (himport : importEdit? t = some i) (hl : l.IsIn t)
    (happly : Plan.apply ⟨[l.replacement k, i]⟩ t = .ok t') : t'.Imports := by
  obtain ⟨a, b, rfl, ha⟩ := Plan.exists_append_of_import himport hl happly
  obtain ⟨above, line, below, hline, r, rfl⟩ := exists_isLine_of_import (b := b) himport ha
  exact ⟨above, _, below, hline, r, rfl⟩

lemma newline_notMem_lookupExpression (k : Key) : '\n' ∉ lookupExpression k := by
  have haccessor : '\n' ∉ accessor ++ ['.'] := by decide
  rw [lookupExpression, List.append_cons, List.mem_append, not_or]
  refine ⟨haccessor, fun hmem => ?_⟩
  have hkey := k.isKeyChar_of_mem hmem
  revert hkey
  decide

lemma exists_lookupExpression_eq_cons (k : Key) : ∃ r, lookupExpression k = 'A' :: r := ⟨_, rfl⟩

/-- What is before a literal at a cursor in its line begins no directive. -/
lemma Literal.exists_part_of_at? (hl : Literal.at? t c = some l) : ∃ above part mid rest,
    t = above ++ part ++ mid ++ rest ∧ EndsLine above ∧ '\n' ∉ part ∧
    l.start = size (above ++ part) ∧ l.stop = size (above ++ part ++ mid) ∧
    isDirectiveLine part = false := by
  obtain ⟨hdirective, -⟩ := Literal.at?_cases hl
  obtain ⟨a, rest, ht, hstart, hstop⟩ := (Literal.at?_range hl).exists_append
  obtain ⟨above, part, rfl, -, habove, hpart⟩ := exists_lastLine a
  refine ⟨above, part, _, rest, ht, habove, hpart, hstart, hstop, ?_⟩
  obtain ⟨r, hr⟩ := l.grammar.exists_enclose_eq_cons l.content
  rwa [hstart, ht, hr, List.append_assoc (above ++ part), List.cons_append,
    isDirectiveLine_lineAt_quote habove hpart] at hdirective

/-- No line begins with the declaration but for the literal that is replaced. -/
theorem Text.imports_of_replaced (hl : Literal.at? t c = some l)
    (h : (t.splice l.start l.stop (lookupExpression k)).Imports) : t.Imports := by
  obtain ⟨above, line, below, hline⟩ := h
  obtain ⟨a, part, mid, rest, rfl, ha, hpart, hstart, hstop, hdirective⟩ :=
    Literal.exists_part_of_at? hl
  rw [hstart, hstop, splice_mid] at hline
  have hnew : '\n' ∉ part ++ lookupExpression k :=
    List.not_mem_append hpart (newline_notMem_lookupExpression k)
  have hback : (a ++ part ++ lookupExpression k ++ rest).splice (size (a ++ part))
      (size (a ++ part ++ lookupExpression k)) mid = a ++ part ++ mid ++ rest := splice_mid _ _ _ _
  have hle : size (a ++ part) ≤ size (a ++ part ++ lookupExpression k) := by
    rw [size_append (a ++ part)]
    omega
  rcases hline.isLine.cases (by rw [List.append_assoc a]) ha hnew with
    hafter | ⟨rfl, r, rfl⟩ | hbefore
  · rw [← List.append_assoc] at hafter
    have h := hline.isLine.splice_above hle hafter mid
    rw [hback] at h
    exact ⟨_, line, below, h, hline.declaration⟩
  · -- the line of the literal begins as it did, and that is no import
    have himport : isDirectiveLine (part ++ lookupExpression k ++ r) = true :=
      isDirectiveLine_iff.mpr ⟨_, List.mem_cons_self, hline.import_prefix⟩
    obtain ⟨new, hnew⟩ := exists_lookupExpression_eq_cons k
    rw [hnew, List.append_assoc, List.cons_append,
      isDirectiveLine_append_cons (by decide) (by decide), hdirective] at himport
    cases himport
  · have hbefore' : size (above ++ line) < size (a ++ part) := by
      rw [size_append a]
      omega
    obtain ⟨below', h⟩ := hline.isLine.splice_below hle hbefore'
      (by simp only [size_append]; omega) mid
    rw [hback] at h
    exact ⟨above, line, below', h, hline.declaration⟩

/-! ### An extraction -/

/-- **After an extraction the text imports the declaration** if it did not have it, or if
it imported it on a line into which the literal does not reach; the literal at a caret never does.
A text that has the declaration on no line of its own, as in a comment or a string, gets none. -/
theorem Candidate.imports_of_apply {candidate : Candidate} (h : Candidate.at t c = .ok candidate)
    (happly : (Plan.externalizing t candidate.literal candidate.key).apply t = .ok t') :
    (Text.contains importDeclaration t = false → t'.Imports) ∧
    (∀ above line below, t.ImportsAt above line below → candidate.literal.IsApart above line →
      ∃ above' below', t'.ImportsAt above' line below') ∧
    (t'.Imports → Text.contains importDeclaration t = false ∨ t.Imports) ∧
    ∀ o, c = .caret o → ∀ above line below, t.ImportsAt above line below →
      candidate.literal.IsApart above line := by
  have hl := Candidate.at?_of_at h
  have hin := Candidate.at_range h
  have hreplaced : Text.contains importDeclaration t = true →
      t' = t.splice candidate.literal.start candidate.literal.stop
        (lookupExpression candidate.key) := by
    intro hcontains
    have hsplice := (Candidate.apply_of_importEdit?_eq_none h
      (importEdit?_eq_none_iff.mpr hcontains)).2
    exact Except.ok.inj (happly.symm.trans hsplice)
  refine ⟨fun hnot => ?_, fun above line below hline hapart => ?_, fun himports => ?_, ?_⟩
  · obtain ⟨i, himport⟩ := Option.ne_none_iff_exists'.mp fun hnone => by
      rw [importEdit?_eq_none_iff.mp hnone] at hnot
      cases hnot
    rw [Plan.externalizing, himport] at happly
    exact Text.imports_of_import himport hin happly
  · rw [hreplaced hline.contains]
    exact hline.replaced hin hapart _
  · cases hcontains : Text.contains importDeclaration t with
    | false => exact .inl rfl
    | true =>
        rw [hreplaced hcontains] at himports
        exact .inr (Text.imports_of_replaced hl himports)
  · rintro o rfl above line below hline
    exact hline.isApart_of_caret hl

/-- An import with a blank before it and a return after it, above a literal of two lines. -/
def indented : Text := ' ' :: importDeclaration ++ "\r\nf('a\nb')".toList

/-- A selection in the literal leaves the import. -/
theorem Candidate.imports_of_apply_indented : ∃ candidate t',
    Candidate.at indented (.selection 67 69) = .ok candidate ∧
    candidate.key.text = "a_b".toList ∧
    (Plan.externalizing indented candidate.literal candidate.key).apply indented = .ok t' ∧
    ∃ above below, t'.ImportsAt above (' ' :: importDeclaration ++ ['\r']) below := by
  have hat : Candidate.at indented (.selection 67 69) =
      .ok ⟨⟨66, 71, "a\nb".toList, .singleQuoted⟩, ⟨"a_b".toList, by decide⟩⟩ := by decide +kernel
  have happly : (Plan.externalizing indented ⟨66, 71, "a\nb".toList, .singleQuoted⟩
      ⟨"a_b".toList, by decide⟩).apply indented =
      .ok (' ' :: importDeclaration ++ "\r\nf(AppLocalizations.of(context)!.a_b)".toList) := by
    decide +kernel
  have hline : indented.ImportsAt [] (' ' :: importDeclaration ++ ['\r']) "\nf('a\nb')".toList := by
    refine ⟨⟨rfl, endsLine_nil, by decide, beginsAfterLine_cons _⟩, ['\r'], rfl⟩
  exact ⟨_, _, hat, rfl, happly,
    (Candidate.imports_of_apply hat happly).2.1 _ _ _ hline (.inr (by decide))⟩

/-- A literal below an import that is commented out. -/
def commented : Text := "// ".toList ++ importDeclaration ++ "\nText('Hi')".toList

/-- A declaration in a comment counts as one: the text gets no import. -/
theorem Candidate.not_forall_imports_of_apply :
    ¬ ∀ (t t' : Text) (c : Cursor) (candidate : Candidate), Candidate.at t c = .ok candidate →
      (Plan.externalizing t candidate.literal candidate.key).apply t = .ok t' → t'.Imports := by
  intro h
  have hat : Candidate.at commented (.caret 72) =
      .ok ⟨⟨70, 74, "Hi".toList, .singleQuoted⟩, ⟨"hi".toList, by decide⟩⟩ := by decide +kernel
  have happly : (Plan.externalizing commented ⟨70, 74, "Hi".toList, .singleQuoted⟩
      ⟨"hi".toList, by decide⟩).apply commented =
      .ok ("// ".toList ++ importDeclaration ++
        '\n' :: "Text(AppLocalizations.of(context)!.hi)".toList) := by decide +kernel
  obtain ⟨above, line, below, hline⟩ := h _ _ _ _ hat happly
  rcases hline.isLine.prefix_or_prefix (by decide) (by decide) with ⟨r, rfl⟩ | ⟨r, rfl⟩
  · cases hline.head?_trimStart
  · cases hline.head?_trimStart

end Externalize
