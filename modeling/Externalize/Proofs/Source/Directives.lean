import Externalize.Proofs.Literal.Pointing
import Externalize.Proofs.Source.Externalizing

/-
The search for import directives and the lines of directives.

* `Text.fromLastImport?_append`: the last directive of a text is the last one in the lines at its
  end, or else that of the lines above them; `Text.fromLastImport?_below` says that no other one
  begins below it.
* `Text.FindsImport`: the search, come to the end of a line, is on that line.
* `Literal.directives_agree`: the search and the lines on which no literal is offered agree on what
  an import is, but for a tab after the word.
-/
namespace Externalize

open Text

namespace Text

variable {t line rest a b above below : Text}

/-! ### Lines of imports -/

lemma isImportLine_iff :
    isImportLine line = true ↔ "import ".toList <+: line ∨ "import\t".toList <+: line := by
  simp [isImportLine, List.isPrefixOf_iff_prefix]

/-- A line feed at its end does not make a line an import. -/
lemma isImportLine_append_feed (line : Text) :
    isImportLine (trimStart (line ++ ['\n'])) = isImportLine line.trimStart := by
  rw [Bool.eq_iff_iff, isImportLine_iff, isImportLine_iff]
  exact or_congr (prefix_trimStart_concat (by decide) (by decide))
    (prefix_trimStart_concat (by decide) (by decide))

lemma ne_nil_of_isImportLine (h : isImportLine line = true) : line ≠ [] := by
  rintro rfl
  cases h

/-- Only the blanks at the start of a line that has more are trimmed. -/
lemma trimStart_append (hne : a.trimStart ≠ []) (b : Text) :
    trimStart (a ++ b) = a.trimStart ++ b := by
  rw [trimStart] at hne
  rw [trimStart, trimStart, List.dropWhile_append,
    if_neg fun hnone => hne (List.isEmpty_iff.mp hnone)]

lemma size_trimStart_le (line : Text) : size line.trimStart ≤ size line := by
  obtain ⟨blanks, hcut⟩ := List.dropWhile_suffix (l := line) isBlank
  rw [← congrArg size hcut, size_append]
  exact Nat.le_add_left _ _

lemma newline_notMem_trimStart (hline : '\n' ∉ line) : '\n' ∉ line.trimStart := fun hmem =>
  hline ((List.dropWhile_suffix isBlank).subset hmem)

/-! ### The last directive -/

/-- In a text of one line the directive is that line. -/
lemma fromLastImport?_of_notMem (hline : '\n' ∉ line) : fromLastImport? line =
    if isImportLine line.trimStart then some line.trimStart else none := by
  rcases eq_or_ne line [] with rfl | hne
  · rfl
  · rw [fromLastImport?, terminatedLines_of_notMem hne hline]
    simp

/-- The last directive of a text is the last one below its first line, or else that line. -/
lemma fromLastImport?_line_append (hline : '\n' ∉ line) (rest : Text) :
    fromLastImport? (line ++ '\n' :: rest) = (fromLastImport? rest).or
      (if isImportLine line.trimStart then some (line.trimStart ++ '\n' :: rest) else none) := by
  obtain ⟨hflatten, -⟩ := exists_append_of_lastImport (terminatedLines rest) _ rfl
  rw [flatten_terminatedLines] at hflatten
  rw [fromLastImport?, fromLastImport?, terminatedLines_append hline, List.foldr_cons]
  generalize (terminatedLines rest).foldr _ _ = found at hflatten
  obtain ⟨after, found⟩ := found
  obtain rfl : after = rest := hflatten
  cases found with
  | some later => rfl
  | none =>
      simp only [isImportLine_append_feed, Option.none_or]
      split_ifs with himport
      · rw [trimStart_append (ne_nil_of_isImportLine himport), List.append_assoc,
          List.singleton_append]
      · rfl

/-- A directive that is found is found below the first line, or it begins there. -/
lemma fromLastImport?_line_append_cases (hline : '\n' ∉ line)
    (h : fromLastImport? (line ++ '\n' :: rest) = some a) : fromLastImport? rest = some a ∨
      fromLastImport? rest = none ∧ isImportLine line.trimStart = true ∧
        line.trimStart ++ '\n' :: rest = a := by
  rw [fromLastImport?_line_append hline] at h
  cases hrest : fromLastImport? rest with
  | some d =>
      rw [hrest, Option.some_or] at h
      exact .inl h
  | none =>
      rw [hrest, Option.none_or] at h
      split_ifs at h with himport
      exact .inr ⟨rfl, himport, Option.some_injective _ h⟩

/-- The last directive of a text is the last one in the lines at its end, or else that of the lines
above. -/
theorem fromLastImport?_append (ha : EndsLine a) (b : Text) : fromLastImport? (a ++ b) =
    (fromLastImport? b).or ((fromLastImport? a).map (· ++ b)) := by
  induction a using lines_induction with
  | last line hline =>
      obtain rfl : line = [] := by
        by_contra hne
        exact hline (ha.mem_of_append (a := []) hne)
      have hnone : fromLastImport? [] = none := rfl
      rw [List.nil_append, hnone, Option.map_none, Option.or_none]
  | more line rest hline ih =>
      -- each line of the upper part is asked only if nothing is found below it
      rw [List.append_assoc, List.cons_append, fromLastImport?_line_append hline,
        fromLastImport?_line_append hline, ih ((endsLine_append_cons line rest).mp ha),
        Option.or_assoc, Option.map_or]
      congr 2
      split_ifs <;> simp

/-- A text without directives has none in the lines at its end. -/
lemma fromLastImport?_eq_none_of_append (h : fromLastImport? (a ++ '\n' :: b) = none) :
    fromLastImport? b = none := by
  rw [List.append_cons, fromLastImport?_append (endsLine_concat a)] at h
  exact (Option.or_eq_none_iff.mp h).1

/-- No directive begins below the last one. -/
lemma fromLastImport?_below (h : fromLastImport? t = some (a ++ '\n' :: b)) :
    fromLastImport? b = none := by
  induction t using lines_induction with
  | last line hline =>
      rw [fromLastImport?_of_notMem hline] at h
      split_ifs at h
      refine absurd ?_ (newline_notMem_trimStart hline)
      rw [Option.some_injective _ h]
      simp
  | more line rest hline ih =>
      rcases fromLastImport?_line_append_cases hline h with hbelow | ⟨hnone, -, heq⟩
      · exact ih hbelow
      · rcases append_cons_cases (newline_notMem_trimStart hline) heq with
          ⟨-, rfl⟩ | ⟨mid, -, rfl⟩
        · exact hnone
        · exact fromLastImport?_eq_none_of_append hnone

/-- The last directive begins as one. -/
lemma isImportLine_of_fromLastImport? (h : fromLastImport? t = some a) : isImportLine a = true := by
  induction t using lines_induction with
  | last line hline =>
      rw [fromLastImport?_of_notMem hline] at h
      split_ifs at h with himport
      exact Option.some_injective _ h ▸ himport
  | more line rest hline ih =>
      rcases fromLastImport?_line_append_cases hline h with hbelow | ⟨-, himport, rfl⟩
      · exact ih hbelow
      · rw [isImportLine_iff]
        exact (isImportLine_iff.mp himport).imp (·.trans (List.prefix_append _ _))
          (·.trans (List.prefix_append _ _))

lemma size_pos_of_fromLastImport? (h : fromLastImport? t = some a) : 0 < size a :=
  Nat.pos_of_ne_zero fun hzero =>
    ne_nil_of_isImportLine (isImportLine_of_fromLastImport? h) (eq_nil_of_size_eq_zero hzero)

/-! ### The lines that are found -/

/-- The search for the last directive, come to the end of this line, is on the line. -/
def FindsImport (above line : Text) : Prop :=
  ∃ o, lastImportStart? (above ++ line) = some o ∧ size above ≤ o

/-- The search finds the lines that begin an import directive. -/
theorem findsImport_iff (habove : EndsLine above) (hline : '\n' ∉ line) :
    FindsImport above line ↔ isImportLine line.trimStart = true := by
  have htrim := size_trimStart_le line
  rw [FindsImport, lastImportStart?, fromLastImport?_append habove, fromLastImport?_of_notMem hline]
  split_ifs with himport
  · simp only [himport, iff_true]
    refine ⟨_, rfl, ?_⟩
    simp only [size_append]
    omega
  · refine iff_of_false ?_ himport
    rintro ⟨o, ho, hle⟩
    -- what is found then begins above the line
    rw [Option.none_or, Option.map_map, Option.map_eq_some_iff] at ho
    obtain ⟨d, hd, rfl⟩ := ho
    have hsize := size_pos_of_fromLastImport? hd
    obtain ⟨a, rfl⟩ := append_of_fromLastImport? hd
    simp only [Function.comp_apply, size_append] at hle
    omega

/-- The last directive of a text begins on a line that the search finds. -/
theorem findsImport_of_lastImportStart? {o : Nat} (h : IsLine t above line below)
    (ho : t.lastImportStart? = some o) (habove : size above ≤ o) (hle : o ≤ size (above ++ line)) :
    FindsImport above line := by
  rw [findsImport_iff h.above h.line]
  rw [lastImportStart?, Option.map_eq_some_iff] at ho
  obtain ⟨d, hd, rfl⟩ := ho
  rw [h.append, List.append_assoc, fromLastImport?_append h.above, Option.or_eq_some_iff] at hd
  rw [h.append, List.append_assoc] at habove hle
  rcases hd with hd | ⟨-, hd⟩
  · by_contra himport
    rcases below with _ | ⟨c, rest⟩
    · rw [List.append_nil, fromLastImport?_of_notMem h.line, if_neg himport] at hd
      cases hd
    · obtain rfl : c = '\n' := h.below c rfl
      rw [fromLastImport?_line_append h.line, if_neg himport, Option.or_none] at hd
      obtain ⟨a, rfl⟩ := append_of_fromLastImport? hd
      simp only [size_append, size_cons] at hle
      have hfeed := Char.utf8Size_pos '\n'
      omega
  · -- it begins above the line
    obtain ⟨d', hd', rfl⟩ := Option.map_eq_some_iff.mp hd
    obtain ⟨a, rfl⟩ := append_of_fromLastImport? hd'
    have hsize := size_pos_of_fromLastImport? hd'
    simp only [size_append] at habove
    omega

end Text

/-! ### The lines of literals -/

variable {t above line below : Text}

/-- No literal at a cursor begins on the line of a directive. -/
lemma Literal.isDirectiveLine_of_at? {c : Cursor} {l : Literal} (h : IsLine t above line below)
    (hl : Literal.at? t c = some l) (habove : size above ≤ l.start)
    (hle : l.start ≤ size (above ++ line)) : isDirectiveLine line = false := by
  rw [← isDirectiveLine_lineAt h (Literal.at?_range hl).isBoundary.1 habove hle]
  exact (Literal.at?_cases hl).1

/-- **The search for import directives and the search for literals agree on the lines of imports**,
but for those with a tab after the word: the first one finds these, and the second one offers their
literals. -/
theorem Literal.directives_agree (h : IsLine t above line below) :
    (FindsImport above line ↔
      "import ".toList <+: line.trimStart ∨ "import\t".toList <+: line.trimStart) ∧
    (∀ o, t.lastImportStart? = some o → size above ≤ o → o ≤ size (above ++ line) →
      FindsImport above line) ∧
    (isDirectiveLine line = true ↔
      FindsImport above line ∧ ¬ "import\t".toList <+: line.trimStart ∨
      "export ".toList <+: line.trimStart ∨ "part ".toList <+: line.trimStart) ∧
    ∀ c l, Literal.at? t c = some l → size above ≤ l.start → l.start ≤ size (above ++ line) →
      FindsImport above line → "import\t".toList <+: line.trimStart := by
  have hfinds := (findsImport_iff h.above h.line).trans isImportLine_iff
  have hapart : "import ".toList <+: line.trimStart → ¬ "import\t".toList <+: line.trimStart := by
    intro hspace htab
    have hprefix : "import ".toList <+: "import\t".toList :=
      List.prefix_of_prefix_length_le hspace htab (by decide)
    revert hprefix
    decide
  have hdirective : isDirectiveLine line = true ↔
      FindsImport above line ∧ ¬ "import\t".toList <+: line.trimStart ∨
      "export ".toList <+: line.trimStart ∨ "part ".toList <+: line.trimStart := by
    rw [isDirectiveLine_iff]
    simp only [List.exists_mem_cons_iff, List.not_mem_nil, false_and, exists_false, or_false]
    refine or_congr_left ⟨fun hspace => ⟨hfinds.mpr (.inl hspace), hapart hspace⟩, ?_⟩
    rintro ⟨himport, htab⟩
    exact (hfinds.mp himport).resolve_right htab
  refine ⟨hfinds, fun o => findsImport_of_lastImportStart? h, hdirective, ?_⟩
  intro c l hl habove hle himport
  by_contra htab
  have hline := Literal.isDirectiveLine_of_at? h hl habove hle
  rw [hdirective.mpr (.inl ⟨himport, htab⟩)] at hline
  cases hline

/-- Of two imports the first one, with a tab, has a literal that is offered. -/
theorem Literal.directives_agree_tabbed :
    FindsImport [] "import\t'a.dart';".toList ∧
      isDirectiveLine "import\t'a.dart';".toList = false ∧
      Literal.at? "import\t'a.dart';\nimport 'b.dart';".toList (.caret 10) =
        some ⟨7, 15, "a.dart".toList, .singleQuoted⟩ := by
  have hline : IsLine "import\t'a.dart';\nimport 'b.dart';".toList [] "import\t'a.dart';".toList
      "\nimport 'b.dart';".toList := ⟨rfl, endsLine_nil, by decide, beginsAfterLine_cons _⟩
  have hagree := Literal.directives_agree hline
  have htab : "import\t".toList <+: trimStart "import\t'a.dart';".toList :=
    ⟨"'a.dart';".toList, rfl⟩
  exact ⟨hagree.1.mpr (.inr htab), by decide, by decide +kernel⟩

end Externalize
