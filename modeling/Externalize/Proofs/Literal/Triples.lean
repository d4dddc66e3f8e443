import Externalize.Proofs.Literal.Pointing

/-
Three quotes in a row.

* `Grammar.occurrences_two_quotes`: the scan for a simple quote takes the first two of them for an
  empty literal.
* `Literal.containing?_enclose_triple`, `Literal.at?_triple`: a selection of a whole literal in
  triple quotes finds it, whatever else is quoted in it.
* `Literal.containing?_tripled`: an offset in a text between triple quotes finds what the inner two
  of them enclose.
-/
namespace Externalize

open Text

/-- A text without line feeds, quotes and backslashes. -/
def Text.IsPlain (t : Text) : Prop := ∀ c ∈ t, c ≠ '\n' ∧ c ≠ '\'' ∧ c ≠ '"' ∧ c ≠ '\\'

namespace Grammar

variable {g g' : Grammar} {t : Text}

lemma utf8Size_quote (g : Grammar) : g.quote.utf8Size = 1 := by cases g <;> rfl

lemma quote_notMem (hsingle : '\'' ∉ t) (hdouble : '"' ∉ t) (g : Grammar) : g.quote ∉ t := by
  cases g
  case singleQuoted | tripleSingleQuoted => exact hsingle
  case doubleQuoted | tripleDoubleQuoted => exact hdouble

/-- A simple grammar that is tried before another simple one has another quote. -/
lemma quote_ne_of_idxOf_lt (hg : g.isTriple = false)
    (h : priority.idxOf g' < priority.idxOf g) : g'.quote ≠ g.quote := by
  revert hg h
  cases g <;> cases g' <;> decide

/-- Another grammar with the quote of a triple one is the simple one. -/
lemma isTriple_of_ne (hg : g.isTriple = true) (hne : g' ≠ g) (hquote : g'.quote = g.quote) :
    g'.isTriple = false := by
  revert hg hne hquote
  cases g <;> cases g' <;> decide

end Grammar

namespace Text.IsPlain

variable {t : Text}

lemma quote_notMem (h : t.IsPlain) (g : Grammar) : g.quote ∉ t :=
  Grammar.quote_notMem (fun hmem => (h _ hmem).2.1 rfl) (fun hmem => (h _ hmem).2.2.1 rfl) g

/-- Simple quotes enclose such a text. -/
lemma encloses {g : Grammar} (h : t.IsPlain) (hg : g.isTriple = false) : g.Encloses t := by
  rw [Grammar.Encloses, hg, if_neg Bool.false_ne_true]
  induction t with
  | nil => exact .nil
  | cons c t ih =>
      have hescape : c ≠ '\\' := (h c List.mem_cons_self).2.2.2
      have hquote : c ≠ g.quote := fun heq => h.quote_notMem g (heq ▸ List.mem_cons_self)
      exact .plain hquote hescape (ih fun d hd => h d (List.mem_cons_of_mem _ hd))

end Text.IsPlain

/-! ### What the scan finds -/

namespace Grammar

variable {g g' : Grammar} {part rest : Text} {stop : Nat}

lemma occurrences_eq_nil_of_notMem (h : g.quote ∉ part) : g.occurrences part = [] := by
  simpa [occurrences, occurrencesFrom] using occurrences_append_of_notMem h []

/-- What the scan finds after a part without the quote begins there. -/
lemma size_le_start (h : g.quote ∉ part) {l : Literal} (hl : l ∈ g.occurrences (part ++ rest)) :
    size part ≤ l.start := by
  rw [occurrences_append_of_notMem h] at hl
  obtain ⟨l', -, rfl⟩ := List.mem_map.mp hl
  exact Nat.le_add_left _ _

/-- The first two quotes are an empty literal in simple quotes, and the scan goes on after them. -/
theorem occurrences_two_quotes (hg : g.isTriple = false) (hpart : g.quote ∉ part) (rest : Text) :
    g.occurrences (part ++ g.quote :: g.quote :: rest) =
      ⟨size part, size part + 2, [], g⟩ ::
        (g.occurrences rest).map (·.shift (size part + 2)) := by
  have hempty : g.Encloses [] := by
    rw [Encloses, hg, if_neg Bool.false_ne_true]
    exact .nil
  have henclose : g.enclose [] = [g.quote, g.quote] := by
    rw [enclose, delimiter_of_simple hg]
    rfl
  have hsize : size [g.quote, g.quote] = 2 := by
    simp only [size_cons, size_nil, utf8Size_quote]
  have hscan := occurrences_enclose hempty rest
  rw [henclose, hsize] at hscan
  simp only [List.cons_append, List.nil_append] at hscan
  rw [occurrences_append_of_notMem hpart, hscan, List.map_cons, List.map_map]
  simp only [Literal.shift, Nat.zero_add, Nat.add_comm 2, Function.comp_def, Nat.add_assoc]

/-- No other grammar encloses what begins with three quotes and goes on after them: a literal in
simple quotes is over at the second one. -/
lemma find?_occurrences_of_ne (hg : g.isTriple = true) (hpart : ∀ g : Grammar, g.quote ∉ part)
    (hne : g' ≠ g) (hstop : size part + 2 < stop) (rest : Text) :
    (g'.occurrences (part ++ g.delimiter ++ rest)).find? (·.contains (size part) stop) = none := by
  refine List.find?_eq_none.mpr fun l hl hcontains => ?_
  obtain ⟨hstart, hend⟩ := Literal.contains_iff.mp hcontains
  rw [delimiter_of_triple hg] at hl
  by_cases hquote : g'.quote = g.quote
  · have hcut : part ++ [g.quote, g.quote, g.quote] ++ rest =
        part ++ g'.quote :: g'.quote :: (g'.quote :: rest) := by
      rw [hquote, List.append_assoc]
      rfl
    rw [hcut, occurrences_two_quotes (isTriple_of_ne hg hne hquote) (hpart g')] at hl
    rcases List.mem_cons.mp hl with rfl | hl
    · exact absurd hend (Nat.not_le.mpr hstop)
    · obtain ⟨l', -, rfl⟩ := List.mem_map.mp hl
      simp only [Literal.shift] at hstart
      omega
  · have hnot : g'.quote ∉ part ++ [g.quote, g.quote, g.quote] := by
      rw [List.mem_append, not_or]
      exact ⟨hpart g', by simpa using hquote⟩
    have hle := size_le_start hnot hl
    rw [size_append, size_cons, utf8Size_quote] at hle
    omega

end Grammar

/-! ### A whole literal -/

namespace Cursor

variable {above part : Text}

/-- A selection begins in the line of what is before it, and ends in the line of what is after
it. -/
lemma lines_selection (habove : EndsLine above) (hpart : '\n' ∉ part) (mid rest : Text) :
    (selection (size (above ++ part)) (size (above ++ part ++ mid))).lines
      (above ++ part ++ mid ++ rest) =
      (size above, size (above ++ (part ++ mid ++ dropReturn (firstLine rest)))) := by
  have hstart : lineStart (above ++ part ++ mid ++ rest) (size (above ++ part)) = size above := by
    rw [List.append_assoc (above ++ part)]
    exact lineStart_size_append habove hpart _
  simp only [lines, start, stop, hstart, lineEnd_size_append]
  rw [Nat.max_eq_left (by simp only [size_append]; omega)]
  simp only [List.append_assoc]

/-- The text of these lines. -/
lemma slice_lines_selection (habove : EndsLine above) (hpart : '\n' ∉ part) (mid rest : Text) :
    slice (above ++ part ++ mid ++ rest)
      ((selection (size (above ++ part)) (size (above ++ part ++ mid))).lines
        (above ++ part ++ mid ++ rest)).1
      ((selection (size (above ++ part)) (size (above ++ part ++ mid))).lines
        (above ++ part ++ mid ++ rest)).2 =
      part ++ mid ++ dropReturn (firstLine rest) := by
  obtain ⟨below, hbelow⟩ := firstLine_prefix rest
  have hcut : above ++ part ++ mid ++ rest =
      above ++ ((part ++ mid ++ dropReturn (firstLine rest)) ++ below) := by
    conv_lhs => rw [hbelow]
    simp only [List.append_assoc]
  rw [lines_selection habove hpart, hcut, slice_append]

end Cursor

namespace Literal

variable {g : Grammar} {above part content c s : Text} {o : Nat}

/-- The range of a literal in triple quotes finds it, if no quote is before it. -/
theorem containing?_enclose_triple (hg : g.isTriple = true) (hcontent : g.Encloses content)
    (hpart : ∀ g : Grammar, g.quote ∉ part) (rest : Text) :
    containing? (part ++ g.enclose content ++ rest) (size part) (size (part ++ g.enclose content)) =
      some ⟨size part, size (part ++ g.enclose content), content, g⟩ := by
  refine containing?_eq_some_iff.mpr ⟨?_, fun g' hless => ?_⟩
  · rw [List.append_assoc, Grammar.occurrences_append_of_notMem (hpart g),
      Grammar.occurrences_enclose hcontent, List.map_cons, List.find?_cons_of_pos]
    · simp only [shift, Nat.zero_add, size_append, Nat.add_comm]
    · simp only [shift, contains_iff, size_append]
      omega
  · have hcut : part ++ g.enclose content ++ rest =
        part ++ g.delimiter ++ (content ++ g.delimiter ++ rest) := by
      simp only [Grammar.enclose, List.append_assoc]
    have hne : g' ≠ g := by
      rintro rfl
      exact absurd hless (Nat.lt_irrefl _)
    rw [hcut]
    refine Grammar.find?_occurrences_of_ne hg hpart hne ?_ _
    simp only [Grammar.enclose, Grammar.delimiter_of_triple hg, size_append, size_cons, size_nil,
      Grammar.utf8Size_quote]
    omega

/-- **A selection of a whole literal in triple quotes finds it**, whatever is quoted in it and
however many lines it has, if no quote is before it on its first line and that is not the line of a
directive. -/
theorem at?_triple (hg : g.isTriple = true) (hcontent : Grammar.ComesFirstAfter content g.delimiter)
    (habove : EndsLine above) (hpart : ∀ d ∈ part, d ≠ '\n' ∧ d ≠ '\'' ∧ d ≠ '"')
    (hwords : ∀ word ∈ ["import ", "export ", "part "], ¬ word.toList <+: part.trimStart)
    (rest : Text) :
    at? (above ++ part ++ g.enclose content ++ rest)
      (.selection (size (above ++ part)) (size (above ++ part ++ g.enclose content))) =
      some ⟨size (above ++ part), size (above ++ part ++ g.enclose content), content, g⟩ := by
  have hencloses : g.Encloses content := by rwa [Grammar.Encloses, if_pos hg]
  have hfeed : '\n' ∉ part := fun hmem => (hpart _ hmem).1 rfl
  have hquote : ∀ g : Grammar, g.quote ∉ part :=
    Grammar.quote_notMem (fun hmem => (hpart _ hmem).2.1 rfl) fun hmem => (hpart _ hmem).2.2 rfl
  have hfound := containing?_enclose_triple hg hencloses hquote (dropReturn (firstLine rest))
  refine at?_eq_some_iff.mpr
    ⟨⟨size part, size (part ++ g.enclose content), content, g⟩, ?_, ?_, ?_⟩
  · rw [Cursor.slice_lines_selection habove hfeed, Cursor.lines_selection habove hfeed, ← hfound]
    simp only [Cursor.start, Cursor.stop, size_append, Nat.add_assoc, Nat.add_sub_cancel_left]
  · rw [Cursor.lines_selection habove hfeed]
    simp only [shift, size_append, Nat.add_comm, Nat.add_assoc]
  · obtain ⟨r, hr⟩ := g.exists_enclose_eq_cons content
    rw [hr, List.append_assoc (above ++ part), List.cons_append,
      isDirectiveLine_lineAt_quote habove hfeed, Bool.eq_false_iff, Ne, isDirectiveLine_iff]
    rintro ⟨word, hword, hprefix⟩
    exact hwords word hword hprefix

/-- What a literal over two lines encloses: both quotes, and a backslash before the delimiter. -/
def mixedContent : Text := "'it\n\"\"\"\\".toList

/-- The literal is an argument of what is spelled like a word of a directive, between other
literals. -/
theorem at?_triple_mixedContent :
    Grammar.ComesFirstAfter mixedContent (Grammar.delimiter .tripleSingleQuoted) ∧
    EndsLine "f('a');\r\n".toList ∧
    (∀ d ∈ " import(".toList, d ≠ '\n' ∧ d ≠ '\'' ∧ d ≠ '"') ∧
    (∀ word ∈ ["import ", "export ", "part "], ¬ word.toList <+: trimStart " import(".toList) ∧
    at? ("f('a');\r\n".toList ++ " import(".toList ++
      Grammar.enclose .tripleSingleQuoted mixedContent ++
        ", 'b');\n'c'".toList) (.selection 17 31) =
      some ⟨17, 31, mixedContent, .tripleSingleQuoted⟩ := by
  have hencloses : Grammar.Encloses .tripleSingleQuoted mixedContent := by decide +kernel
  have hcontent : Grammar.ComesFirstAfter mixedContent (Grammar.delimiter .tripleSingleQuoted) :=
    hencloses
  have habove : EndsLine "f('a');\r\n".toList := endsLine_concat "f('a');\r".toList
  have hpart : ∀ d ∈ " import(".toList, d ≠ '\n' ∧ d ≠ '\'' ∧ d ≠ '"' := by simp
  have hwords : ∀ word ∈ ["import ", "export ", "part "],
      ¬ word.toList <+: trimStart " import(".toList := by decide
  have hat := at?_triple rfl hcontent habove hpart hwords ", 'b');\n'c'".toList
  have hstart : size ("f('a');\r\n".toList ++ " import(".toList) = 17 := by decide
  have hstop : size ("f('a');\r\n".toList ++ " import(".toList ++
      Grammar.enclose .tripleSingleQuoted mixedContent) = 31 := by decide
  rw [hstart, hstop] at hat
  exact ⟨hcontent, habove, hpart, hwords, hat⟩

/-! ### The inner two of three quotes -/

/-- **An offset in a text between triple quotes finds the text between the inner two of them**, in
simple quotes: the outer two on each side are empty literals. -/
theorem containing?_tripled (hg : g.isTriple = false) (hpart : part.IsPlain) (hc : c.IsPlain)
    (hs : s.IsPlain) (hstart : size (part ++ [g.quote, g.quote, g.quote]) ≤ o)
    (hstop : o ≤ size (part ++ [g.quote, g.quote, g.quote] ++ c)) :
    containing? (part ++ [g.quote, g.quote, g.quote] ++ c ++ [g.quote, g.quote, g.quote] ++ s) o o =
      some ⟨size (part ++ [g.quote, g.quote]),
        size (part ++ [g.quote, g.quote] ++ ([g.quote] ++ c ++ [g.quote])), c, g⟩ := by
  have henclose : g.enclose c = [g.quote] ++ c ++ [g.quote] := by
    rw [Grammar.enclose, Grammar.delimiter_of_simple hg]
  refine containing?_eq_some_iff.mpr ⟨?_, fun g' hless => ?_⟩
  · have hcut : part ++ [g.quote, g.quote, g.quote] ++ c ++ [g.quote, g.quote, g.quote] ++ s =
        part ++ g.quote :: g.quote :: (g.enclose c ++ g.quote :: g.quote :: s) := by
      rw [henclose]
      simp only [List.append_assoc, List.cons_append, List.nil_append]
    rw [hcut, Grammar.occurrences_two_quotes hg (hpart.quote_notMem g),
      Grammar.occurrences_enclose (hc.encloses hg), List.map_cons, henclose]
    simp only [size_append, size_cons, size_nil, Grammar.utf8Size_quote] at hstart hstop ⊢
    -- the empty literal ends before the third quote, and the next one reaches to the fourth
    rw [List.find?_cons_of_neg, List.find?_cons_of_pos]
    · simp only [shift, Option.some.injEq, mk.injEq, and_true]
      omega
    · simp only [shift, contains_iff]
      omega
    · simp only [contains_iff]
      omega
  · have hne := Grammar.quote_ne_of_idxOf_lt hg hless
    rw [Grammar.occurrences_eq_nil_of_notMem, List.find?_nil]
    simp [hpart.quote_notMem g', hc.quote_notMem g', hs.quote_notMem g', hne]

/-- An offset inside the only character between the quotes. -/
theorem containing?_tripled_character :
    IsPlain ['f', '('] ∧ IsPlain ['é'] ∧ IsPlain [')'] ∧
    containing? "f(\"\"\"é\"\"\")".toList 6 6 = some ⟨4, 8, ['é'], .doubleQuoted⟩ := by
  have hpart : IsPlain ['f', '('] := by simp [IsPlain]
  have hc : IsPlain ['é'] := by simp [IsPlain]
  have hs : IsPlain [')'] := by simp [IsPlain]
  have hfound := containing?_tripled (g := .doubleQuoted) (o := 6) rfl hpart hc hs (by decide)
    (by decide)
  exact ⟨hpart, hc, hs, hfound⟩

end Literal

end Externalize
