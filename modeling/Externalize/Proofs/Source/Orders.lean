import Externalize.Proofs.Literal.Locality
import Externalize.Proofs.Source.Rounds

/-
Externalizing two literals in either order.

* `Text.DeclaresImport`: an import line of the text has the declaration, so that only literals are
  replaced; `Text.DeclaresImport.replaced` says that this stays so.
* `Text.exists_two_lines`: two offsets on different lines cut a text at those lines.
* `Externalizes.append`: what is externalized in a part of whole lines is what is externalized in
  that part.
* `Candidate.moved_below`, `Candidate.moved_above`: where the offsets of another line are after
  that.
* `Externalizes.comm`: the literals at two carets on different lines may be externalized in either
  order.
-/
namespace Externalize

open Text

/-- An import line of the text has the declaration. -/
def Text.DeclaresImport (t : Text) : Prop :=
  ∃ above line below, IsLine t above line below ∧ "import ".toList <+: line.trimStart ∧
    importDeclaration <:+: line

/-- The literal at a caret is externalized: the candidate there, and the text after it. -/
structure Externalizes (t : Text) (o : Nat) (c : Candidate) (t' : Text) : Prop where
  candidate : Candidate.at t (.caret o) = .ok c
  applies : (Plan.externalizing t c.literal c.key).apply t = .ok t'

namespace Candidate

/-- The text with the lookup in the place of the literal. -/
def replaced (c : Candidate) (t : Text) : Text :=
  t.splice c.literal.start c.literal.stop (lookupExpression c.key)

/-- Where an offset is once the literal is replaced: one that lies after the literal moves by the
change of length. -/
def moved (c : Candidate) (o : Nat) : Nat :=
  if c.literal.stop ≤ o then
    o + size (lookupExpression c.key) - (c.literal.stop - c.literal.start)
  else o

end Candidate

variable {t a mid b : Text} {o o' i : Nat} {c c' : Candidate}

/-! ### Texts that declare the import -/

/-- A candidate in a text that declares the import is externalized by its replacement alone. -/
lemma externalizes_replaced (h : t.DeclaresImport) (hc : Candidate.at t (.caret o) = .ok c) :
    Externalizes t o c (c.replaced t) := by
  obtain ⟨above, line, below, hline, -, hdeclaration⟩ := h
  have himport := importEdit?_of_isLine hline hdeclaration
  exact ⟨hc, (Candidate.apply_of_importEdit?_eq_none hc himport).2⟩

/-- A text that declares the import does so after a literal is replaced. -/
theorem Text.DeclaresImport.replaced (h : t.DeclaresImport)
    (hc : Candidate.at t (.caret o) = .ok c) : (c.replaced t).DeclaresImport := by
  obtain ⟨above, line, below, hline, hword, hdeclaration⟩ := h
  have hin := Candidate.at_range hc
  have hle := hin.start_lt_stop.le
  rcases hline.literal_apart hword (Candidate.at?_of_at hc) with habove | hbelow
  · exact ⟨_, line, below, hline.splice_above hle habove _, hword, hdeclaration⟩
  · obtain ⟨below', hafter⟩ := hline.splice_below hle hbelow hin.isBoundary.2.le_size
      (lookupExpression c.key)
    exact ⟨above, line, below', hafter, hword, hdeclaration⟩

/-! ### Parts of whole lines -/

/-- A literal in a part of a text is replaced there. -/
lemma Candidate.replaced_append (hc : Candidate.at mid (.caret i) = .ok c) (a b : Text) :
    (c.shift (size a)).replaced (a ++ mid ++ b) = a ++ c.replaced mid ++ b := by
  have hin := (Candidate.at_range hc)
  have hstop := hin.isBoundary.2.le_size
  simp only [replaced, shift, Literal.shift, Nat.add_comm _ (size a)]
  rw [List.append_assoc, splice_append_right,
    splice_append_left (hin.start_lt_stop.le.trans hstop) hstop, List.append_assoc]

/-- What is externalized in a part of whole lines is what is externalized in that part. -/
theorem Externalizes.append (ha : EndsLine a) (hb : BeginsAfterLine b) (hi : i ≤ size mid)
    (hc : Candidate.at mid (.caret i) = .ok c) (h : (a ++ mid ++ b).DeclaresImport) :
    Externalizes (a ++ mid ++ b) (size a + i) (c.shift (size a)) (a ++ c.replaced mid ++ b) ∧
      (a ++ c.replaced mid ++ b).DeclaresImport := by
  have hat : Candidate.at (a ++ mid ++ b) (.caret (size a + i)) = .ok (c.shift (size a)) := by
    have happend := Candidate.at_append (c := .caret i) ha hb hi hi
    rw [hc] at happend
    exact happend
  rw [← Candidate.replaced_append hc]
  exact ⟨externalizes_replaced h hat, h.replaced hat⟩

/-- The candidate at a caret in a part of whole lines is one of that part. -/
lemma exists_candidate_of_append (ha : EndsLine a) (hb : BeginsAfterLine b) (hi : i ≤ size mid)
    (hc : Candidate.at (a ++ mid ++ b) (.caret (size a + i)) = .ok c) :
    ∃ d, Candidate.at mid (.caret i) = .ok d ∧ c = d.shift (size a) := by
  have happend := Candidate.at_append (c := .caret i) ha hb hi hi
  cases hd : Candidate.at mid (.caret i) with
  | error skip =>
      rw [hd] at happend
      cases hc.symm.trans happend
  | ok d =>
      rw [hd] at happend
      exact ⟨d, rfl, Except.ok.inj (hc.symm.trans happend)⟩

/-- The change of length. -/
lemma Candidate.size_replaced (hc : Candidate.at t (.caret o) = .ok c) :
    size (c.replaced t) + (c.literal.stop - c.literal.start) =
      size t + size (lookupExpression c.key) := by
  have hin := Candidate.at_range hc
  have hlt := hin.start_lt_stop
  have hcut := congrArg size (before_append_after hin.isBoundary.2)
  have hstart : size (before t c.literal.start) = c.literal.start := hin.isBoundary.1
  have hstop : size (before t c.literal.stop) = c.literal.stop := hin.isBoundary.2
  rw [size_append, hstop] at hcut
  rw [replaced, splice, size_append, size_append, hstart]
  omega

/-- Where an offset below a line is once a literal in that line is replaced. -/
lemma Candidate.moved_below (hc : Candidate.at mid (.caret i) = .ok c) (a b : Text) (k : Nat) :
    (c.shift (size a)).moved (size (a ++ mid ++ b) + k) = size (a ++ c.replaced mid ++ b) + k := by
  have hstop := (Candidate.at_range hc).isBoundary.2.le_size
  have hlength := Candidate.size_replaced hc
  simp only [moved, shift, Literal.shift, size_append]
  rw [if_pos (by omega)]
  omega

/-- An offset above a literal stays where it is. -/
lemma Candidate.moved_above (c : Candidate) {k n : Nat} (h : k < n) : (c.shift n).moved k = k := by
  have hstop : (c.shift n).literal.stop = c.literal.stop + n := rfl
  rw [moved, if_neg (by omega)]

/-! ### Two lines -/

/-- What is between two lines: it begins and ends with a line feed, which may be the same one. -/
structure Text.Parts (m : Text) : Prop where
  head : m.head? = some '\n'
  last : m.getLast? = some '\n'

namespace Text.Parts

variable {m : Text} (h : Parts m)
include h

lemma size_pos : 0 < size m := by
  rcases Nat.eq_zero_or_pos (size m) with hzero | hpos
  · rw [eq_nil_of_size_eq_zero hzero] at h
    cases h.head
  · exact hpos

lemma beginsAfterLine (x : Text) : BeginsAfterLine (m ++ x) := by
  intro c hc
  rw [List.head?_append, h.head] at hc
  simpa [eq_comm] using hc

lemma endsLine (x : Text) : EndsLine (x ++ m) := by
  intro c hc
  rw [List.getLast?_append, h.last] at hc
  simpa [eq_comm] using hc

end Text.Parts

/-- Two offsets on different lines cut a text at those lines. -/
theorem Text.exists_two_lines (ho : o ≤ size t) (ho' : o' ≤ size t)
    (hlt : lineStart t o < lineStart t o') : ∃ above line m line' below i i',
      t = above ++ line ++ m ++ line' ++ below ∧ EndsLine above ∧ Parts m ∧
      BeginsAfterLine below ∧ i ≤ size line ∧ o = size above + i ∧ i' ≤ size line' ∧
      o' = size (above ++ line ++ m) + i' := by
  obtain ⟨above, line, rest, hline, habove, hstop⟩ := exists_isLine_of_le ho
  obtain ⟨above', line', below, hline', habove', hstop'⟩ := exists_isLine_of_le ho'
  have hstart := lineStart_le t o
  have hstart' := lineStart_le t o'
  rw [size_append] at hstop hstop'
  rcases hline.cases hline'.append hline'.above hline'.line with hover | ⟨rfl, -⟩ | hunder
  · rw [size_append] at hover
    omega
  · omega
  · have hcut : above ++ line ++ rest = above' ++ (line' ++ below) := by
      rw [← hline.append, hline'.append, List.append_assoc]
    obtain ⟨m, rfl, hm⟩ := exists_append_of_size_le hcut hunder.le
    have hne : m ≠ [] := by
      rintro rfl
      simp at hunder
    obtain ⟨x, r, rfl⟩ := List.exists_cons_of_ne_nil hne
    refine ⟨above, line, x :: r, line', below, o - size above,
      o' - size (above ++ line ++ x :: r), hline'.append, hline.above, ⟨?_, ?_⟩, hline'.below,
      by omega, by omega, by omega, by omega⟩
    · exact congrArg some (hline.below x (by rw [hm]; rfl))
    · have hlast := List.getLast?_eq_some_getLast (List.cons_ne_nil x r)
      rw [hlast]
      refine congrArg some (hline'.above _ ?_)
      rw [List.getLast?_append, hlast]
      rfl

/-! ### Either order -/

/-- The literals at two carets, the second one further down, may be externalized in either order. -/
lemma externalizes_comm_of_lt (h : t.DeclaresImport) (hlt : lineStart t o < lineStart t o')
    (hc : Candidate.at t (.caret o) = .ok c) (hc' : Candidate.at t (.caret o') = .ok c') :
    ∃ u u' v d d', Externalizes t o c u ∧ Externalizes u (c.moved o') d' v ∧
      Externalizes t o' c' u' ∧ Externalizes u' (c'.moved o) d v ∧
      (d.literal.content = c.literal.content ∧ d.key = c.key) ∧
      d'.literal.content = c'.literal.content ∧ d'.key = c'.key := by
  have ho := (Literal.at?_contains (Candidate.at?_of_at hc)).2.trans
    (Candidate.at_range hc).isBoundary.2.le_size
  have ho' := (Literal.at?_contains (Candidate.at?_of_at hc')).2.trans
    (Candidate.at_range hc').isBoundary.2.le_size
  obtain ⟨above, line, m, line', below, i, i', rfl, habove, hm, hbelow, hi, rfl, hi', rfl⟩ :=
    exists_two_lines ho ho' hlt
  have hrest : ∀ y, BeginsAfterLine (m ++ y ++ below) := by
    intro y
    rw [List.append_assoc]
    exact hm.beginsAfterLine _
  have hcut : ∀ x y, above ++ x ++ m ++ y ++ below = above ++ x ++ (m ++ y ++ below) := by
    intro x y
    simp only [List.append_assoc]
  have hends : ∀ x, EndsLine (above ++ x ++ m) := fun x => hm.endsLine _
  obtain ⟨d', hd', rfl⟩ := exists_candidate_of_append (hends line) hbelow hi' hc'
  rw [hcut] at hc h
  obtain ⟨d, hd, rfl⟩ := exists_candidate_of_append habove (hrest line') hi hc
  obtain ⟨hupper, hdeclares⟩ := Externalizes.append habove (hrest line') hi hd h
  rw [← hcut] at h hdeclares
  obtain ⟨hlower, hdeclares'⟩ := Externalizes.append (hends line) hbelow hi' hd' h
  rw [hcut] at hdeclares'
  have hthenUpper := (Externalizes.append habove (hrest _) hi hd hdeclares').1
  have hthenLower := (Externalizes.append (hends _) hbelow hi' hd' hdeclares).1
  rw [← hcut, ← hcut] at hupper hthenUpper
  have habove' : size above + i < size (above ++ line ++ m) := by
    have hgap := hm.size_pos
    simp only [size_append]
    omega
  rw [← Candidate.moved_below hd] at hthenLower
  rw [← d'.moved_above habove'] at hthenUpper
  exact ⟨_, _, _, _, _, hupper, hthenLower, hlower, hthenUpper, ⟨rfl, rfl⟩, rfl, rfl⟩

/-- **The literals at two carets on different lines may be externalized in either order**, in a text
that declares the import. Each of them is found with the same content and key as in the text itself,
and the text becomes the same. -/
theorem Externalizes.comm (t : Text) (o o' : Nat) (c c' : Candidate) (h : t.DeclaresImport)
    (hlines : t.lineStart o ≠ t.lineStart o') (hc : Candidate.at t (.caret o) = .ok c)
    (hc' : Candidate.at t (.caret o') = .ok c') :
    ∃ u u' v d d', Externalizes t o c u ∧ Externalizes u (c.moved o') d' v ∧
      Externalizes t o' c' u' ∧ Externalizes u' (c'.moved o) d v ∧
      (d.literal.content = c.literal.content ∧ d.key = c.key) ∧
      d'.literal.content = c'.literal.content ∧ d'.key = c'.key := by
  rcases Nat.lt_or_gt_of_ne hlines with hlt | hgt
  · exact externalizes_comm_of_lt h hlt hc hc'
  · obtain ⟨u', u, v, d', d, hu', hv', hu, hv, hd', hd⟩ := externalizes_comm_of_lt h hgt hc' hc
    exact ⟨u, u', v, d, d', hu, hv, hu', hv', hd, hd'⟩

/-- Two calls below an import line with a blank in front. -/
def twoCalls : Text := ' ' :: importDeclaration ++ "\nf('Hi')\r\ng(\"No\")".toList

/-- The two literals have different grammars, and the first line ends with a return. -/
theorem Externalizes.comm_twoCalls : ∃ c c', twoCalls.DeclaresImport ∧
    twoCalls.lineStart 67 ≠ twoCalls.lineStart 75 ∧
    Candidate.at twoCalls (.caret 67) = .ok c ∧ Candidate.at twoCalls (.caret 75) = .ok c' ∧
    c.key.text = "hi".toList ∧ c'.key.text = "no".toList ∧
    ∃ u u' v d d', Externalizes twoCalls 67 c u ∧ Externalizes u (c.moved 75) d' v ∧
      Externalizes twoCalls 75 c' u' ∧ Externalizes u' (c'.moved 67) d v ∧
      (d.literal.content = c.literal.content ∧ d.key = c.key) ∧
      d'.literal.content = c'.literal.content ∧ d'.key = c'.key := by
  have hline : IsLine twoCalls [] (' ' :: importDeclaration) "\nf('Hi')\r\ng(\"No\")".toList := by
    refine ⟨rfl, fun c hc => ?_, by decide, fun c hc => ?_⟩
    · cases hc
    · simpa [eq_comm] using hc
  have hdeclares : twoCalls.DeclaresImport :=
    ⟨_, _, _, hline, ⟨importDeclaration.drop 7, rfl⟩, ⟨[' '], [], rfl⟩⟩
  have hne : twoCalls.lineStart 67 ≠ twoCalls.lineStart 75 := by decide +kernel
  have hat : Candidate.at twoCalls (.caret 67) =
      .ok ⟨⟨65, 69, "Hi".toList, .singleQuoted⟩, ⟨"hi".toList, by decide⟩⟩ := by decide +kernel
  have hat' : Candidate.at twoCalls (.caret 75) =
      .ok ⟨⟨74, 78, "No".toList, .doubleQuoted⟩, ⟨"no".toList, by decide⟩⟩ := by decide +kernel
  exact ⟨_, _, hdeclares, hne, hat, hat', rfl, rfl,
    Externalizes.comm twoCalls 67 75 _ _ hdeclares hne hat hat'⟩

end Externalize
