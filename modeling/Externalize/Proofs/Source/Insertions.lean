import Externalize.Proofs.Source.Directives
import Externalize.Proofs.Source.Imports

/-
The text that an import is inserted in.

* `Text.eq_or_infix_of_append`: a word with its last character only at its end overlaps no other
  place where it stands.
* `Text.TakesImport`: a text cut where the declaration goes, with the terminator that goes beside
  it.
* `Text.DeclaresLast`: the declaration begins a line of the text, is its last import directive, and
  stands nowhere else in it.
* `Plan.declaresLast_of_importEdit?`: so it is where the import is inserted.
-/
namespace Externalize

open Text

namespace Text

/-! ### Where a word stands -/

section Words

variable {word init a b p q x : Text} {c : Char}

/-- A word that ends with the first place of a character in it begins no earlier within itself. -/
lemma eq_nil_or_append_of_overlap {s : Text} (hc : c ∉ init)
    (h : init ++ c :: b = s ++ (init ++ c :: q)) : s = [] ∨ ∃ r, s = init ++ c :: r := by
  rcases List.append_eq_append_iff.mp h with ⟨r, rfl, hr⟩ | ⟨r, rfl, hr⟩
  · cases r with
    | nil =>
        left
        cases init with
        | nil => rfl
        | cons d init =>
            obtain rfl : c = d := (List.cons.inj hr).1
            simp at hc
    | cons d r =>
        obtain rfl : c = d := (List.cons.inj hr).1
        exact .inr ⟨r, rfl⟩
  · -- it would begin within the word, and end at the first place of the character there
    left
    rcases append_cons_cases hc hr with ⟨heq, -⟩ | ⟨mid, heq, -⟩
    · exact List.append_left_eq_self.mp heq.symm
    · refine absurd ?_ hc
      rw [heq]
      simp

/-- Of two places where such a word stands one is above the other, or they are the same. -/
theorem eq_or_infix_of_append (hc : c ∉ init)
    (h : a ++ (init ++ c :: b) = p ++ (init ++ c :: q)) :
    p = a ∨ init ++ [c] <:+: a ∨ init ++ [c] <:+: b := by
  rcases List.append_eq_append_iff.mp h with ⟨s, rfl, hs⟩ | ⟨s, rfl, hs⟩
  · rcases eq_nil_or_append_of_overlap hc hs with rfl | ⟨r, rfl⟩
    · exact .inl (List.append_nil a)
    · rw [List.append_assoc, List.append_cancel_left_eq, List.cons_append] at hs
      refine .inr (.inr ⟨r, q, ?_⟩)
      rw [(List.cons.inj hs).2]
      simp only [List.append_assoc, List.singleton_append]
  · rcases eq_nil_or_append_of_overlap hc hs with rfl | ⟨r, rfl⟩
    · exact .inl (List.append_nil p).symm
    · refine .inr (.inl ⟨p, r, ?_⟩)
      simp only [List.append_assoc, List.singleton_append]

/-- A word stands before characters that it does not have. -/
lemma infix_of_infix_append_left (hne : word ≠ []) (hx : ∀ c ∈ x, c ∉ word)
    (h : word <:+: a ++ x) : word <:+: a := by
  induction x using List.reverseRecOn with
  | nil => rwa [List.append_nil] at h
  | append_singleton x c ih =>
      rw [← List.append_assoc, List.infix_concat_iff, List.suffix_concat_iff] at h
      rcases h with (hnil | ⟨r, rfl, -⟩) | h
      · exact absurd hnil hne
      · exact absurd List.mem_concat_self (hx c List.mem_concat_self)
      · exact ih (fun d hd => hx d (List.mem_append_left _ hd)) h

/-- It stands after such characters, too. -/
lemma infix_of_infix_append_right (hne : word ≠ []) (hx : ∀ c ∈ x, c ∉ word)
    (h : word <:+: x ++ b) : word <:+: b := by
  induction x with
  | nil => exact h
  | cons c x ih =>
      rw [List.cons_append, List.infix_cons_iff] at h
      rcases h with h | h
      · obtain ⟨d, r, rfl⟩ := List.exists_cons_of_ne_nil hne
        obtain ⟨rfl, -⟩ := List.cons_prefix_cons.mp h
        exact absurd List.mem_cons_self (hx d List.mem_cons_self)
      · exact ih (fun d hd => hx d (List.mem_cons_of_mem c hd)) h

end Words

/-! ### Where the declaration goes -/

variable {t a pre post b above below d r : Text} {e : Edit}

/-- The declaration has one semicolon, at its end. -/
lemma exists_importDeclaration_eq : ∃ init, importDeclaration = init ++ [';'] ∧ ';' ∉ init :=
  ⟨importDeclaration.dropLast, by decide, by decide⟩

lemma exists_terminator_eq (t : Text) : ∃ z, t.terminator = z ++ ['\n'] ∧ '\n' ∉ z := by
  rw [terminator]
  split_ifs
  · exact ⟨['\r'], rfl, by decide⟩
  · exact ⟨[], rfl, List.not_mem_nil⟩

lemma notMem_importDeclaration_of_mem_terminator {c : Char} (hc : c ∈ t.terminator) :
    c ∉ importDeclaration := by
  have hreturn : '\r' ∉ importDeclaration := by decide
  rw [terminator] at hc
  split_ifs at hc
  · rcases List.mem_pair.mp hc with rfl | rfl
    · exact hreturn
    · exact newline_notMem_importDeclaration
  · obtain rfl := List.mem_singleton.mp hc
    exact newline_notMem_importDeclaration

/-- A text is cut where the declaration goes, and has its terminator on one side of it: it begins a
line then, has no directive in the lines below it, and does not part a return from its line feed. -/
structure TakesImport (t a pre post b : Text) : Prop where
  append : t = a ++ b
  breaks : pre = t.terminator ∧ post = [] ∨ pre = [] ∧ post = t.terminator
  endsLine : EndsLine (a ++ pre)
  below : ∀ x y, post ++ b = x ++ '\n' :: y → fromLastImport? y = none
  apart : a.getLast? = some '\r' → b.head? ≠ some '\n'

/-- The line of a directive ends before its return. -/
lemma head?_ne_of_dropReturn (hne : dropReturn (firstLine d) ≠ [])
    (hd : d = dropReturn (firstLine d) ++ r)
    (hlast : (a ++ dropReturn (firstLine d)).getLast? = some '\r') : r.head? ≠ some '\n' := by
  intro hhead
  obtain ⟨r, rfl⟩ := List.head?_eq_some_iff.mp hhead
  rw [List.getLast?_append_of_ne_nil _ hne] at hlast
  have hfeed : '\n' ∉ dropReturn (firstLine d) := fun hmem =>
    notMem_takeWhile d (dropReturn_subset _ hmem)
  -- before a line feed the line ends where it is cut, so that no return was taken off
  have hline : firstLine d = dropReturn (firstLine d) :=
    calc firstLine d = firstLine (dropReturn (firstLine d) ++ '\n' :: r) := congrArg firstLine hd
      _ = dropReturn (firstLine d) := by
        rw [firstLine_append _ (beginsAfterLine_cons r), firstLine_of_notMem hfeed]
  rw [← hline] at hlast
  rw [dropReturn, if_pos hlast] at hline
  have hcut : firstLine d ++ ['\r'] = firstLine d := by
    conv_rhs => rw [← List.dropLast_append_getLast? _ hlast, ← hline]
  simp at hcut

/-- The line of a directive has more than a return. -/
lemma dropReturn_firstLine_ne_nil (hd : isImportLine d = true) : dropReturn (firstLine d) ≠ [] := by
  obtain ⟨z, rfl⟩ : ∃ z, d = 'i' :: z := by
    rcases isImportLine_iff.mp hd with ⟨z, rfl⟩ | ⟨z, rfl⟩ <;> exact ⟨_, rfl⟩
  have hline : firstLine ('i' :: z) = 'i' :: firstLine z := rfl
  rw [hline, dropReturn]
  split_ifs with hlast
  · cases hrest : firstLine z with
    | nil =>
        rw [hrest] at hlast
        cases hlast
    | cons c rest => exact List.cons_ne_nil _ _
  · exact List.cons_ne_nil _ _

/-- The declaration goes after the semicolon of the last directive. -/
lemma takesImport_of_semicolon {init : Text}
    (h : fromLastImport? (a ++ (init ++ ';' :: r)) = some (init ++ ';' :: r)) :
    TakesImport (a ++ (init ++ ';' :: r)) (a ++ init ++ [';'])
      (terminator (a ++ (init ++ ';' :: r))) [] r where
  append := by simp
  breaks := .inl ⟨rfl, rfl⟩
  endsLine := endsLine_terminator _ _
  below := by
    rintro x y rfl
    refine fromLastImport?_below (a := init ++ ';' :: x) (h.trans ?_)
    rw [List.append_assoc, List.cons_append]
  apart hlast := by
    rw [List.getLast?_concat] at hlast
    cases hlast

/-- The declaration goes to the end of the line of the last directive, if that has no semicolon. -/
lemma takesImport_of_line (h : fromLastImport? (a ++ d) = some d)
    (hd : d = dropReturn (firstLine d) ++ r) :
    TakesImport (a ++ d) (a ++ dropReturn (firstLine d)) (terminator (a ++ d)) [] r where
  append := by rw [List.append_assoc, ← hd]
  breaks := .inl ⟨rfl, rfl⟩
  endsLine := endsLine_terminator _ _
  below := by
    rintro x y rfl
    refine fromLastImport?_below (a := dropReturn (firstLine d) ++ x) (h.trans ?_)
    rw [List.append_assoc]
    exact congrArg some hd
  apart := head?_ne_of_dropReturn
    (dropReturn_firstLine_ne_nil (isImportLine_of_fromLastImport? h)) hd

/-- The declaration goes to the top of a text without directives. -/
lemma takesImport_of_none (h : fromLastImport? t = none) : TakesImport t [] [] t.terminator t where
  append := rfl
  breaks := .inr ⟨rfl, rfl⟩
  endsLine := endsLine_nil
  below x y hfeed := by
    obtain ⟨z, hz, hnot⟩ := exists_terminator_eq t
    rw [hz, List.append_assoc, List.singleton_append] at hfeed
    rcases append_cons_cases hnot hfeed with ⟨-, rfl⟩ | ⟨mid, -, rfl⟩
    · exact h
    · exact fromLastImport?_eq_none_of_append h
  apart hlast := nomatch hlast

/-- An insertion of the import goes where the text takes it. -/
theorem takesImport_of_importEdit? (h : importEdit? t = some e) : ∃ a pre post b,
    TakesImport t a pre post b ∧ e = ⟨size a, size a, pre ++ importDeclaration ++ post⟩ := by
  rw [importEdit?] at h
  split_ifs at h
  split at h
  · next o ho =>
      cases h
      obtain ⟨a, d, rfl, hd, -, ⟨init, r, rfl, -, rfl⟩ | ⟨-, rfl⟩⟩ := lastImport_cases ho
      · refine ⟨_, _, [], r, takesImport_of_semicolon hd, ?_⟩
        rw [List.append_nil, size_append, size_append]
        rfl
      · obtain ⟨r, hr⟩ := firstLine_prefix d
        refine ⟨_, _, [], r, takesImport_of_line hd hr, ?_⟩
        rw [List.append_nil, size_append]
  · next ho =>
      cases h
      exact ⟨[], [], _, t, takesImport_of_none (Option.map_eq_none_iff.mp ho), rfl⟩

/-- What begins with the declaration, with no directive in the lines below it, is its own last
directive. -/
lemma fromLastImport?_declaration {rest : Text}
    (hrest : ∀ x y, rest = x ++ '\n' :: y → fromLastImport? y = none) :
    fromLastImport? (importDeclaration ++ rest) = some (importDeclaration ++ rest) := by
  have hfirst : ∀ {line : Text}, '\n' ∉ line → '\n' ∉ importDeclaration ++ line :=
    List.not_mem_append newline_notMem_importDeclaration
  have himport : ∀ line, isImportLine (trimStart (importDeclaration ++ line)) = true := fun _ => rfl
  by_cases hfeed : '\n' ∈ rest
  · obtain ⟨line, below, rfl, hline⟩ := List.eq_append_cons_of_mem hfeed
    rw [← List.append_assoc, fromLastImport?_line_append (hfirst hline), hrest line below rfl,
      Option.none_or, if_pos (himport line)]
    rfl
  · rw [fromLastImport?_of_notMem (hfirst hfeed), if_pos (himport rest)]
    rfl

/-- The declaration begins a line of the text, is its last import directive, and stands nowhere else
in it. -/
structure DeclaresLast (t above below : Text) : Prop where
  append : t = above ++ importDeclaration ++ below
  endsLine : EndsLine above
  start : t.lastImportStart? = some (size above)
  stop : t.lastImportEnd? = some (size (above ++ importDeclaration))
  unique : ∀ a b, t = a ++ importDeclaration ++ b → a = above

/-- The last directive that is the declaration ends with it. -/
lemma lastImport_of_declaration {rest : Text}
    (h : fromLastImport? (above ++ importDeclaration ++ rest) = some (importDeclaration ++ rest)) :
    lastImportStart? (above ++ importDeclaration ++ rest) = some (size above) ∧
      lastImportEnd? (above ++ importDeclaration ++ rest) =
        some (size (above ++ importDeclaration)) := by
  have hstart : size (above ++ importDeclaration ++ rest) - size (importDeclaration ++ rest) =
      size above := by
    simp only [size_append]
    omega
  obtain ⟨init, hdeclaration, hinit⟩ := exists_importDeclaration_eq
  have hmem : ';' ∈ importDeclaration ++ rest := by
    rw [hdeclaration]
    simp
  have hline : size ((importDeclaration ++ rest).takeWhile (· != ';')) + 1 =
      size importDeclaration := by
    rw [hdeclaration, List.append_assoc, List.singleton_append, takeWhile_append_cons hinit,
      size_append]
    rfl
  rw [lastImportStart?, lastImportEnd?, h, Option.map_some, Option.map_some, hstart]
  refine ⟨rfl, ?_⟩
  rw [if_pos hmem, Nat.add_assoc, hline, size_append above]

/-- Where a text without the declaration takes it, it stands nowhere else. -/
lemma TakesImport.unique {p q : Text} (h : TakesImport t a pre post b)
    (hnone : ¬ importDeclaration <:+: t)
    (hcut : a ++ pre ++ importDeclaration ++ (post ++ b) = p ++ importDeclaration ++ q) :
    p = a ++ pre := by
  have hbreaks : (∀ c ∈ pre, c ∉ importDeclaration) ∧ ∀ c ∈ post, c ∉ importDeclaration := by
    rcases h.breaks with ⟨rfl, rfl⟩ | ⟨rfl, rfl⟩
    · exact ⟨fun _ => notMem_importDeclaration_of_mem_terminator, fun _ hc => nomatch hc⟩
    · exact ⟨fun _ hc => (nomatch hc), fun _ => notMem_importDeclaration_of_mem_terminator⟩
  have hne : importDeclaration ≠ [] := by decide
  obtain ⟨init, hdeclaration, hinit⟩ := exists_importDeclaration_eq
  have hplaces : a ++ pre ++ (init ++ ';' :: (post ++ b)) = p ++ (init ++ ';' :: q) := by
    rw [hdeclaration] at hcut
    simpa only [List.append_assoc, List.singleton_append] using hcut
  -- elsewhere the declaration would stand in the text before, as no terminator has a part of it
  rcases eq_or_infix_of_append hinit hplaces with heq | habove | hbelow
  · exact heq
  · rw [← hdeclaration] at habove
    have ha := infix_of_infix_append_left hne hbreaks.1 habove
    exact absurd (h.append ▸ ha.trans (List.prefix_append a b).isInfix) hnone
  · rw [← hdeclaration] at hbelow
    have hb := infix_of_infix_append_right hne hbreaks.2 hbelow
    exact absurd (h.append ▸ hb.trans (List.suffix_append a b).isInfix) hnone

/-- Where a text without the declaration takes it, it is the last import directive. -/
theorem TakesImport.declaresLast (h : TakesImport t a pre post b)
    (hnone : ¬ importDeclaration <:+: t) :
    DeclaresLast (a ++ pre ++ importDeclaration ++ (post ++ b)) (a ++ pre) (post ++ b) := by
  have hlast : fromLastImport? (a ++ pre ++ importDeclaration ++ (post ++ b)) =
      some (importDeclaration ++ (post ++ b)) := by
    rw [List.append_assoc, fromLastImport?_append h.endsLine, fromLastImport?_declaration h.below,
      Option.some_or]
  obtain ⟨hstart, hstop⟩ := lastImport_of_declaration hlast
  exact ⟨rfl, h.endsLine, hstart, hstop, fun _ _ => h.unique hnone⟩

end Text

variable {t : Text} {e : Edit}

/-- **The import is inserted as the last one**: the edit fits the text, and in the text that it
makes the declaration begins a line, is the last import directive, and stands nowhere else. No
other import is inserted then, and without the inserted text the text is as it was. -/
theorem Plan.declaresLast_of_importEdit? (h : importEdit? t = some e) : ∃ t' above below,
    Plan.apply ⟨[e]⟩ t = .ok t' ∧ t'.DeclaresLast above below ∧ importEdit? t' = none ∧
      t'.splice e.start (e.start + size e.text) [] = t := by
  have hnone : ¬ importDeclaration <:+: t := by
    rw [← contains_iff, ← importEdit?_eq_none_iff, h]
    exact Option.some_ne_none e
  obtain ⟨a, pre, post, b, htakes, rfl⟩ := takesImport_of_importEdit? h
  have hboundary := isBoundary_of_importEdit? h
  have hlast := htakes.declaresLast hnone
  refine ⟨_, _, _, ?_, hlast, ?_, ?_⟩
  · rw [Plan.apply_single_eq (Plan.rangeError?_eq_none le_rfl hboundary hboundary), htakes.append,
      splice_size_append]
    simp only [List.append_assoc]
  · exact importEdit?_eq_none_iff.mpr (contains_iff.mpr ⟨_, _, rfl⟩)
  · have hback := splice_mid a (pre ++ importDeclaration ++ post) b []
    rw [List.append_nil, ← htakes.append, size_append] at hback
    simpa only [List.append_assoc] using hback

/-- After an indented directive of two lines, with returns, that has code and a comment behind
it. -/
theorem Plan.declaresLast_of_importEdit?_showing : ∃ t' above below,
    Plan.apply ⟨[⟨32, 32, "\r\n".toList ++ importDeclaration⟩]⟩
      "\timport 'a.dart'\r\n    show A, B; // import b;\r\nf();".toList = .ok t' ∧
      t'.DeclaresLast above below := by
  have himport : importEdit? "\timport 'a.dart'\r\n    show A, B; // import b;\r\nf();".toList =
      some ⟨32, 32, "\r\n".toList ++ importDeclaration⟩ := by decide +kernel
  obtain ⟨t', above, below, happly, hlast, -, -⟩ := Plan.declaresLast_of_importEdit? himport
  exact ⟨t', above, below, happly, hlast⟩

end Externalize
