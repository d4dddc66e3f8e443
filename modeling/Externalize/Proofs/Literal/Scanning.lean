import Externalize.Proofs.Literal.Contents

/-
The scan of a text for the literals of a grammar.

* `Grammar.scan_induction`: a text is empty, or begins with a literal, or with a character that
  begins none; `Grammar.occurrences_enclose`, `Grammar.occurrences_cons`: what the scan finds in
  either case.
* `Grammar.occurrences_append_of_notMem`, `Grammar.occurrences_append_right`: text without the
  quote, before or after a text, leaves what the scan finds in it.
* `Grammar.pairwise_occurrences`: no literal begins before the end of the one before it.
* `Literal.containing?_eq_some_iff`, `Literal.containing?_of_unique`,
  `Literal.containing?_eq_none_iff`: when a literal is found, and when none.
* `Literal.containing?_apart`: two literals of one grammar that contain ranges of one text are the
  same, or lie apart, and so do the ranges then.
* `Literal.containing?_narrow`: a range within another one finds a literal if that one does.
-/
namespace Externalize

open Text

namespace Grammar

variable {g : Grammar} {t content rest : Text} {c : Char} {r : Text}

/-! ### The scan, step by step -/

/-- The scan finds the same literals wherever it counts from. -/
lemma occurrencesFrom_eq_map (g : Grammar) (offset skip : Nat) (t : Text) :
    g.occurrencesFrom offset skip t = (g.occurrencesFrom 0 skip t).map (·.shift offset) := by
  induction t generalizing offset skip with
  | nil => cases skip <;> rfl
  | cons c r ih =>
      have hrest : ∀ skip, g.occurrencesFrom (offset + c.utf8Size) skip r =
          (g.occurrencesFrom (0 + c.utf8Size) skip r).map (·.shift offset) := by
        intro skip
        rw [ih, ih (0 + c.utf8Size), List.map_map]
        refine List.map_congr_left fun l _ => ?_
        rw [Function.comp_apply, Literal.shift_shift, Nat.zero_add, Nat.add_comm]
      cases skip with
      | succ skip => exact hrest skip
      | zero =>
          rw [occurrencesFrom, occurrencesFrom]
          split
          · rw [List.map_cons, hrest]
            simp only [Literal.shift, Nat.zero_add, Nat.add_comm offset]
          · exact hrest 0

lemma occurrencesFrom_append (g : Grammar) (offset : Nat) (a t : Text) :
    g.occurrencesFrom offset a.length (a ++ t) = g.occurrencesFrom (offset + size a) 0 t := by
  induction a generalizing offset with
  | nil => rfl
  | cons c a ih =>
      rw [List.length_cons, List.cons_append, occurrencesFrom, ih, size_cons, Nat.add_assoc]

/-- A character that begins no literal is passed over. -/
theorem occurrences_cons (h : g.match? (c :: r) = none) :
    g.occurrences (c :: r) = (g.occurrences r).map (·.shift c.utf8Size) := by
  rw [occurrences, occurrencesFrom, h, Nat.zero_add, occurrencesFrom_eq_map]
  rfl

lemma exists_enclose_eq_cons (g : Grammar) (content : Text) :
    ∃ r, g.enclose content = g.quote :: r := by
  cases g <;> exact ⟨_, rfl⟩

/-- A literal is found, and the scan goes on after it. -/
theorem occurrences_enclose (h : g.Encloses content) (rest : Text) :
    g.occurrences (g.enclose content ++ rest) =
      ⟨0, size (g.enclose content), content, g⟩ ::
        (g.occurrences rest).map (·.shift (size (g.enclose content))) := by
  have hmatch := match?_append h rest
  obtain ⟨r, hcut⟩ := exists_enclose_eq_cons g content
  rw [hcut, List.cons_append] at hmatch ⊢
  have hlength : (r ++ rest).length - rest.length = r.length := by
    rw [List.length_append, Nat.add_sub_cancel]
  have hsize : size (g.quote :: (r ++ rest)) - size rest = size (g.quote :: r) := by
    rw [← List.cons_append, size_append, Nat.add_sub_cancel]
  rw [occurrences, occurrencesFrom, hmatch]
  simp only [hlength, hsize, Nat.zero_add, occurrencesFrom_append]
  rw [occurrencesFrom_eq_map, size_cons]
  rfl

/-- A text is read as the scan reads it: from its start, by a literal or else by a character. -/
@[elab_as_elim]
theorem scan_induction {motive : Text → Prop} (g : Grammar) (nil : motive [])
    (cons : ∀ c r, g.match? (c :: r) = none → motive r → motive (c :: r))
    (enclose : ∀ content rest, g.Encloses content → motive rest →
      motive (g.enclose content ++ rest))
    (t : Text) : motive t := by
  induction hlength : t.length using Nat.strong_induction_on generalizing t with
  | _ n ih =>
      cases t with
      | nil => exact nil
      | cons c r =>
          cases hmatch : g.match? (c :: r) with
          | none => exact cons c r hmatch (ih r.length (by simp [← hlength]) r rfl)
          | some found =>
              obtain ⟨hcontent, hcut⟩ := match?_eq_some_iff.mp hmatch
              obtain ⟨x, hx⟩ := exists_enclose_eq_cons g found.1
              have hless : found.2.length < n := by
                rw [← hlength, hcut, hx, List.length_append, List.length_cons]
                omega
              rw [hcut]
              exact enclose found.1 found.2 hcontent (ih _ hless found.2 rfl)

/-! ### Texts without the quote -/

lemma exists_delimiter_eq (g : Grammar) :
    (∃ r, g.delimiter = g.quote :: r) ∧ ∃ r, g.delimiter = r ++ [g.quote] := by
  cases g
  case singleQuoted | doubleQuoted => exact ⟨⟨[], rfl⟩, [], rfl⟩
  case tripleSingleQuoted | tripleDoubleQuoted => exact ⟨⟨[_, _], rfl⟩, [_, _], rfl⟩

/-- No literal begins with another character than the quote. -/
lemma match?_eq_none_of_ne (h : c ≠ g.quote) (r : Text) : g.match? (c :: r) = none := by
  obtain ⟨d, hd⟩ := g.exists_delimiter_eq.1
  rw [match?, if_neg]
  rw [hd, List.isPrefixOf_iff_prefix, List.cons_prefix_cons]
  exact fun hprefix => h hprefix.1.symm

/-- A text without the quote is passed over. -/
lemma occurrences_append_of_notMem {a : Text} (h : g.quote ∉ a) (t : Text) :
    g.occurrences (a ++ t) = (g.occurrences t).map (·.shift (size a)) := by
  induction a with
  | nil => simp [Literal.shift]
  | cons c a ih =>
      obtain ⟨hc, ha⟩ := not_or.mp (mt List.mem_cons.mpr h)
      rw [List.cons_append, occurrences_cons (match?_eq_none_of_ne (Ne.symm hc) _), ih ha,
        List.map_map]
      refine List.map_congr_left fun l _ => ?_
      rw [Function.comp_apply, Literal.shift_shift, size_cons, Nat.add_comm]

/-- What a literal ends with has the quote. -/
lemma quote_mem_of_enclose_eq_append {a b : Text} (h : g.enclose content = a ++ b) (hb : b ≠ []) :
    g.quote ∈ b := by
  obtain ⟨r, hr⟩ := g.exists_delimiter_eq.2
  have hlast : (g.enclose content).getLast? = some g.quote := by
    rw [enclose, hr, ← List.append_assoc, List.getLast?_concat]
  rw [h, List.getLast?_append_of_ne_nil _ hb] at hlast
  exact List.mem_of_getLast? hlast

/-- Before a text without the quote the scan finds what it finds at the end of the text. -/
theorem occurrences_append_right {b : Text} (h : g.quote ∉ b) (t : Text) :
    g.occurrences (t ++ b) = g.occurrences t := by
  induction t using scan_induction g with
  | nil => simpa [occurrences, occurrencesFrom] using occurrences_append_of_notMem h []
  | cons c r hnone ih =>
      have hnone' : g.match? (c :: r ++ b) = none := by
        by_contra hsome
        obtain ⟨⟨content, rest⟩, hmatch⟩ := Option.ne_none_iff_exists'.mp hsome
        obtain ⟨hcontent, hcut⟩ := match?_eq_some_iff.mp hmatch
        -- a literal that reaches into the second part would close there
        rcases List.append_eq_append_iff.mp hcut with ⟨x, hx, rfl⟩ | ⟨x, hx, rfl⟩
        · obtain rfl : x = [] := by_contra fun hne =>
            h (List.mem_append_left rest (quote_mem_of_enclose_eq_append hx hne))
          have hcut' : c :: r = g.enclose content ++ [] := by
            rw [List.append_nil, hx, List.append_nil]
          cases hnone.symm.trans (match?_eq_some_iff.mpr ⟨hcontent, hcut'⟩)
        · cases hnone.symm.trans (match?_eq_some_iff.mpr ⟨hcontent, hx⟩)
      rw [List.cons_append] at hnone' ⊢
      rw [occurrences_cons hnone', occurrences_cons hnone, ih]
  | enclose content rest hcontent ih =>
      rw [List.append_assoc, occurrences_enclose hcontent, occurrences_enclose hcontent, ih]

/-! ### What the scan finds -/

lemma mem_occurrences {l : Literal} (h : l ∈ g.occurrences t) :
    l.grammar = g ∧ g.Encloses l.content := by
  induction t using scan_induction g generalizing l with
  | nil => cases h
  | cons c r hnone ih =>
      rw [occurrences_cons hnone] at h
      obtain ⟨l', hl', rfl⟩ := List.mem_map.mp h
      exact (ih hl' :)
  | enclose content rest hcontent ih =>
      rw [occurrences_enclose hcontent] at h
      rcases List.mem_cons.mp h with rfl | h
      · exact ⟨rfl, hcontent⟩
      · obtain ⟨l', hl', rfl⟩ := List.mem_map.mp h
        exact (ih hl' :)

lemma pairwise_map_shift {ls : List Literal} (n : Nat)
    (h : ls.Pairwise fun l l' => l.stop ≤ l'.start) :
    (ls.map (·.shift n)).Pairwise fun l l' => l.stop ≤ l'.start :=
  List.pairwise_map.mpr (h.imp fun hle => Nat.add_le_add_right hle n)

/-- No literal begins before the end of the one before it. -/
theorem pairwise_occurrences (g : Grammar) (t : Text) :
    (g.occurrences t).Pairwise fun l l' => l.stop ≤ l'.start := by
  induction t using scan_induction g with
  | nil => exact .nil
  | cons c r hnone ih =>
      rw [occurrences_cons hnone]
      exact pairwise_map_shift _ ih
  | enclose content rest hcontent ih =>
      rw [occurrences_enclose hcontent]
      refine .cons (fun l hl => ?_) (pairwise_map_shift _ ih)
      obtain ⟨l', -, rfl⟩ := List.mem_map.mp hl
      exact Nat.le_add_left _ _

/-- Where the delimiter does not occur the scan finds nothing. -/
lemma occurrences_eq_nil (h : ¬ g.delimiter <:+: t) : g.occurrences t = [] := by
  refine List.eq_nil_iff_forall_not_mem.mpr fun l hl => h ?_
  obtain ⟨a, b, ht, -, -⟩ := (occurrences_range hl).cut
  rw [(mem_occurrences hl).1] at ht
  exact ⟨a, l.content ++ g.delimiter ++ b, by simp only [ht, List.append_assoc]⟩

end Grammar

/-! ### The literals of ranges -/

namespace Literal

variable {t : Text} {start stop start' stop' : Nat} {l l' : Literal}

/-- Of literals in order two are the same, or one ends where the other begins, or before. -/
lemma eq_or_apart {ls : List Literal} (h : ls.Pairwise fun l l' => l.stop ≤ l'.start)
    (hl : l ∈ ls) (hl' : l' ∈ ls) : l = l' ∨ l.stop ≤ l'.start ∨ l'.stop ≤ l.start :=
  List.Pairwise.forall_of_forall_of_flip (R := fun l l' : Literal =>
      l = l' ∨ l.stop ≤ l'.start ∨ l'.stop ≤ l.start) (fun _ _ => .inl rfl)
    (h.imp fun hle => .inr (.inl hle)) (h.imp fun hle => .inr (.inr hle)) hl hl'

lemma contains_iff : l.contains start stop = true ↔ l.start ≤ start ∧ stop ≤ l.stop := by
  simp [contains]

lemma mem_occurrences_of_containing? (h : containing? t start stop = some l) :
    l ∈ l.grammar.occurrences t := by
  obtain ⟨g, -, hg⟩ := List.exists_of_findSome?_eq_some h
  have hl := List.mem_of_find?_eq_some hg
  rwa [(Grammar.mem_occurrences hl).1]

/-- The literal found is the first one of its grammar that contains the range, and no grammar that
is tried before has one. -/
theorem containing?_eq_some_iff : containing? t start stop = some l ↔
    (l.grammar.occurrences t).find? (·.contains start stop) = some l ∧
    ∀ g : Grammar, Grammar.priority.idxOf g < Grammar.priority.idxOf l.grammar →
      (g.occurrences t).find? (·.contains start stop) = none := by
  constructor
  · intro h
    obtain ⟨before, g, later, hpriority, hg, hnone⟩ := List.findSome?_eq_some_iff.mp h
    obtain rfl : l.grammar = g := (Grammar.mem_occurrences (List.mem_of_find?_eq_some hg)).1
    refine ⟨hg, fun g' hless => hnone g' ?_⟩
    have hnot : l.grammar ∉ before := by
      intro hmem
      rw [hnone _ hmem] at hg
      cases hg
    rw [hpriority, List.idxOf_append_of_notMem hnot, List.idxOf_cons_self, Nat.add_zero] at hless
    by_contra hmem
    rw [List.idxOf_append_of_notMem hmem] at hless
    omega
  · rintro ⟨hfound, hnone⟩
    rw [containing?, Grammar.priority]
    simp only [List.findSome?_cons]
    cases hgrammar : l.grammar with
    | singleQuoted => rw [← hgrammar, hfound]
    | doubleQuoted => rw [hnone .singleQuoted (by rw [hgrammar]; decide), ← hgrammar, hfound]
    | tripleSingleQuoted =>
        rw [hnone .singleQuoted (by rw [hgrammar]; decide),
          hnone .doubleQuoted (by rw [hgrammar]; decide), ← hgrammar, hfound]
    | tripleDoubleQuoted =>
        rw [hnone .singleQuoted (by rw [hgrammar]; decide),
          hnone .doubleQuoted (by rw [hgrammar]; decide),
          hnone .tripleSingleQuoted (by rw [hgrammar]; decide), ← hgrammar, hfound]

/-- No literal contains a range just if no grammar finds one that does. -/
lemma containing?_eq_none_iff : containing? t start stop = none ↔
    ∀ g : Grammar, ∀ l ∈ g.occurrences t, l.contains start stop = false := by
  have hall : ∀ g : Grammar, g ∈ Grammar.priority := fun g => by cases g <;> decide
  simp [containing?, List.findSome?_eq_none_iff, List.find?_eq_none, hall]

/-- If simple quotes enclose a range just once, that literal is found, whatever triple ones do. -/
lemma containing?_of_unique (hsimple : l.grammar.isTriple = false)
    (hl : l ∈ l.grammar.occurrences t) (hcontains : l.contains start stop = true)
    (honly : ∀ g : Grammar, g.isTriple = false → ∀ l' ∈ g.occurrences t,
      l'.contains start stop = true → l' = l) : containing? t start stop = some l := by
  have hfound : ∀ g : Grammar, g.isTriple = false →
      (g.occurrences t).find? (·.contains start stop) =
        if g = l.grammar then some l else none := by
    intro g hg
    split_ifs with heq
    · obtain ⟨l', hl'⟩ := Option.isSome_iff_exists.mp
        ((List.find?_isSome (p := (·.contains start stop))).mpr ⟨l, heq ▸ hl, hcontains⟩)
      have hcontains' := List.find?_some hl'
      rw [hl', honly g hg l' (List.mem_of_find?_eq_some hl') hcontains']
    · refine List.find?_eq_none.mpr fun l' hl' hcontains' => heq ?_
      rw [← honly g hg l' hl' hcontains', (Grammar.mem_occurrences hl').1]
  rw [containing?, Grammar.priority, List.findSome?_cons, List.findSome?_cons,
    hfound .singleQuoted rfl, hfound .doubleQuoted rfl]
  cases hgrammar : l.grammar with
  | singleQuoted => rfl
  | doubleQuoted => rfl
  | tripleSingleQuoted | tripleDoubleQuoted => simp [hgrammar, Grammar.isTriple] at hsimple

/-- **The literals of one grammar that two ranges of a text lie in are the same or apart**, and if
they are apart, one range ends where the other begins, or before. -/
theorem containing?_apart (h : containing? t start stop = some l)
    (h' : containing? t start' stop' = some l') (hgrammar : l.grammar = l'.grammar) :
    l = l' ∨ (l.stop ≤ l'.start ∧ stop ≤ start') ∨ (l'.stop ≤ l.start ∧ stop' ≤ start) := by
  have hl := mem_occurrences_of_containing? h
  have hl' := mem_occurrences_of_containing? h'
  rw [← hgrammar] at hl'
  obtain ⟨hstart, hstop⟩ := contains_iff.mp (containing?_range h).2
  obtain ⟨hstart', hstop'⟩ := contains_iff.mp (containing?_range h').2
  rcases eq_or_apart (Grammar.pairwise_occurrences _ t) hl hl' with heq | hle | hle
  · exact .inl heq
  · exact .inr (.inl ⟨hle, by omega⟩)
  · exact .inr (.inr ⟨hle, by omega⟩)

/-- Two literals touch, the first with an escaped quote: a caret in it and a selection in the
other. -/
theorem containing?_apart_touching :
    containing? "f('a\\'b''c', 'd)".toList 5 5 = some ⟨2, 8, "a\\'b".toList, .singleQuoted⟩ ∧
    containing? "f('a\\'b''c', 'd)".toList 9 10 = some ⟨8, 11, "c".toList, .singleQuoted⟩ ∧
    ((⟨2, 8, "a\\'b".toList, .singleQuoted⟩ : Literal) = ⟨8, 11, "c".toList, .singleQuoted⟩ ∨
      (8 ≤ 8 ∧ 5 ≤ 9) ∨ (11 ≤ 2 ∧ 10 ≤ 5)) := by
  have h : containing? "f('a\\'b''c', 'd)".toList 5 5 =
      some ⟨2, 8, "a\\'b".toList, .singleQuoted⟩ := by decide +kernel
  have h' : containing? "f('a\\'b''c', 'd)".toList 9 10 =
      some ⟨8, 11, "c".toList, .singleQuoted⟩ := by decide +kernel
  exact ⟨h, h', containing?_apart h h' rfl⟩

/-! ### Ranges within ranges -/

/-- Of the literals of one grammar that contain a range, the one that is found ends before the
others begin. -/
lemma eq_or_stop_le_of_find? {g : Grammar}
    (hfound : (g.occurrences t).find? (·.contains start stop) = some l)
    (hl' : l' ∈ g.occurrences t) (hcontains : l'.contains start stop = true) :
    l = l' ∨ l.stop ≤ l'.start := by
  obtain ⟨-, before, later, hcut, hnone⟩ := List.find?_eq_some_iff_append.mp hfound
  have hpairwise := Grammar.pairwise_occurrences g t
  rw [hcut] at hl' hpairwise
  rcases List.mem_append.mp hl' with hbefore | hafter
  · have hnot := hnone l' hbefore
    rw [hcontains] at hnot
    cases hnot
  · rcases List.mem_cons.mp hafter with heq | hlater
    · exact .inl heq.symm
    · exact .inr (List.rel_of_pairwise_cons (List.pairwise_append.mp hpairwise).2.1 hlater)

/-- If a grammar has a literal around the range, one is found, of that grammar or of one tried
before it. -/
lemma exists_containing?_of_mem {g : Grammar} (hl : l ∈ g.occurrences t)
    (hcontains : l.contains start stop = true) :
    ∃ l', containing? t start stop = some l' ∧
      Grammar.priority.idxOf l'.grammar ≤ Grammar.priority.idxOf g := by
  cases hfound : containing? t start stop with
  | none =>
      rw [containing?_eq_none_iff.mp hfound g l hl] at hcontains
      cases hcontains
  | some l' =>
      refine ⟨l', rfl, Nat.le_of_not_lt fun hless => ?_⟩
      have hnone := (containing?_eq_some_iff.mp hfound).2 g hless
      exact List.find?_eq_none.mp hnone l hl hcontains

/-- **A range within another one finds a literal if that one does**, of a grammar that is tried no
later. If the grammar is the same, so is the literal, unless the range is empty and lies where
another literal touches that one from before. -/
theorem containing?_narrow (h : containing? t start stop = some l) (hstart : start ≤ start')
    (hle : start' ≤ stop') (hstop : stop' ≤ stop) :
    ∃ l', containing? t start' stop' = some l' ∧
      Grammar.priority.idxOf l'.grammar ≤ Grammar.priority.idxOf l.grammar ∧
      (l'.grammar = l.grammar →
        l' = l ∨ (start' = l.start ∧ stop' = l.start ∧ l'.stop = l.start)) := by
  have hl := mem_occurrences_of_containing? h
  obtain ⟨hbegin, hend⟩ := contains_iff.mp (containing?_range h).2
  have hcontains : l.contains start' stop' = true :=
    contains_iff.mpr ⟨hbegin.trans hstart, hstop.trans hend⟩
  obtain ⟨l', hfound, hpriority⟩ := exists_containing?_of_mem hl hcontains
  refine ⟨l', hfound, hpriority, fun hgrammar => ?_⟩
  have hfirst := (containing?_eq_some_iff.mp hfound).1
  rw [hgrammar] at hfirst
  -- the range lies in both literals, so it is empty if they are not the same
  refine (eq_or_stop_le_of_find? hfirst hl hcontains).imp_right fun htouch => ?_
  have hend' := (contains_iff.mp (containing?_range hfound).2).2
  omega

/-- A selection in the second of two literals that touch finds that one; where it begins a caret
finds the first. -/
theorem containing?_narrow_touching :
    containing? "f('a''b')".toList 5 8 = some ⟨5, 8, ['b'], .singleQuoted⟩ ∧
    containing? "f('a''b')".toList 5 5 = some ⟨2, 5, ['a'], .singleQuoted⟩ ∧
    ∃ l', containing? "f('a''b')".toList 5 5 = some l' ∧
      Grammar.priority.idxOf l'.grammar ≤ Grammar.priority.idxOf Grammar.singleQuoted ∧
      (l'.grammar = Grammar.singleQuoted →
        l' = ⟨5, 8, ['b'], .singleQuoted⟩ ∨ (5 = 5 ∧ 5 = 5 ∧ l'.stop = 5)) := by
  have h : containing? "f('a''b')".toList 5 8 = some ⟨5, 8, ['b'], .singleQuoted⟩ := by
    decide +kernel
  have h' : containing? "f('a''b')".toList 5 5 = some ⟨2, 5, ['a'], .singleQuoted⟩ := by
    decide +kernel
  exact ⟨h, h', containing?_narrow h le_rfl le_rfl (by decide)⟩

end Literal

end Externalize
