import Externalize.Proofs.Literal.Scanning

/-
Lines of code and literals.

* `Piece`: code without quotes and backslashes, or a literal of a simple quote without the other
  one.
* `Piece.line`, `Piece.literals`: the line that pieces make, and the literals in it.
* `Piece.occurrences_line`: the scan for a simple quote finds the literals of that quote;
  `Piece.not_triple_infix_line`: unless literals touch, no three quotes are there for the scan for a
  triple.
* `Literal.containing?_line`: an offset inside a literal of a line finds that literal, and one away
  from all literals finds none unless literals touch.
-/
namespace Externalize

open Text

/-- The quote of the other kind. -/
def Grammar.otherQuote : Grammar → Char
  | singleQuoted | tripleSingleQuoted => '"'
  | doubleQuoted | tripleDoubleQuoted => '\''

/-- A piece of a line: code without quotes and backslashes, or a literal in simple quotes without
the other quote. -/
inductive Piece where
  | code (text : Text) (plain : ∀ c ∈ text, c ≠ '\'' ∧ c ≠ '"' ∧ c ≠ '\\')
  | literal (g : Grammar) (body : Text) (simple : g.isTriple = false) (encloses : g.Encloses body)
      (other : g.otherQuote ∉ body)

namespace Piece

/-- The text of a piece. -/
def text : Piece → Text
  | code t _ => t
  | literal g body _ _ _ => g.enclose body

/-- The line that the pieces make, one after the other. -/
def line (ps : List Piece) : Text := ps.flatMap text

/-- The literals among the pieces, each where it is in the line. -/
def literals : List Piece → List Literal
  | [] => []
  | code t _ :: ps => (literals ps).map (·.shift (size t))
  | literal g body _ _ _ :: ps =>
    ⟨0, size (g.enclose body), body, g⟩ :: (literals ps).map (·.shift (size (g.enclose body)))

/-- No literal ends where another one begins. -/
def Apart (ls : List Literal) : Prop := ∀ l ∈ ls, ∀ l' ∈ ls, l.stop ≠ l'.start

instance (ls : List Literal) : Decidable (Apart ls) :=
  inferInstanceAs (Decidable (∀ l ∈ ls, ∀ l' ∈ ls, l.stop ≠ l'.start))

end Piece

namespace Grammar

variable {g g' : Grammar} {body : Text}

lemma quote_eq_otherQuote (h : g'.quote ≠ g.quote) : g.quote = g'.otherQuote := by
  cases g <;> cases g' <;> first | rfl | exact absurd rfl h

/-- A simple grammar is known by its quote. -/
lemma eq_of_quote_eq (hg : g.isTriple = false) (hg' : g'.isTriple = false)
    (h : g'.quote = g.quote) : g' = g := by
  cases g <;> cases g' <;> simp_all [isTriple, quote]

lemma eq_quote_of_mem_delimiter {c : Char} (h : c ∈ g.delimiter) : c = g.quote := by
  rw [delimiter] at h
  split_ifs at h <;> simpa using h

/-- A literal in one quote, without the other one in its body, does not have the other one at
all. -/
lemma quote_notMem_enclose (h : g'.quote ≠ g.quote) (hother : g'.otherQuote ∉ body) :
    g.quote ∉ g'.enclose body := by
  have hdelimiter : g.quote ∉ g'.delimiter := fun hmem => h (eq_quote_of_mem_delimiter hmem).symm
  rw [← quote_eq_otherQuote h] at hother
  rw [enclose, List.mem_append, List.mem_append]
  exact fun hmem => hmem.elim (fun hmem => hmem.elim hdelimiter hother) hdelimiter

end Grammar

namespace Piece

variable {g : Grammar} {ps : List Piece}

lemma line_cons (p : Piece) (ps : List Piece) : line (p :: ps) = p.text ++ line ps := rfl

lemma quote_notMem_code {t : Text} (plain : ∀ c ∈ t, c ≠ '\'' ∧ c ≠ '"' ∧ c ≠ '\\') (g : Grammar) :
    g.quote ∉ t := by
  intro hmem
  obtain ⟨hsingle, hdouble, -⟩ := plain _ hmem
  cases g <;> first | exact hsingle rfl | exact hdouble rfl

/-! ### What the scan for a simple quote finds -/

lemma filter_map_shift (ls : List Literal) (n : Nat) :
    (ls.map (·.shift n)).filter (·.grammar = g) =
      (ls.filter (·.grammar = g)).map (·.shift n) := List.filter_map

/-- The scan for a simple quote finds the literals of that quote, where they are. -/
theorem occurrences_line (hg : g.isTriple = false) (ps : List Piece) :
    g.occurrences (line ps) = (literals ps).filter (·.grammar = g) := by
  induction ps with
  | nil => rfl
  | cons p ps ih =>
      rw [line_cons]
      cases p with
      | code t plain =>
          rw [text, Grammar.occurrences_append_of_notMem (quote_notMem_code plain g), ih, literals,
            filter_map_shift]
      | literal g' body simple encloses other =>
          rw [text, literals]
          by_cases heq : g' = g
          · subst heq
            rw [Grammar.occurrences_enclose encloses, ih, List.filter_cons, filter_map_shift,
              if_pos (decide_eq_true rfl)]
          · rw [Grammar.occurrences_append_of_notMem
                (Grammar.quote_notMem_enclose (mt (Grammar.eq_of_quote_eq hg simple) heq) other),
              ih, List.filter_cons_of_neg (by simpa using heq), filter_map_shift]

lemma isTriple_of_mem_literals {l : Literal} (h : l ∈ literals ps) :
    l.grammar.isTriple = false := by
  induction ps generalizing l with
  | nil => cases h
  | cons p ps ih =>
      have hlater : ∀ n, l ∈ (literals ps).map (·.shift n) → l.grammar.isTriple = false := by
        intro n hl
        obtain ⟨l', hl', rfl⟩ := List.mem_map.mp hl
        exact (ih hl' :)
      cases p with
      | code t plain => exact hlater _ h
      | literal g body simple encloses other =>
          rcases List.mem_cons.mp h with rfl | h
          · exact simple
          · exact hlater _ h

/-- No literal of a line begins before the end of the one before it, whatever their quotes. -/
lemma pairwise_literals (ps : List Piece) :
    (literals ps).Pairwise fun l l' => l.stop ≤ l'.start := by
  induction ps with
  | nil => exact .nil
  | cons p ps ih =>
      cases p with
      | code t plain => exact Grammar.pairwise_map_shift _ ih
      | literal g body simple encloses other =>
          refine .cons (fun l hl => ?_) (Grammar.pairwise_map_shift _ ih)
          obtain ⟨l', -, rfl⟩ := List.mem_map.mp hl
          exact Nat.le_add_left _ _

/-! ### Three quotes in a row -/

/-- The text does not begin with two of the quotes, and has no three of them in a row. -/
structure Sparse (q : Char) (t : Text) : Prop where
  start : ¬ [q, q] <+: t
  rest : ¬ [q, q, q] <:+: t

namespace Sparse

variable {q c : Char} {a t : Text}

/-- A character before such a text makes no three quotes. -/
lemma not_infix_cons (h : Sparse q t) (c : Char) : ¬ [q, q, q] <:+: c :: t := fun hinfix =>
  (List.infix_cons_iff.mp hinfix).elim
    (fun hprefix => h.start (List.cons_prefix_cons.mp hprefix).2) h.rest

lemma cons_of_ne (hc : c ≠ q) (h : ¬ [q, q, q] <:+: t) : Sparse q (c :: t) where
  start hprefix := hc (List.cons_prefix_cons.mp hprefix).1.symm
  rest hinfix := (List.infix_cons_iff.mp hinfix).elim
    (fun hprefix => hc (List.cons_prefix_cons.mp hprefix).1.symm) h

/-- A single quote before a text that does not begin with another one. -/
lemma cons_quote (hhead : t.head? ≠ some q) (h : ¬ [q, q, q] <:+: t) : Sparse q (q :: t) := by
  have hstart : ∀ r, ¬ q :: r <+: t := by
    rintro r ⟨x, rfl⟩
    exact hhead rfl
  have hsparse : Sparse q t := ⟨hstart [q], h⟩
  exact ⟨fun hprefix => hstart [] (List.cons_prefix_cons.mp hprefix).2, hsparse.not_infix_cons q⟩

/-- What a simple quote encloses, before a single quote. -/
lemma isBody_append {body : Text} (hbody : Grammar.IsBody q body) (hq : q ≠ '\\') (h : Sparse q t) :
    Sparse q (body ++ t) := by
  -- a run of quotes is broken by a backslash, by another character, or by the end of the body
  induction hbody with
  | nil => exact h
  | pair hfeed _ ih => exact cons_of_ne hq.symm (ih.not_infix_cons _)
  | plain hquote hescape _ ih => exact cons_of_ne hquote ih.rest

/-- Text without the quote adds no three quotes. -/
lemma not_infix_append (ha : q ∉ a) (h : ¬ [q, q, q] <:+: t) : ¬ [q, q, q] <:+: a ++ t := by
  induction a with
  | nil => exact h
  | cons c a ih =>
      obtain ⟨hc, ha⟩ := not_or.mp (mt List.mem_cons.mpr ha)
      exact (cons_of_ne (Ne.symm hc) (ih ha)).rest

end Sparse

/-- Where a line begins with a quote it begins with a literal. -/
lemma exists_literal_of_head (h : (line ps).head? = some g.quote) :
    ∃ l ∈ literals ps, l.start = 0 := by
  induction ps with
  | nil => cases h
  | cons p ps ih =>
      rw [line_cons] at h
      cases p with
      | code t plain =>
          cases t with
          | nil =>
              obtain ⟨l, hl, hstart⟩ := ih h
              exact ⟨l.shift 0, List.mem_map_of_mem hl, hstart⟩
          | cons c t =>
              obtain rfl : c = g.quote := Option.some_injective _ h
              exact absurd List.mem_cons_self (quote_notMem_code plain g)
      | literal g' body simple encloses other => exact ⟨_, List.mem_cons_self, rfl⟩

lemma Apart.of_map_shift {ls : List Literal} {n : Nat} (h : Apart (ls.map (·.shift n))) :
    Apart ls :=
  fun _ hl _ hl' heq => h _ (List.mem_map_of_mem hl) _ (List.mem_map_of_mem hl')
    (congrArg (· + n) heq)

/-- A line whose literals do not touch has no three quotes in a row. -/
lemma not_triple_infix_line (g : Grammar) (h : Apart (literals ps)) :
    ¬ [g.quote, g.quote, g.quote] <:+: line ps := by
  induction ps with
  | nil => exact fun hinfix => by cases List.eq_nil_of_infix_nil hinfix
  | cons p ps ih =>
      rw [line_cons]
      cases p with
      | code t plain =>
          exact Sparse.not_infix_append (quote_notMem_code plain g) (ih h.of_map_shift)
      | literal g' body simple encloses other =>
          have hrest := ih (Apart.of_map_shift fun _ hl _ hl' =>
            h _ (List.mem_cons_of_mem _ hl) _ (List.mem_cons_of_mem _ hl'))
          by_cases hquote : g'.quote = g.quote
          · have hhead : (line ps).head? ≠ some g.quote := by
              intro hhead
              obtain ⟨l, hl, hstart⟩ := exists_literal_of_head hhead
              refine h _ List.mem_cons_self _ (List.mem_cons_of_mem _ (List.mem_map_of_mem hl)) ?_
              simp only [Literal.shift, hstart, Nat.zero_add]
            have hbody : Grammar.IsBody g.quote body := by
              simpa [Grammar.Encloses, simple, hquote] using encloses
            have hsparse := Sparse.isBody_append hbody g.quote_ne_backslash
              (Sparse.cons_quote hhead hrest)
            have htext : text (literal g' body simple encloses other) ++ line ps =
                g.quote :: (body ++ g.quote :: line ps) := by
              rw [text, Grammar.enclose, Grammar.delimiter_of_simple simple, hquote]
              simp
            rw [htext]
            exact hsparse.not_infix_cons _
          · exact Sparse.not_infix_append (Grammar.quote_notMem_enclose hquote other) hrest

/-- A call with a literal in either quote: one with an escaped quote at its end, and an empty
one. -/
def call : List Piece :=
  [.code ['f', '('] (by simp), .literal .singleQuoted "it\\'".toList rfl (by decide) (by decide),
    .code [',', ' '] (by simp), .literal .doubleQuoted [] rfl (by decide) (by decide),
    .code [')'] (by simp)]

end Piece

/-! ### What is found in a line -/

namespace Literal

/-- **In a line of code and literals an offset inside a literal finds that literal**, and an offset
that is neither in a literal nor at an end of one finds none, unless two literals touch. -/
theorem containing?_line (ps : List Piece) (o : Nat) :
    (∀ l ∈ Piece.literals ps, l.start < o → o < l.stop →
      containing? (Piece.line ps) o o = some l) ∧
    (Piece.Apart (Piece.literals ps) →
      (∀ l ∈ Piece.literals ps, o < l.start ∨ l.stop < o) →
      containing? (Piece.line ps) o o = none) := by
  constructor
  · intro l hl hstart hstop
    have hsimple := Piece.isTriple_of_mem_literals hl
    refine containing?_of_unique hsimple ?_ (contains_iff.mpr ⟨hstart.le, hstop.le⟩) ?_
    · rw [Piece.occurrences_line hsimple]
      exact List.mem_filter.mpr ⟨hl, decide_eq_true rfl⟩
    · intro g hg l' hl' hcontains
      rw [Piece.occurrences_line hg] at hl'
      obtain ⟨hstart', hstop'⟩ := contains_iff.mp hcontains
      rcases eq_or_apart (Piece.pairwise_literals ps) (List.mem_of_mem_filter hl') hl with
        heq | hle | hle
      · exact heq
      · omega
      · omega
  · intro hapart haway
    refine containing?_eq_none_iff.mpr fun g l hl => ?_
    cases hg : g.isTriple with
    | false =>
        rw [Piece.occurrences_line hg] at hl
        rw [Bool.eq_false_iff, Ne, contains_iff]
        have hl' := haway l (List.mem_of_mem_filter hl)
        omega
    | true =>
        rw [Grammar.occurrences_eq_nil] at hl
        · cases hl
        · rw [Grammar.delimiter_of_triple hg]
          exact Piece.not_triple_infix_line g hapart

/-- An offset between the escaped quote and the one that closes finds the first literal of the call;
one after the comma finds none. -/
theorem containing?_line_call :
    Piece.line Piece.call = "f('it\\'', \"\")".toList ∧
    containing? (Piece.line Piece.call) 7 7 =
      some ⟨2, 8, "it\\'".toList, .singleQuoted⟩ ∧
    Piece.Apart (Piece.literals Piece.call) ∧ containing? (Piece.line Piece.call) 9 9 = none := by
  have hapart : Piece.Apart (Piece.literals Piece.call) := by decide
  refine ⟨by decide, ?_, hapart, ?_⟩
  · exact (containing?_line Piece.call 7).1 ⟨2, 8, "it\\'".toList, .singleQuoted⟩ (by decide)
      (by decide) (by decide)
  · exact (containing?_line Piece.call 9).2 hapart (by decide)

end Literal

end Externalize
