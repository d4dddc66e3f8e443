import Externalize.Proofs.Literal.Ranges

/-
What the grammars enclose.

* `Grammar.IsBody`: what a simple quote encloses; `Grammar.ComesFirstAfter`: what a triple one does.
* `Grammar.match?_eq_some_iff`: a grammar reads a literal at the start of a text just if the text
  begins with its delimiter, something that the delimiter encloses, and the delimiter again.
-/
namespace Externalize.Grammar

/-- What a simple quote encloses: pairs of a backslash and a character other than a line feed, and
characters other than the quote and the backslash. -/
inductive IsBody (q : Char) : Text → Prop
  | nil : IsBody q []
  | pair {c : Char} {r : Text} (hfeed : c ≠ '\n') (h : IsBody q r) : IsBody q ('\\' :: c :: r)
  | plain {c : Char} {r : Text} (hquote : c ≠ q) (hescape : c ≠ '\\') (h : IsBody q r) :
      IsBody q (c :: r)

/-- The delimiter comes first right after the content: nowhere in the two does it begin earlier. -/
def ComesFirstAfter (content delimiter : Text) : Prop :=
  ∀ a b, content ++ delimiter = a ++ delimiter ++ b → content.length ≤ a.length

/-- What the delimiters of a grammar may enclose. -/
def Encloses (g : Grammar) (content : Text) : Prop :=
  if g.isTriple then ComesFirstAfter content g.delimiter else IsBody g.quote content

/-- A content between the delimiters of the grammar. -/
def enclose (g : Grammar) (content : Text) : Text := g.delimiter ++ content ++ g.delimiter

variable {g : Grammar} {q : Char} {t content rest : Text}

lemma quote_ne_backslash (g : Grammar) : g.quote ≠ '\\' := by cases g <;> decide

lemma delimiter_of_simple (h : g.isTriple = false) : g.delimiter = [g.quote] := by
  rw [delimiter, h]
  rfl

lemma delimiter_of_triple (h : g.isTriple = true) : g.delimiter = [g.quote, g.quote, g.quote] := by
  rw [delimiter, if_pos h]

/-! ### Simple quotes -/

lemma isBody_of_close? (h : close? q t = some (content, rest)) : IsBody q content := by
  fun_induction close? q t generalizing content rest with
  | case1 => cases h
  | case2 r =>
      cases h
      exact .nil
  | case3 => cases h
  | case4 => cases h
  | case5 d r hfeed _ ih =>
      obtain ⟨⟨body, rest'⟩, hclose, heq⟩ := Option.map_eq_some_iff.mp h
      cases heq
      exact .pair hfeed (ih hclose)
  | case6 c r hquote hescape ih =>
      obtain ⟨⟨body, rest'⟩, hclose, heq⟩ := Option.map_eq_some_iff.mp h
      cases heq
      exact .plain hquote hescape (ih hclose)

lemma IsBody.close?_append (h : IsBody q content) (hq : q ≠ '\\') (rest : Text) :
    close? q (content ++ q :: rest) = some (content, rest) := by
  induction h with
  | nil =>
      unfold close?
      exact if_pos rfl
  | pair hfeed _ ih => simp [close?, hq.symm, hfeed, ih]
  | plain hquote hescape _ ih =>
      rw [List.cons_append, close?.eq_def]
      simp only [if_neg hquote, if_neg hescape, ih, Option.map_some]

/-! ### Triple quotes -/

lemma ComesFirstAfter.tail {c : Char} {r d : Text} (h : ComesFirstAfter (c :: r) d) :
    ComesFirstAfter r d := by
  intro a b hcut
  have hle := h (c :: a) b (congrArg (c :: ·) hcut)
  exact Nat.le_of_succ_le_succ hle

lemma comesFirstAfter_of_closeTriple? (h : closeTriple? q t = some (content, rest)) :
    ComesFirstAfter content [q, q, q] := by
  fun_induction closeTriple? q t generalizing content rest with
  | case1 a b c r hquotes =>
      cases h
      exact fun _ _ _ => Nat.zero_le _
  | case2 a b c r hnot ih =>
      obtain ⟨⟨body, after⟩, hclose, heq⟩ := Option.map_eq_some_iff.mp h
      obtain ⟨rfl, rfl⟩ := Prod.mk.inj heq
      intro x y hcut
      cases x with
      | cons d x => exact Nat.succ_le_succ (ih hclose x y (List.cons.inj hcut).2)
      | nil =>
          -- three quotes at the start would have been the end
          obtain ⟨rfl, hbody⟩ : a = q ∧ body ++ [q, q, q] = q :: q :: y := List.cons.inj hcut
          have htext : b :: c :: r = a :: a :: (y ++ after) := by
            calc b :: c :: r = body ++ [a, a, a] ++ after := by
                  rw [append_of_closeTriple? hclose, List.append_assoc]
                  rfl
              _ = a :: a :: (y ++ after) := by rw [hbody, List.cons_append, List.cons_append]
          obtain ⟨rfl, hrest⟩ := List.cons.inj htext
          obtain ⟨rfl, -⟩ := List.cons.inj hrest
          exact absurd ⟨rfl, rfl, rfl⟩ hnot
  | case3 => cases h

lemma ComesFirstAfter.closeTriple?_append (h : ComesFirstAfter content [q, q, q]) (rest : Text) :
    closeTriple? q (content ++ q :: q :: q :: rest) = some (content, rest) := by
  induction content with
  | nil => simp [closeTriple?]
  | cons a content ih =>
      obtain ⟨b, c, r, hcut⟩ : ∃ b c r, content ++ [q, q, q] = b :: c :: r := by
        rcases content with - | ⟨b, - | ⟨c, content⟩⟩ <;> exact ⟨_, _, _, rfl⟩
      have htext : content ++ q :: q :: q :: rest = b :: c :: (r ++ rest) := by
        rw [← List.cons_append, ← List.cons_append, ← hcut, List.append_assoc]
        rfl
      have hnot : ¬(a = q ∧ b = q ∧ c = q) := by
        rintro ⟨rfl, rfl, rfl⟩
        have hle := h [] r (by rw [List.cons_append, hcut]; rfl)
        exact absurd hle (Nat.not_succ_le_zero _)
      have hclose := ih h.tail
      rw [htext] at hclose
      rw [List.cons_append, htext, closeTriple?, if_neg hnot, hclose]
      rfl

/-! ### All grammars -/

lemma match?_append (h : g.Encloses content) (rest : Text) :
    g.match? (g.enclose content ++ rest) = some (content, rest) := by
  have htext : g.enclose content ++ rest = g.delimiter ++ (content ++ (g.delimiter ++ rest)) := by
    rw [enclose]
    simp only [List.append_assoc]
  rw [match?, htext, if_pos (List.isPrefixOf_iff_prefix.mpr (List.prefix_append _ _)),
    List.drop_left]
  rw [Encloses] at h
  cases htriple : g.isTriple
  · rw [htriple, if_neg Bool.false_ne_true] at h
    rw [if_neg Bool.false_ne_true, delimiter_of_simple htriple]
    exact h.close?_append g.quote_ne_backslash rest
  · rw [htriple, if_pos rfl, delimiter_of_triple htriple] at h
    rw [if_pos rfl, delimiter_of_triple htriple]
    exact h.closeTriple?_append rest

lemma encloses_of_match? (h : g.match? t = some (content, rest)) : g.Encloses content := by
  rw [match?] at h
  rw [Encloses]
  cases htriple : g.isTriple
  · simp only [htriple, Bool.false_eq_true, if_false] at h ⊢
    split_ifs at h with hopen
    exact isBody_of_close? h
  · simp only [htriple, if_true, delimiter_of_triple] at h ⊢
    split_ifs at h with hopen
    exact comesFirstAfter_of_closeTriple? h

/-- **A grammar reads a literal at the start of a text just if one is there.** -/
theorem match?_eq_some_iff :
    g.match? t = some (content, rest) ↔ g.Encloses content ∧ t = g.enclose content ++ rest := by
  constructor
  · exact fun h => ⟨encloses_of_match? h, append_of_match? h⟩
  · rintro ⟨hcontent, rfl⟩
    exact match?_append hcontent rest

/-- Whether a content is closed by the delimiter after it, and by nothing in it, can be read off. -/
instance (g : Grammar) (content : Text) : Decidable (g.Encloses content) :=
  decidable_of_iff (g.match? (g.enclose content) = some (content, [])) <| by
    rw [match?_eq_some_iff, List.append_nil]
    exact and_iff_left rfl

end Externalize.Grammar

namespace Externalize

open Text

/-- A literal of a text is what its delimiters enclose, between two other parts. -/
lemma Literal.IsIn.exists_append {l : Literal} {t : Text} (h : l.IsIn t) : ∃ a b,
    t = a ++ l.grammar.enclose l.content ++ b ∧ l.start = size a ∧
      l.stop = size (a ++ l.grammar.enclose l.content) := by
  obtain ⟨a, b, ht, hstart, hstop⟩ := h.cut
  refine ⟨a, b, ?_, hstart, ?_⟩
  · rw [ht, ← List.append_assoc]
    rfl
  · rw [hstop, size_append a]
    rfl

end Externalize
