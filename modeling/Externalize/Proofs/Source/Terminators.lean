import Externalize.Proofs.Source.Insertions

/-
The line terminators of a text from which a literal was taken.

* `Text.AllReturned`: every line feed of the text comes after a return.
* `Text.AllReturned.right`: so it is in the end of such a text, unless that is cut off after a
  return.
* `Candidate.allReturned_of_apply`: an extraction leaves such a text as one.
-/
namespace Externalize

open Text

namespace Text

variable {t a b : Text}

/-! ### Line feeds after returns -/

/-- Every line feed of the text comes after a return. -/
def AllReturned (t : Text) : Prop := ∀ a b, t = a ++ '\n' :: b → a.getLast? = some '\r'

/-- Whether returns come before all line feeds can be read off. -/
instance (t : Text) : Decidable t.AllReturned :=
  decidable_of_iff
    (∀ n < t.length, t[n]? = some '\n' → (t.take n).getLast? = some '\r') <| by
    constructor
    · rintro h a b rfl
      simpa using h a.length (by simp) (by simp)
    · intro h n hn hfeed
      obtain ⟨_, hget⟩ := List.getElem?_eq_some_iff.mp hfeed
      refine h _ (t.drop (n + 1)) ?_
      rw [← hget, List.getElem_cons_drop, List.take_append_drop]

lemma allReturned_of_notMem (h : '\n' ∉ t) : AllReturned t := by
  rintro a b rfl
  simp at h

namespace AllReturned

theorem append (ha : AllReturned a) (hb : AllReturned b) : AllReturned (a ++ b) := by
  intro x y hcut
  rcases List.append_eq_append_iff.mp hcut with ⟨s, rfl, hs⟩ | ⟨s, rfl, hs⟩
  · rw [List.getLast?_append, hb s y hs]
    rfl
  · cases s with
    | nil =>
        have hstart := hb [] y hs.symm
        cases hstart
    | cons c s =>
        obtain rfl : '\n' = c := (List.cons.inj hs).1
        exact ha x s rfl

lemma left (h : AllReturned (a ++ b)) : AllReturned a := by
  rintro x y rfl
  exact h x (y ++ b) (by rw [List.append_assoc, List.cons_append])

/-- The end of a text is not cut off between a return and its line feed. -/
lemma right (h : AllReturned (a ++ b)) (hcut : a.getLast? = some '\r' → b.head? ≠ some '\n') :
    AllReturned b := by
  rintro x y rfl
  have hlast := h (a ++ x) y (List.append_assoc _ _ _).symm
  cases x with
  | nil =>
      rw [List.append_nil] at hlast
      exact absurd rfl (hcut hlast)
  | cons c x => rwa [List.getLast?_append_of_ne_nil _ (List.cons_ne_nil c x)] at hlast

/-- The terminator of such a text has a return. -/
lemma terminator_eq (h : AllReturned t) (hfeed : '\n' ∈ t) : t.terminator = ['\r', '\n'] := by
  obtain ⟨line, rest, rfl, hline⟩ := List.eq_append_cons_of_mem hfeed
  have hlast : (firstLine (line ++ '\n' :: rest)).getLast? = some '\r' := by
    rw [firstLine_append _ (beginsAfterLine_cons rest), firstLine_of_notMem hline]
    exact h line rest rfl
  rw [terminator, if_pos ⟨hfeed, hlast⟩]

end AllReturned

lemma allReturned_crlf : AllReturned ['\r', '\n'] := by decide

/-- The text of an import has the terminator of the text, and no other line feed. -/
lemma TakesImport.allReturned {pre post : Text} (h : TakesImport t a pre post b)
    (ht : AllReturned t) (hfeed : '\n' ∈ t) : AllReturned (pre ++ importDeclaration ++ post) := by
  have hdeclaration : AllReturned importDeclaration :=
    allReturned_of_notMem newline_notMem_importDeclaration
  rcases h.breaks with ⟨rfl, rfl⟩ | ⟨rfl, rfl⟩
  · rw [List.append_nil, ht.terminator_eq hfeed]
    exact allReturned_crlf.append hdeclaration
  · rw [List.nil_append, ht.terminator_eq hfeed]
    exact hdeclaration.append allReturned_crlf

end Text

/-! ### An extraction -/

/-- A literal ends with a quote. -/
lemma Grammar.getLast?_enclose (g : Grammar) (content : Text) :
    (g.enclose content).getLast? = some g.quote := by
  rw [enclose, List.getLast?_append_of_ne_nil _ (by cases g <;> decide)]
  cases g <;> rfl

/-- What is before and after a literal is not cut off between a return and its line feed. -/
lemma Text.AllReturned.parts {p r content : Text} {g : Grammar}
    (h : AllReturned (p ++ g.enclose content ++ r)) : AllReturned p ∧ AllReturned r := by
  refine ⟨h.left.left, h.right fun hreturn => ?_⟩
  rw [List.getLast?_append, g.getLast?_enclose, Option.some_or] at hreturn
  cases g <;> cases hreturn

/-- **An extraction keeps returns before line feeds**: if every line feed of a text that has one
comes after a return, then so it is when the literal is taken out, whether or not the text gets
an import. -/
theorem Candidate.allReturned_of_apply {t t' : Text} {c : Cursor} {candidate : Candidate}
    (h : Candidate.at t c = .ok candidate) (hfeed : '\n' ∈ t) (ht : AllReturned t)
    (happly : (Plan.externalizing t candidate.literal candidate.key).apply t = .ok t') :
    AllReturned t' := by
  have hin := Candidate.at_range h
  obtain ⟨p, r, hcut, hstart, hstop⟩ := hin.exists_append
  obtain ⟨hp, hr⟩ := AllReturned.parts (hcut ▸ ht)
  have hlookup : AllReturned (lookupExpression candidate.key) :=
    allReturned_of_notMem (newline_notMem_lookupExpression _)
  cases himport : importEdit? t with
  | none =>
      rw [(Candidate.apply_of_importEdit?_eq_none h himport).2, hstart, hstop, hcut,
        splice_mid] at happly
      rw [← Except.ok.inj happly]
      exact (hp.append hlookup).append hr
  | some i =>
      obtain ⟨a, pre, post, b, htakes, rfl⟩ := takesImport_of_importEdit? himport
      have htext := htakes.allReturned ht hfeed
      have hab : AllReturned (a ++ b) := htakes.append ▸ ht
      rw [Plan.externalizing, himport, Option.toList_some, hcut] at happly
      rcases Plan.append_of_apply_pair hin.start_lt_stop hstart hstop rfl rfl
          (hcut.symm.trans htakes.append) happly with ⟨q, rfl, rfl, rfl⟩ | ⟨q, rfl, rfl, rfl⟩
      · -- the import is above the literal
        have hq : AllReturned q := (hab.right htakes.apart).left
        exact (hab.left.append htext).append ((hq.append hlookup).append hr)
      · exact (hp.append hlookup).append ((hr.left.append htext).append (hab.right htakes.apart))

/-- A selection of a literal of two lines, before a directive without its semicolon. -/
theorem Candidate.allReturned_of_apply_twoLines : ∃ candidate t',
    Candidate.at "f('a\r\nb');\r\nimport 'c'\r\n".toList (.selection 3 7) = .ok candidate ∧
    (Plan.externalizing "f('a\r\nb');\r\nimport 'c'\r\n".toList candidate.literal
      candidate.key).apply "f('a\r\nb');\r\nimport 'c'\r\n".toList = .ok t' ∧
    AllReturned t' := by
  have hat : Candidate.at "f('a\r\nb');\r\nimport 'c'\r\n".toList (.selection 3 7) =
      .ok ⟨⟨2, 8, "a\r\nb".toList, .singleQuoted⟩, ⟨"a_b".toList, by decide⟩⟩ := by decide +kernel
  obtain ⟨t', happly⟩ : ∃ t', (Plan.externalizing "f('a\r\nb');\r\nimport 'c'\r\n".toList
      ⟨2, 8, "a\r\nb".toList, .singleQuoted⟩ ⟨"a_b".toList, by decide⟩).apply
      "f('a\r\nb');\r\nimport 'c'\r\n".toList = .ok t' := by
    refine ⟨"f(AppLocalizations.of(context)!.a_b);\r\nimport 'c'\r\n".toList ++ importDeclaration ++
      "\r\n".toList, ?_⟩
    decide +kernel
  exact ⟨_, t', hat, happly, Candidate.allReturned_of_apply hat (by decide) (by decide) happly⟩

end Externalize
