import Externalize.Proofs.Literal.Ranges
import Externalize.Source.Externalizing

/-
Externalizing a literal of the text itself.

The literal and the place of the import are found by two searches that know nothing of each other.

* `Text.isBoundary_of_importEdit?`: the import goes between two characters.
* `Text.import_of_lt`: when it goes past an offset, such as the start of a literal.
* `Candidate.apply_externalizing`: the plan fits unless the import goes inside the literal.
-/
namespace Externalize

open Text

namespace Text

variable {t d : Text} {e : Edit}

/-- The search for the last import directive goes over all lines and gives an end of the text. -/
lemma exists_append_of_lastImport (ls : List Text) :
    ∀ r, r = ls.foldr
      (fun line (rest, found) =>
        (line ++ rest,
          match found with
          | some later => some later
          | none => if isImportLine line.trimStart then some (line.trimStart ++ rest) else none))
      ([], (none : Option Text)) →
    r.1 = ls.flatten ∧ ∀ d, r.2 = some d → ∃ a, r.1 = a ++ d := by
  induction ls with
  | nil =>
      rintro r rfl
      refine ⟨rfl, fun d h => ?_⟩
      cases h
  | cons line ls ih =>
      obtain ⟨hrest, hfound⟩ := ih _ rfl
      rintro r rfl
      rw [List.foldr_cons]
      generalize ls.foldr _ _ = r at hrest hfound
      obtain ⟨rest, found⟩ := r
      refine ⟨by rw [List.flatten_cons, ← hrest], fun d h => ?_⟩
      cases found with
      | some later =>
          obtain rfl : later = d := Option.some_injective _ h
          obtain ⟨a, ha⟩ := hfound later rfl
          exact ⟨line ++ a, by rw [List.append_assoc, ← ha]⟩
      | none =>
          simp only at h
          split_ifs at h
          obtain rfl : line.trimStart ++ rest = d := Option.some_injective _ h
          refine ⟨line.takeWhile isBlank, ?_⟩
          rw [← List.append_assoc, trimStart, List.takeWhile_append_dropWhile]

/-- What the last import directive begins is an end of the text. -/
lemma append_of_fromLastImport? (h : fromLastImport? t = some d) : ∃ a, t = a ++ d := by
  obtain ⟨hflatten, hend⟩ := exists_append_of_lastImport (terminatedLines t) _ rfl
  obtain ⟨a, ha⟩ := hend d h
  rw [hflatten, flatten_terminatedLines] at ha
  exact ⟨a, ha⟩

/-- What is before the first place of a character. -/
lemma takeWhile_append_cons {c : Char} {b : Text} (hb : c ∉ b) (r : Text) :
    (b ++ c :: r).takeWhile (· != c) = b := by
  have hall : ∀ d ∈ b, (d != c) = true := fun d hd => bne_iff_ne.mpr fun heq => hb (heq ▸ hd)
  rw [List.takeWhile_append_of_pos hall, List.takeWhile_cons_of_neg (by simp), List.append_nil]

/-- Where the last import directive begins and ends. -/
lemma lastImport_cases {o : Nat} (h : t.lastImportEnd? = some o) : ∃ a d, t = a ++ d ∧
    fromLastImport? t = some d ∧ t.lastImportStart? = some (size a) ∧
    ((∃ b r, d = b ++ ';' :: r ∧ ';' ∉ b ∧ o = size a + size b + 1) ∨
      (';' ∉ d ∧ o = size a + size (dropReturn (firstLine d)))) := by
  rw [lastImportEnd?, Option.map_eq_some_iff] at h
  obtain ⟨d, hd, ho⟩ := h
  obtain ⟨a, rfl⟩ := append_of_fromLastImport? hd
  have hstart : size (a ++ d) - size d = size a := by
    rw [size_append, Nat.add_sub_cancel]
  simp only [hstart] at ho
  refine ⟨a, d, rfl, hd, by rw [lastImportStart?, hd, Option.map_some, hstart], ?_⟩
  split_ifs at ho with hsemicolon
  · obtain ⟨b, r, rfl, hb⟩ := List.eq_append_cons_of_mem hsemicolon
    rw [takeWhile_append_cons hb] at ho
    exact .inl ⟨b, r, rfl, hb, ho.symm⟩
  · exact .inr ⟨hsemicolon, ho.symm⟩

/-- The import is an insertion, after the last directive or at the top. -/
lemma importEdit?_cases (h : importEdit? t = some e) : e.stop = e.start ∧
    (t.lastImportEnd? = some e.start ∨ e.start = 0) := by
  rw [importEdit?] at h
  split_ifs at h
  split at h
  · next o ho =>
      cases h
      exact ⟨rfl, .inl ho⟩
  · cases h
    exact ⟨rfl, .inr rfl⟩

/-- The import goes between two characters. -/
theorem isBoundary_of_importEdit? (h : importEdit? t = some e) : IsBoundary t e.start := by
  rcases (importEdit?_cases h).2 with hend | hzero
  · obtain ⟨a, d, rfl, -, -, ⟨b, r, rfl, -, ho⟩ | ⟨-, ho⟩⟩ := lastImport_cases hend
    · refine isBoundary_iff.mpr ⟨a ++ b ++ [';'], r, by simp, ?_⟩
      rw [ho, size_append, size_append]
      rfl
    · obtain ⟨r, hr⟩ := firstLine_prefix d
      refine isBoundary_iff.mpr ⟨a ++ dropReturn (firstLine d), r, ?_, by rw [ho, size_append]⟩
      rw [List.append_assoc, ← hr]
  · rw [hzero]
    exact isBoundary_zero t

/-- The import goes past an offset if the last directive begins after it, or has no semicolon
before it. -/
theorem import_of_lt {o : Nat} (h : importEdit? t = some e) (ho : IsBoundary t o)
    (hlt : o < e.start) :
    ∃ s, t.lastImportStart? = some s ∧ (o < s ∨ ';' ∉ slice t s o) := by
  rcases (importEdit?_cases h).2 with hend | hzero
  · obtain ⟨a, d, rfl, -, hs, hd⟩ := lastImport_cases hend
    refine ⟨size a, hs, ?_⟩
    rcases Nat.lt_or_ge o (size a) with hbefore | hafter
    · exact .inl hbefore
    · right
      obtain ⟨a', b', hcut, rfl⟩ := isBoundary_iff.mp ho
      obtain ⟨c, rfl, rfl⟩ := exists_append_of_size_le hcut hafter
      rw [slice_append]
      rcases hd with ⟨b, r, hsemicolon, hb, hend⟩ | ⟨hnone, -⟩
      · have hsize : size c ≤ size b := by
          rw [hend, size_append] at hlt
          omega
        obtain ⟨x, rfl, -⟩ := exists_append_of_size_le hsemicolon hsize
        exact fun hc => hb (List.mem_append_left x hc)
      · exact fun hc => hnone (List.mem_append_left b' hc)
  · omega

end Text

/-! ### Two edits -/

namespace Plan

variable {t : Text} {e i : Edit}

lemma rangeError?_eq_none (h : e.start ≤ e.stop) (hstart : IsBoundary t e.start)
    (hstop : IsBoundary t e.stop) : rangeError? t e = none := by
  have hsize := hstop.le_size
  rw [rangeError?, if_neg (by omega), if_neg (by simp [hstart, hstop])]

lemma apply_single_eq (he : rangeError? t e = none) :
    apply ⟨[e]⟩ t = .ok (t.splice e.start e.stop e.text) := by
  simp [apply, ordered, Edit.insertInto, overlap?, he, splices]

lemma apply_single (he : rangeError? t e = none) : ∃ t', apply ⟨[e]⟩ t = .ok t' :=
  ⟨_, apply_single_eq he⟩

/-- An insertion that is not past the start of an edit comes before it, and else after it. -/
lemma ordered_pair (he : e.start < e.stop) (hi : i.stop = i.start) :
    ordered ⟨[e, i]⟩ = if e.start < i.start then [e, i] else [i, e] := by
  have hprecedes : e.precedes i = true ↔ e.start < i.start := by
    simp only [Edit.precedes, Bool.or_eq_true, Bool.and_eq_true, decide_eq_true_eq, beq_iff_eq]
    omega
  simp only [ordered, List.foldr_cons, List.foldr_nil, Edit.insertInto, hprecedes]

/-- An edit and an insertion fit a text unless the insertion goes inside the range of the edit. -/
lemma apply_pair (he : e.start < e.stop) (hi : i.stop = i.start) (hfit : rangeError? t e = none)
    (hfit' : rangeError? t i = none) :
    (e.start < i.start ∧ i.start < e.stop ∧ apply ⟨[e, i]⟩ t = .error (.overlap e i)) ∨
      (¬ (e.start < i.start ∧ i.start < e.stop) ∧ ∃ t', apply ⟨[e, i]⟩ t = .ok t') := by
  rw [apply, ordered_pair he hi]
  by_cases hlt : e.start < i.start
  · rw [if_pos hlt]
    simp only [List.findSome?_cons, List.findSome?_nil, hfit, hfit', overlap?]
    by_cases hinside : i.start < e.stop
    · rw [if_pos hinside]
      exact .inl ⟨hlt, hinside, rfl⟩
    · rw [if_neg hinside]
      exact .inr ⟨fun h => hinside h.2, _, rfl⟩
  · rw [if_neg hlt]
    simp only [List.findSome?_cons, List.findSome?_nil, hfit, hfit', overlap?]
    rw [if_neg (by omega)]
    exact .inr ⟨fun h => hlt h.1, _, rfl⟩

/-- What a text becomes by an edit and an insertion: the one of them that goes further down is made
first. -/
lemma apply_pair_eq (he : e.start < e.stop) (hi : i.stop = i.start) {t' : Text}
    (h : apply ⟨[e, i]⟩ t = .ok t') :
    (i.start ≤ e.start ∧
      t' = (t.splice e.start e.stop e.text).splice i.start i.stop i.text) ∨
    (e.stop ≤ i.start ∧
      t' = (t.splice i.start i.stop i.text).splice e.start e.stop e.text) := by
  rw [apply, ordered_pair he hi] at h
  split at h
  · cases h
  · split at h
    · cases h
    · next hoverlap =>
        cases h
        split_ifs at hoverlap ⊢ with hlt
        · right
          refine ⟨?_, rfl⟩
          by_contra hcon
          rw [overlap?, if_pos (by omega)] at hoverlap
          cases hoverlap
        · exact .inl ⟨by omega, rfl⟩

end Plan

/-! ### The literal at a cursor -/

/-- **The plan of a candidate fits its text unless the import goes inside the literal.** It does
only where the last import directive begins inside the literal, or has no semicolon before it. -/
theorem Candidate.apply_externalizing {t : Text} {c : Cursor} {candidate : Candidate}
    (h : Candidate.at t c = .ok candidate) :
    ((∃ t', (Plan.externalizing t candidate.literal candidate.key).apply t = .ok t') ↔
      ∀ i, importEdit? t = some i →
        ¬ (candidate.literal.start < i.start ∧ i.start < candidate.literal.stop)) ∧
    ∀ e, (Plan.externalizing t candidate.literal candidate.key).apply t = .error e →
      ∃ i s, importEdit? t = some i ∧
        e = .overlap (candidate.literal.replacement candidate.key) i ∧
        t.lastImportStart? = some s ∧
        (candidate.literal.start < s ∨ ';' ∉ t.slice s candidate.literal.start) := by
  have hin := Candidate.at_range h
  have hlt := hin.start_lt_stop
  have hfit : Plan.rangeError? t (candidate.literal.replacement candidate.key) = none :=
    Plan.rangeError?_eq_none hlt.le hin.isBoundary.1 hin.isBoundary.2
  rw [Plan.externalizing]
  cases himport : importEdit? t with
  | none =>
      obtain ⟨t', ht'⟩ := Plan.apply_single hfit
      rw [Option.toList_none, ht']
      exact ⟨⟨fun _ i hi => (Option.some_ne_none i hi.symm).elim, fun _ => ⟨t', rfl⟩⟩,
        fun e he => nomatch he⟩
  | some i =>
      have hstop := (importEdit?_cases himport).1
      have hboundary := isBoundary_of_importEdit? himport
      have hfit' : Plan.rangeError? t i = none :=
        Plan.rangeError?_eq_none hstop.ge hboundary (hstop ▸ hboundary)
      rw [Option.toList_some]
      rcases Plan.apply_pair hlt hstop hfit hfit' with ⟨hstart, hinside, herror⟩ | ⟨hapart, t', ht'⟩
      · rw [herror]
        refine ⟨⟨?_, fun hno => ?_⟩, fun e he => ?_⟩
        · rintro ⟨t', ht'⟩
          cases ht'
        · exact absurd ⟨hstart, hinside⟩ (hno i rfl)
        · cases he
          obtain ⟨s, hs, hwhere⟩ := import_of_lt himport hin.isBoundary.1 hstart
          exact ⟨i, s, rfl, rfl, hs, hwhere⟩
      · rw [ht']
        refine ⟨⟨fun _ j hj => ?_, fun _ => ⟨t', rfl⟩⟩, fun e he => nomatch he⟩
        cases hj
        exact hapart

/-- After a directive that has its semicolon the import stays clear of a literal further down. -/
theorem Candidate.apply_externalizing_text :
    ∃ candidate, Candidate.at "import 'a.dart';\nText('Hi')".toList (.caret 24) = .ok candidate ∧
      ∃ t', (Plan.externalizing "import 'a.dart';\nText('Hi')".toList candidate.literal
        candidate.key).apply "import 'a.dart';\nText('Hi')".toList = .ok t' := by
  have h : Candidate.at "import 'a.dart';\nText('Hi')".toList (.caret 24) =
      .ok ⟨⟨22, 26, "Hi".toList, .singleQuoted⟩, ⟨"hi".toList, by decide⟩⟩ := by decide +kernel
  refine ⟨_, h, (Candidate.apply_externalizing h).1.mpr ?_⟩
  have himport : importEdit? "import 'a.dart';\nText('Hi')".toList =
      some ⟨16, 16, '\n' :: importDeclaration⟩ := by decide +kernel
  intro i hi
  obtain rfl := Option.some_injective _ (himport.symm.trans hi)
  decide

/-- A plan need not fit: the import goes after the first semicolon that follows the last directive,
and a directive without one of its own finds it inside a literal. -/
theorem Candidate.not_forall_apply_externalizing :
    ¬ ∀ (t : Text) (c : Cursor) (candidate : Candidate), Candidate.at t c = .ok candidate →
      ∃ t', (Plan.externalizing t candidate.literal candidate.key).apply t = .ok t' := by
  intro h
  have hat : Candidate.at "import 'a.dart'\nf('x;y')".toList (.caret 20) =
      .ok ⟨⟨18, 23, "x;y".toList, .singleQuoted⟩, ⟨"x_y".toList, by decide⟩⟩ := by decide +kernel
  obtain ⟨t', ht'⟩ := h _ _ _ hat
  have herror : (Plan.externalizing "import 'a.dart'\nf('x;y')".toList
      ⟨18, 23, "x;y".toList, .singleQuoted⟩ ⟨"x_y".toList, by decide⟩).apply
        "import 'a.dart'\nf('x;y')".toList =
      .error (.overlap ⟨18, 23, lookupExpression ⟨"x_y".toList, by decide⟩⟩
        ⟨21, 21, '\n' :: importDeclaration⟩) := by decide +kernel
  cases herror.symm.trans ht'

end Externalize
