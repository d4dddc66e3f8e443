import Externalize.Proofs.Literal.Contents
import Externalize.Proofs.Source.Externalizing
import Externalize.Proofs.Text.Lines

/-
Externalizing one literal after the other.

* `rounds`: the rounds of a sequence of carets, each in the text that the one before left.
* `Text.IsLine.literal_apart`: a caret finds no literal on an import line.
* `Spares`: rounds that edit above and below a line only.
* `Round.spares_at`: a round in a text that has the declaration as a line spares that line;
  `Round.exists_isLine`: a round that imports leaves such a line.
* `countP_imports_rounds`: of all rounds one imports at most, and the later ones spare its line.
-/
namespace Externalize

open Text

/-! ### Rounds -/

/-- A round: the text before it, the plan that was applied, if any, and the text after it. -/
structure Round where
  before : Text
  plan? : Option Plan
  after : Text
deriving DecidableEq

namespace Round

/-- The round of a caret. The text stays as it is if there is no candidate, and if the plan is
rejected. -/
def «at» (t : Text) (o : Nat) : Round :=
  match Candidate.at t (.caret o) with
  | .error _ => ⟨t, none, t⟩
  | .ok c =>
    let plan := Plan.externalizing t c.literal c.key
    match plan.apply t with
    | .error _ => ⟨t, none, t⟩
    | .ok t' => ⟨t, some plan, t'⟩

/-- The plan of the round was applied, and inserts an import. -/
def imports (r : Round) : Bool := r.plan?.any fun p => p.edits.any Edit.isInsertion

end Round

/-- The rounds of some carets, one after the other. -/
def rounds : Text → List Nat → List Round
  | _, [] => []
  | t, o :: os => .at t o :: rounds (Round.at t o).after os

/-- Rounds that begin with this line between these parts of the text, and edit above or below it
only, so that what is on its other side stays. -/
inductive Spares (line : Text) : (above below : Text) → List Round → Prop
  | done {above below : Text} : Spares line above below []
  | idle {above below : Text} {r : Round} {rs : List Round}
      (hbefore : r.before = above ++ line ++ below) (hplan : r.plan? = none)
      (hafter : r.after = above ++ line ++ below) (h : Spares line above below rs) :
      Spares line above below (r :: rs)
  | editAbove {above below above' : Text} {r : Round} {rs : List Round} {p : Plan}
      (hbefore : r.before = above ++ line ++ below) (hplan : r.plan? = some p)
      (hedits : ∀ e ∈ p.edits, e.stop < size above)
      (hafter : r.after = above' ++ line ++ below) (h : Spares line above' below rs) :
      Spares line above below (r :: rs)
  | editBelow {above below below' : Text} {r : Round} {rs : List Round} {p : Plan}
      (hbefore : r.before = above ++ line ++ below) (hplan : r.plan? = some p)
      (hedits : ∀ e ∈ p.edits, size (above ++ line) < e.start)
      (hafter : r.after = above ++ line ++ below') (h : Spares line above below' rs) :
      Spares line above below (r :: rs)

variable {t above line below : Text} {o : Nat}

/-- A round leaves the text, or applies the plan of the candidate at its caret. -/
lemma Round.at_cases (t : Text) (o : Nat) : Round.at t o = ⟨t, none, t⟩ ∨
    ∃ c t', Candidate.at t (.caret o) = .ok c ∧
      (Plan.externalizing t c.literal c.key).apply t = .ok t' ∧
      Round.at t o = ⟨t, some (.externalizing t c.literal c.key), t'⟩ := by
  rw [Round.at]
  cases hc : Candidate.at t (.caret o) with
  | error skip => exact .inl rfl
  | ok c =>
      simp only
      cases happly : (Plan.externalizing t c.literal c.key).apply t with
      | error e => exact .inl rfl
      | ok t' => exact .inr ⟨c, t', rfl, happly, rfl⟩

/-! ### The line of the declaration -/

lemma contains_iff {part : Text} : Text.contains part t = true ↔ part <:+: t := by
  induction t with
  | nil => rw [Text.contains, List.isEmpty_iff, List.infix_nil]
  | cons c t ih =>
      rw [Text.contains, Bool.or_eq_true, List.isPrefixOf_iff_prefix, ih, List.infix_cons_iff]

/-- A text with a line that has the declaration needs no import. -/
lemma importEdit?_of_isLine (h : IsLine t above line below) (hline : importDeclaration <:+: line) :
    importEdit? t = none := by
  have ht : line <:+: t := ⟨above, below, h.append.symm⟩
  rw [importEdit?, if_pos (contains_iff.mpr (hline.trans ht))]

/-- An import line is that of a directive, with or without a return at its end. -/
lemma isDirectiveLine_of_import {part rest : Text}
    (h : "import ".toList <+: trimStart (part ++ rest)) :
    isDirectiveLine (part ++ dropReturn rest) = true := by
  rw [isDirectiveLine_append_dropReturn]
  exact isDirectiveLine_iff.mpr ⟨_, List.mem_cons_self, h⟩

/-- A line that begins with the declaration is an import line. -/
lemma import_prefix_trimStart (h : importDeclaration <+: line) :
    "import ".toList <+: line.trimStart := by
  obtain ⟨r, rfl⟩ := h
  exact ⟨importDeclaration.drop 7 ++ r, rfl⟩

/-- The literal at a caret is on the line of the caret. -/
lemma Literal.at?_caret {l : Literal} (h : Literal.at? t (.caret o) = some l) :
    isDirectiveLine (t.lineAt l.start) = false ∧ l.start < l.stop ∧ ∃ a part rest b,
      t = a ++ (part ++ rest) ++ b ∧ EndsLine a ∧ '\n' ∉ part ++ rest ∧
      l.start = size (a ++ part) ∧ l.stop ≤ size (a ++ (part ++ rest)) := by
  obtain ⟨hdirective, found, hfound, -, rfl⟩ := Literal.at?_cases h
  obtain ⟨a, mid, b, ht, hstart, hstop, ha, hmid⟩ := exists_lines_caret t o
  have hlines : Cursor.lines (.caret o) t = (size a, size (a ++ mid)) := by
    rw [Cursor.lines]
    simp only [Cursor.start, Cursor.stop]
    rw [← hstart, ← hstop, Nat.max_eq_left (by rw [size_append]; omega)]
  have hslice : t.slice (size a) (size (a ++ mid)) = mid := by
    rw [ht, List.append_assoc, slice_append]
  rw [hlines, hslice] at hfound
  rw [hlines] at hdirective ⊢
  have hlt := hfound.start_lt_stop
  obtain ⟨part, rest, rfl, hfrom, hto⟩ := hfound.cut
  refine ⟨hdirective, ?_, a, part, _, b, ht, ha, hmid, ?_, ?_⟩
  · simp only [Literal.shift]
    omega
  · simp only [Literal.shift, hfrom, size_append]
    omega
  · simp only [Literal.shift, hto, size_append]
    omega

/-- A caret finds no literal on an import line. -/
theorem Text.IsLine.literal_apart {l : Literal} (h : IsLine t above line below)
    (hline : "import ".toList <+: line.trimStart) (hl : Literal.at? t (.caret o) = some l) :
    l.stop < size above ∨ size (above ++ line) < l.start := by
  obtain ⟨hdirective, -, a, part, rest, b, ht, ha, hmid, hstart, hstop⟩ := Literal.at?_caret hl
  rcases h.cases ht ha hmid with hbefore | ⟨rfl, r, rfl⟩ | hafter
  · exact .inl (by omega)
  · rw [List.append_assoc] at h hline
    rw [hstart, h.lineAt_eq, isDirectiveLine_of_import hline] at hdirective
    cases hdirective
  · right
    rw [hstart, size_append a]
    omega

/-! ### One round -/

/-- In a text that needs no import the plan of a candidate replaces its literal. -/
lemma Candidate.apply_of_importEdit?_eq_none {cursor : Cursor} {c : Candidate}
    (hc : Candidate.at t cursor = .ok c) (himport : importEdit? t = none) :
    Plan.externalizing t c.literal c.key = ⟨[c.literal.replacement c.key]⟩ ∧
      (Plan.externalizing t c.literal c.key).apply t =
        .ok (t.splice c.literal.start c.literal.stop (lookupExpression c.key)) := by
  have hin := Candidate.at_range hc
  have hfit : Plan.rangeError? t (c.literal.replacement c.key) = none :=
    Plan.rangeError?_eq_none hin.start_lt_stop.le hin.isBoundary.1 hin.isBoundary.2
  rw [Plan.externalizing, himport]
  exact ⟨rfl, Plan.apply_single_eq hfit⟩

/-- The plan of a candidate imports just if the text needs it. -/
lemma imports_externalizing {l : Literal} {k : Key} (hl : l.start < l.stop) :
    (Plan.externalizing t l k).edits.any Edit.isInsertion = (importEdit? t).isSome := by
  have hreplacement : (l.replacement k).isInsertion = false := by
    rw [Edit.isInsertion, decide_eq_false_iff_not]
    exact Nat.not_le.mpr hl
  cases himport : importEdit? t with
  | none => simp [Plan.externalizing, himport, hreplacement]
  | some i =>
      have hi : i.isInsertion = true := by
        simpa [Edit.isInsertion] using (importEdit?_cases himport).1.le
      simp [Plan.externalizing, himport, hi]

/-- A round in a text that has the declaration as a line imports nothing, and spares that line. -/
theorem Round.spares_at (h : IsLine t above line below) (hline : importDeclaration <+: line)
    (o : Nat) : (Round.at t o).imports = false ∧ ∃ above' below',
      IsLine (Round.at t o).after above' line below' ∧
      ∀ rs, Spares line above' below' rs → Spares line above below (Round.at t o :: rs) := by
  rcases Round.at_cases t o with hround | ⟨c, t', hc, happly, hround⟩
  · rw [hround]
    exact ⟨rfl, above, below, h, fun rs hrs => .idle h.append rfl h.append hrs⟩
  · have hin := Candidate.at_range hc
    have hlt := hin.start_lt_stop
    have himport := importEdit?_of_isLine h hline.isInfix
    obtain ⟨hplan, happly'⟩ := Candidate.apply_of_importEdit?_eq_none hc himport
    have ht' : t' = t.splice c.literal.start c.literal.stop (lookupExpression c.key) :=
      Except.ok.inj (happly.symm.trans happly')
    rw [hround]
    refine ⟨?_, ?_⟩
    · rw [imports, Option.any_some, imports_externalizing hlt, himport]
      rfl
    rcases h.literal_apart (import_prefix_trimStart hline) (Candidate.at?_of_at hc) with
      habove | hbelow
    · have hafter := h.splice_above hlt.le habove (lookupExpression c.key)
      rw [← ht'] at hafter
      refine ⟨_, below, hafter, fun rs hrs => .editAbove h.append rfl ?_ hafter.append hrs⟩
      intro e he
      rw [hplan] at he
      obtain rfl := List.mem_singleton.mp he
      exact habove
    · obtain ⟨below', hafter⟩ := h.splice_below hlt.le hbelow hin.isBoundary.2.le_size
        (lookupExpression c.key)
      rw [← ht'] at hafter
      refine ⟨above, below', hafter, fun rs hrs => .editBelow h.append rfl ?_ hafter.append hrs⟩
      intro e he
      rw [hplan] at he
      obtain rfl := List.mem_singleton.mp he
      exact hbelow

/-- An edit and an insertion put their texts where they are made; what lies between them stays. -/
lemma Plan.append_of_apply_pair {p mid r a b t' : Text} {e i : Edit} (hlt : e.start < e.stop)
    (hstart : e.start = size p) (hstop : e.stop = size (p ++ mid)) (hi : i.stop = i.start)
    (ha : i.start = size a) (hcut : p ++ mid ++ r = a ++ b)
    (happly : Plan.apply ⟨[e, i]⟩ (p ++ mid ++ r) = .ok t') :
    (∃ q, p = a ++ q ∧ b = q ++ (mid ++ r) ∧ t' = a ++ i.text ++ (q ++ e.text ++ r)) ∨
      ∃ q, a = p ++ mid ++ q ∧ r = q ++ b ∧ t' = p ++ e.text ++ (q ++ i.text ++ b) := by
  rcases Plan.apply_pair_eq hlt hi happly with ⟨hle, rfl⟩ | ⟨hle, rfl⟩
  · left
    rw [ha, hstart] at hle
    rw [List.append_assoc] at hcut
    obtain ⟨q, rfl, hb⟩ := exists_append_of_size_le hcut.symm hle
    refine ⟨q, rfl, hb, ?_⟩
    rw [hstart, hstop, splice_mid, hi, ha, List.append_assoc a, List.append_assoc a,
      splice_size_append]
  · right
    rw [ha, hstop] at hle
    obtain ⟨q, rfl, hr⟩ := exists_append_of_size_le hcut hle
    refine ⟨q, rfl, hr, ?_⟩
    rw [hcut, hi, ha, splice_size_append, hstart, hstop, List.append_assoc (p ++ mid),
      List.append_assoc (p ++ mid), splice_mid, List.append_assoc q]

/-- Where a literal is replaced and an import inserted, the text of the import stands in the text
then. What is before it was before the place of the import, but for the literal. -/
lemma Plan.exists_append_of_import {l : Literal} {k : Key} {i : Edit} {t' : Text}
    (himport : importEdit? t = some i) (hl : l.IsIn t)
    (happly : Plan.apply ⟨[l.replacement k, i]⟩ t = .ok t') :
    ∃ a b, t' = a ++ i.text ++ b ∧ (i.start = 0 → a = []) := by
  obtain ⟨a, b, hab, ha⟩ := isBoundary_iff.mp (isBoundary_of_importEdit? himport)
  obtain ⟨p, r, rfl, hstart, hstop⟩ := hl.exists_append
  rcases Plan.append_of_apply_pair hl.start_lt_stop hstart hstop (importEdit?_cases himport).1
    ha.symm
      hab happly with ⟨q, -, -, rfl⟩ | ⟨q, rfl, -, rfl⟩
  · exact ⟨a, _, rfl, fun hzero => eq_nil_of_size_eq_zero (ha.trans hzero)⟩
  · refine ⟨p ++ lookupExpression k ++ q, b, by simp only [Literal.replacement, List.append_assoc],
      fun hzero => ?_⟩
    have hlt := hl.start_lt_stop
    rw [size_append] at ha
    omega

lemma endsLine_terminator (a t : Text) : EndsLine (a ++ t.terminator) := by
  intro c hc
  rw [terminator] at hc
  split_ifs at hc <;> simpa [eq_comm] using hc

/-- The declaration is one line. -/
lemma newline_notMem_importDeclaration : '\n' ∉ importDeclaration := by decide

/-- What is inserted for an import is the declaration on a line of its own. -/
lemma exists_isLine_of_import {i : Edit} {a b : Text} (h : importEdit? t = some i)
    (ha : i.start = 0 → a = []) : ∃ above line below,
      IsLine (a ++ i.text ++ b) above line below ∧ importDeclaration <+: line := by
  rw [importEdit?] at h
  split_ifs at h
  split at h
  · cases h
    obtain ⟨line, below, hline, hprefix⟩ :=
      exists_isLine (a ++ t.terminator) importDeclaration b (endsLine_terminator a t)
        newline_notMem_importDeclaration
    rw [List.append_assoc a] at hline
    exact ⟨_, line, below, hline, hprefix⟩
  · cases h
    obtain rfl := ha rfl
    obtain ⟨line, below, hline, hprefix⟩ :=
      exists_isLine [] importDeclaration (t.terminator ++ b) endsLine_nil
        newline_notMem_importDeclaration
    rw [List.append_assoc, ← List.append_assoc importDeclaration, ← List.append_assoc] at hline
    exact ⟨_, line, below, hline, hprefix⟩

/-- A round that imports leaves a line that begins with the declaration. -/
theorem Round.exists_isLine (h : (Round.at t o).imports = true) : ∃ above line below,
    IsLine (Round.at t o).after above line below ∧ importDeclaration <+: line := by
  rcases Round.at_cases t o with hround | ⟨c, t', hc, happly, hround⟩
  · rw [hround] at h
    cases h
  · have hin := Candidate.at_range hc
    rw [hround] at h ⊢
    rw [imports, Option.any_some, imports_externalizing hin.start_lt_stop,
      Option.isSome_iff_exists] at h
    obtain ⟨i, himport⟩ := h
    rw [Plan.externalizing, himport] at happly
    obtain ⟨a, b, rfl, ha⟩ := Plan.exists_append_of_import himport hin happly
    exact exists_isLine_of_import himport ha

/-! ### All rounds -/

/-- All rounds in a text that has the declaration as a line spare that line, and import nothing. -/
lemma spares_rounds (os : List Nat) (h : IsLine t above line below)
    (hline : importDeclaration <+: line) :
    Spares line above below (rounds t os) ∧ (rounds t os).countP Round.imports = 0 := by
  induction os generalizing t above below with
  | nil => exact ⟨.done, rfl⟩
  | cons o os ih =>
      obtain ⟨hnone, above', below', hafter, hspares⟩ := Round.spares_at h hline o
      obtain ⟨hlater, hcount⟩ := ih hafter
      rw [rounds]
      exact ⟨hspares _ hlater, by rw [List.countP_cons_of_neg (by simp [hnone]), hcount]⟩

/-- **Of all rounds one imports at most.** After it the text has a line that begins with the
declaration, and all later rounds spare it. -/
theorem countP_imports_rounds (t : Text) (os : List Nat) :
    (rounds t os).countP Round.imports ≤ 1 ∧
    ∀ xs r ys, rounds t os = xs ++ r :: ys → r.imports = true → ∃ above line below,
      IsLine r.after above line below ∧ importDeclaration <+: line ∧
      Spares line above below ys := by
  induction os generalizing t with
  | nil => exact ⟨Nat.zero_le 1, fun xs r ys h => by simp [rounds] at h⟩
  | cons o os ih =>
      obtain ⟨hcount, hlater⟩ := ih (Round.at t o).after
      rw [rounds]
      refine ⟨?_, fun xs r ys hcut himports => ?_⟩
      · by_cases himports : (Round.at t o).imports = true
        · obtain ⟨above, line, below, hafter, hline⟩ := Round.exists_isLine himports
          rw [List.countP_cons_of_pos himports, (spares_rounds os hafter hline).2]
        · rwa [List.countP_cons_of_neg himports]
      · cases xs with
        | nil =>
            obtain ⟨rfl, rfl⟩ := List.cons.inj hcut
            obtain ⟨above, line, below, hafter, hline⟩ := Round.exists_isLine himports
            exact ⟨above, line, below, hafter, hline, (spares_rounds os hafter hline).1⟩
        | cons x xs => exact hlater xs r ys (List.cons.inj hcut).2 himports

/-- A first literal brings the import; a caret on its line then finds nothing, and a second literal
is replaced further down. -/
theorem countP_imports_rounds_text : ∃ first later : Round,
    rounds "f('x', 'y')".toList [3, 10, 98] = [first, ⟨first.after, none, first.after⟩, later] ∧
    first.imports = true ∧ later.plan?.isSome = true ∧ ∃ above line below,
      IsLine first.after above line below ∧ importDeclaration <+: line ∧
      Spares line above below [⟨first.after, none, first.after⟩, later] := by
  obtain ⟨first, later, hrounds, himports, hlater⟩ : ∃ first later : Round,
      rounds "f('x', 'y')".toList [3, 10, 98] = [first, ⟨first.after, none, first.after⟩, later] ∧
      first.imports = true ∧ later.plan?.isSome = true :=
    ⟨.at "f('x', 'y')".toList 3, .at (Round.at "f('x', 'y')".toList 3).after 98,
      by decide +kernel, by decide +kernel, by decide +kernel⟩
  exact ⟨first, later, hrounds, himports, hlater,
    (countP_imports_rounds _ _).2 [] first _ hrounds himports⟩

end Externalize
