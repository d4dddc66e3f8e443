import Externalize.Proofs.Text.Lines
import Externalize.Source.Edit

/-
Plans of any number of edits.

* `Edit.Rearranges`: the same edits in another order, where those of one range stand as they did;
  `Edit.Rearranges.eq_of_sorted` says that only one such order goes by ranges.
* `Plan.InOrder`: that order; `Plan.inOrder_iff` says that the edits of a plan are put in it.
* `Plan.overlap?_eq_none_iff`: if neighbours do not overlap, no two edits do.
* `Plan.splices_eq_copied`: edits that are made from the last one to the first give what a copy from
  the front gives.
* `Plan.apply_spec`, `Plan.apply_of_rearranges`: when a plan fits a text and what the text becomes
  then, and that the order in which edits of different ranges are given does not matter.
-/
namespace Externalize

namespace Edit

variable {a b e : Edit} {l l' : List Edit}

/-! ### The order of ranges -/

/-- The range of an edit is not after that of another: by start, then by stop. -/
def RangeLe (a b : Edit) : Prop := a.start < b.start ∨ a.start = b.start ∧ a.stop ≤ b.stop

/-- Whether an edit has this range. -/
def hasRange (start stop : Nat) (e : Edit) : Bool := e.start == start && e.stop == stop

/-- The same edits in another order, where those of one range stand as they did. -/
structure Rearranges (l l' : List Edit) : Prop where
  perm : l.Perm l'
  sameRange : ∀ start stop, l.filter (hasRange start stop) = l'.filter (hasRange start stop)

lemma precedes_iff : a.precedes b = true ↔ a.RangeLe b := by
  simp [precedes, RangeLe]

lemma RangeLe.trans {c : Edit} (h : a.RangeLe b) (h' : b.RangeLe c) : a.RangeLe c := by
  unfold RangeLe at *
  omega

lemma RangeLe.hasRange (h : a.RangeLe b) (h' : b.RangeLe a) : a.hasRange b.start b.stop = true := by
  unfold RangeLe at *
  simp only [Edit.hasRange, Bool.and_eq_true, beq_iff_eq]
  omega

lemma hasRange_self (e : Edit) : e.hasRange e.start e.stop = true := by
  simp [hasRange]

namespace Rearranges

lemma symm (h : Rearranges l l') : Rearranges l' l :=
  ⟨h.perm.symm, fun start stop => (h.sameRange start stop).symm⟩

lemma trans {l'' : List Edit} (h : Rearranges l l') (h' : Rearranges l' l'') : Rearranges l l'' :=
  ⟨h.perm.trans h'.perm, fun start stop => (h.sameRange start stop).trans (h'.sameRange start stop)⟩

lemma cons (h : Rearranges l l') (e : Edit) : Rearranges (e :: l) (e :: l') where
  perm := h.perm.cons e
  sameRange start stop := by rw [List.filter_cons, List.filter_cons, h.sameRange]

lemma of_cons (h : Rearranges (e :: l) (e :: l')) : Rearranges l l' where
  perm := h.perm.cons_inv
  sameRange start stop := by
    have hsame := h.sameRange start stop
    rw [List.filter_cons, List.filter_cons] at hsame
    split_ifs at hsame
    · exact (List.cons.inj hsame).2
    · exact hsame

/-- Only one order goes by ranges. -/
theorem eq_of_sorted (h : Rearranges l l') (hl : l.Pairwise RangeLe) (hl' : l'.Pairwise RangeLe) :
    l = l' := by
  induction l generalizing l' with
  | nil => exact (List.nil_perm.mp h.perm).symm
  | cons a l ih =>
      obtain ⟨b, l', rfl⟩ : ∃ b r, l' = b :: r :=
        List.exists_cons_of_ne_nil (List.ne_nil_of_mem (h.perm.subset List.mem_cons_self))
      obtain ⟨ha, hrest⟩ := List.pairwise_cons.mp hl
      obtain ⟨hb, hrest'⟩ := List.pairwise_cons.mp hl'
      -- Each of the two first edits stands in the other list, so neither range is after the other.
      have hrange : a.hasRange b.start b.stop = true := by
        rcases List.mem_cons.mp (h.perm.subset List.mem_cons_self) with rfl | hmem
        · exact hasRange_self a
        · rcases List.mem_cons.mp (h.perm.symm.subset List.mem_cons_self) with rfl | hmem'
          · exact hasRange_self b
          · exact (ha b hmem').hasRange (hb a hmem)
      have hsame := h.sameRange b.start b.stop
      rw [List.filter_cons_of_pos hrange, List.filter_cons_of_pos b.hasRange_self] at hsame
      obtain rfl : a = b := (List.cons.inj hsame).1
      rw [ih h.of_cons hrest hrest']

end Rearranges

lemma insertInto_rearranges (e : Edit) (l : List Edit) : Rearranges (e.insertInto l) (e :: l) := by
  induction l with
  | nil => exact ⟨.refl _, fun _ _ => rfl⟩
  | cons x l ih =>
      rw [insertInto]
      split_ifs with hx
      · exact ⟨.refl _, fun _ _ => rfl⟩
      · refine (ih.cons x).trans ⟨.swap e x l, fun start stop => ?_⟩
        -- The edit goes past another one only if their ranges are not the same.
        have hne : ¬ (x.hasRange start stop = true ∧ e.hasRange start stop = true) := by
          rintro ⟨hx', he⟩
          simp only [hasRange, Bool.and_eq_true, beq_iff_eq] at hx' he
          rw [precedes_iff, RangeLe] at hx
          omega
        rw [List.filter_cons, List.filter_cons, List.filter_cons, List.filter_cons]
        split_ifs with hx' he
        · exact absurd ⟨hx', he⟩ hne
        all_goals rfl

lemma pairwise_insertInto (e : Edit) (hl : l.Pairwise RangeLe) :
    (e.insertInto l).Pairwise RangeLe := by
  induction l with
  | nil => exact List.pairwise_singleton _ _
  | cons x l ih =>
      obtain ⟨hx, hl⟩ := List.pairwise_cons.mp hl
      rw [insertInto]
      split_ifs with hle
      · have hex := precedes_iff.mp hle
        refine List.pairwise_cons.mpr ⟨fun y hy => ?_, List.pairwise_cons.mpr ⟨hx, hl⟩⟩
        rcases List.mem_cons.mp hy with rfl | hy
        · exact hex
        · exact hex.trans (hx y hy)
      · refine List.pairwise_cons.mpr ⟨fun y hy => ?_, ih hl⟩
        rcases List.mem_cons.mp ((insertInto_rearranges e l).perm.subset hy) with rfl | hy
        · rw [precedes_iff, RangeLe] at hle
          unfold RangeLe
          omega
        · exact hx y hy

end Edit

namespace Plan

open Edit Text

variable {p q : Plan} {t : Text} {l : List Edit}

/-! ### The order of the edits -/

/-- The edits of a plan by their ranges, those of one range in the order given. -/
structure InOrder (p : Plan) (l : List Edit) : Prop where
  rearranges : Rearranges l p.edits
  sorted : l.Pairwise RangeLe

lemma ordered_inOrder (p : Plan) : p.InOrder p.ordered := by
  obtain ⟨edits⟩ := p
  induction edits with
  | nil => exact ⟨⟨.refl _, fun _ _ => rfl⟩, List.Pairwise.nil⟩
  | cons e edits ih =>
      exact ⟨(insertInto_rearranges e _).trans (ih.rearranges.cons e),
        pairwise_insertInto e ih.sorted⟩

/-- The edits of a plan are put in that order, and it is the only one. -/
theorem inOrder_iff : p.InOrder l ↔ l = p.ordered := by
  constructor
  · intro h
    exact (h.rearranges.trans p.ordered_inOrder.rearranges.symm).eq_of_sorted h.sorted
      p.ordered_inOrder.sorted
  · rintro rfl
    exact p.ordered_inOrder

/-- Plans put their edits in one order just if one rearranges the edits of the other. -/
theorem ordered_eq_iff : p.ordered = q.ordered ↔ Rearranges p.edits q.edits := by
  constructor
  · intro h
    have hq := q.ordered_inOrder.rearranges
    rw [← h] at hq
    exact p.ordered_inOrder.rearranges.symm.trans hq
  · intro h
    exact inOrder_iff.mp ⟨p.ordered_inOrder.rearranges.trans h, p.ordered_inOrder.sorted⟩

instance (p : Plan) (l : List Edit) : Decidable (p.InOrder l) := decidable_of_iff _ inOrder_iff.symm

instance (l l' : List Edit) : Decidable (Rearranges l l') :=
  decidable_of_iff ((⟨l⟩ : Plan).ordered = (⟨l'⟩ : Plan).ordered) ordered_eq_iff

/-! ### Plans that do not fit -/

/-- A plan does not fit a text if a range is inverted, ends past the text or cuts a character, or if
an edit ends after the start of one that comes later in the order, whether they are neighbours or
not. -/
def Misfits (p : Plan) (l : List Edit) (t : Text) : Prop :=
  (∃ e ∈ p.edits, e.stop < e.start ∨ t.size < e.stop ∨ ¬ t.IsBoundary e.start ∨
    ¬ t.IsBoundary e.stop) ∨
  ∃ a b, [a, b].Sublist l ∧ b.start < a.stop

lemma rangeError?_eq_none_iff {e : Edit} : rangeError? t e = none ↔
    e.start ≤ e.stop ∧ e.stop ≤ t.size ∧ t.IsBoundary e.start ∧ t.IsBoundary e.stop := by
  rw [rangeError?]
  split_ifs with hout hcuts
  · simp only [false_iff]
    omega
  · simp only [false_iff]
    rintro ⟨-, -, hstart, hstop⟩
    exact hcuts.elim (fun h => h hstart) (fun h => h hstop)
  · push Not at hout hcuts
    exact ⟨fun _ => ⟨hout.1, hout.2, hcuts⟩, fun _ => rfl⟩

/-- If neighbours do not overlap, no two edits do: none of them ends before it starts. -/
theorem overlap?_eq_none_iff (h : ∀ e ∈ l, e.start ≤ e.stop) :
    overlap? l = none ↔ l.Pairwise fun a b => a.stop ≤ b.start := by
  induction l with
  | nil => exact ⟨fun _ => List.Pairwise.nil, fun _ => rfl⟩
  | cons a l ih =>
      have hrest := ih fun e he => h e (List.mem_cons_of_mem a he)
      cases l with
      | nil => exact ⟨fun _ => List.pairwise_singleton _ _, fun _ => rfl⟩
      | cons b l =>
          rw [overlap?, List.pairwise_cons]
          split_ifs with hab
          · simp only [false_iff]
            rintro ⟨ha, -⟩
            exact absurd (ha b List.mem_cons_self) (by omega)
          · rw [hrest, iff_and_self]
            intro hl e he
            rcases List.mem_cons.mp he with rfl | he
            · omega
            · have hbe := (List.pairwise_cons.mp hl).1 e he
              have hb := h b (by simp)
              omega

/-- What it takes for a plan to fit a text. -/
lemma not_misfits_iff (hl : p.InOrder l) : ¬ p.Misfits l t ↔
    (∀ e ∈ l, rangeError? t e = none) ∧ l.Pairwise fun a b => a.stop ≤ b.start := by
  rw [Misfits, not_or, List.pairwise_iff_forall_sublist]
  refine and_congr ⟨fun h e he => ?_, fun h => ?_⟩ ⟨fun h a b hab => ?_, fun h => ?_⟩
  · by_contra hcon
    rw [rangeError?_eq_none_iff] at hcon
    refine h ⟨e, hl.rearranges.perm.subset he, ?_⟩
    by_contra hnone
    push Not at hnone
    exact hcon hnone
  · rintro ⟨e, he, hout⟩
    obtain ⟨hrange, hsize, hstart, hstop⟩ :=
      rangeError?_eq_none_iff.mp (h e (hl.rearranges.perm.symm.subset he))
    rcases hout with hout | hout | hout | hout
    · omega
    · omega
    · exact hout hstart
    · exact hout hstop
  · by_contra hcon
    exact h ⟨a, b, hab, by omega⟩
  · rintro ⟨a, b, hab, hlt⟩
    exact absurd (h hab) (by omega)

/-- A plan that does not fit is refused, and the others are made from the last edit to the first. -/
lemma apply_cases (hl : p.InOrder l) (t : Text) :
    (p.Misfits l t ∧ ∃ e, p.apply t = .error e) ∨
      (¬ p.Misfits l t ∧ p.apply t = .ok (splices t l)) := by
  have hiff := not_misfits_iff (t := t) hl
  rw [apply, ← inOrder_iff.mp hl]
  by_cases hrange : ∀ e ∈ l, rangeError? t e = none
  · have hle : ∀ e ∈ l, e.start ≤ e.stop := fun e he => (rangeError?_eq_none_iff.mp (hrange e he)).1
    rw [List.findSome?_eq_none_iff.mpr hrange]
    cases hoverlap : overlap? l with
    | none => exact .inr ⟨hiff.mpr ⟨hrange, (overlap?_eq_none_iff hle).mp hoverlap⟩, rfl⟩
    | some e =>
        refine .inl ⟨?_, e, rfl⟩
        by_contra hcon
        rw [(overlap?_eq_none_iff hle).mpr (hiff.mp hcon).2] at hoverlap
        cases hoverlap
  · cases herror : l.findSome? (rangeError? t) with
    | none => exact absurd (List.findSome?_eq_none_iff.mp herror) hrange
    | some e => exact .inl ⟨by_contra fun hcon => hrange (hiff.mp hcon).1, e, rfl⟩

/-! ### Copies from the front -/

/-- A text from an offset on, copied from the front: before each edit what it leaves as it is, then
the text of the edit, and at last the rest. -/
def copied (t : Text) : Nat → List Edit → Text
  | here, [] => t.after here
  | here, e :: es => t.slice here e.start ++ e.text ++ copied t e.stop es

/-- Two boundaries cut off a beginning of the text and what goes on from it. -/
lemma exists_before_eq {start stop : Nat} (hstart : t.IsBoundary start) (hstop : t.IsBoundary stop)
    (hle : start ≤ stop) : ∃ a c, t.before start = a ∧ t.slice start stop = c ∧
      t.before stop = a ++ c ∧ size a = start ∧ size (a ++ c) = stop := by
  obtain ⟨a, r, hr, rfl⟩ := isBoundary_iff.mp hstart
  obtain ⟨a', b, hb, rfl⟩ := isBoundary_iff.mp hstop
  obtain ⟨c, rfl, rfl⟩ := exists_append_of_size_le (hr.symm.trans hb) hle
  refine ⟨a, c, ?_, ?_, ?_, rfl, rfl⟩
  · rw [hr, before_size_append]
  · rw [hr, slice_append]
  · rw [hb, before_size_append]

/-- Edits that are made from the last one to the first leave what stands before them, and go on as
the copy does. -/
theorem splices_eq_copied {here : Nat} (hhere : t.IsBoundary here)
    (hstart : ∀ e ∈ l, here ≤ e.start) (hrange : ∀ e ∈ l, rangeError? t e = none)
    (hapart : l.Pairwise fun a b => a.stop ≤ b.start) :
    splices t l = t.before here ++ copied t here l := by
  induction l generalizing here with
  | nil => exact (before_append_after hhere).symm
  | cons e l ih =>
      obtain ⟨hle, -, hbstart, hbstop⟩ := rangeError?_eq_none_iff.mp (hrange e List.mem_cons_self)
      obtain ⟨he, hapart⟩ := List.pairwise_cons.mp hapart
      have hrest := ih hbstop he (fun x hx => hrange x (List.mem_cons_of_mem e hx)) hapart
      -- The rest of the edits leaves all that stands before the end of this one.
      have hmade : splices t (e :: l) = t.before e.start ++ e.text ++ copied t e.stop l := by
        obtain ⟨a, c, hbefore, -, hbefore', hsize, hsize'⟩ := exists_before_eq hbstart hbstop hle
        rw [splices, List.foldr_cons, ← splices, hrest, hbefore, hbefore', splice]
        conv_lhs =>
          rw [← hsize', after_size_append, List.append_assoc a c, ← hsize,
            before_size_append, hsize']
      obtain ⟨a, c, hbefore, hslice, hbefore', -⟩ :=
        exists_before_eq hhere hbstart (hstart e List.mem_cons_self)
      rw [hmade, copied, hbefore, hslice, hbefore', List.append_assoc, List.append_assoc,
        List.append_assoc]

/-! ### Plans as a whole -/

/-- A plan is refused just if it does not fit the text, and otherwise gives the copy in which every
edit is made. -/
theorem apply_spec (h : p.InOrder l) (t : Text) :
    ((∃ e, p.apply t = .error e) ↔ p.Misfits l t) ∧
      (¬ p.Misfits l t → p.apply t = .ok (copied t 0 l)) := by
  rcases apply_cases h t with ⟨hmisfits, hrefused⟩ | ⟨hfits, happly⟩
  · exact ⟨iff_of_true hrefused hmisfits, fun hfits => absurd hmisfits hfits⟩
  · refine ⟨iff_of_false ?_ hfits, fun _ => ?_⟩
    · rintro ⟨e, hrefused⟩
      rw [happly] at hrefused
      cases hrefused
    · obtain ⟨hrange, hapart⟩ := (not_misfits_iff h).mp hfits
      rw [happly, splices_eq_copied (isBoundary_zero t) (fun e _ => e.start.zero_le) hrange hapart,
        before_zero, List.nil_append]

/-- Insertions on both sides of a replacement: they touch it, and do not overlap it. -/
def aroundReplacement : Plan where
  edits := [⟨3, 3, "X".toList⟩, ⟨1, 3, "yy".toList⟩, ⟨3, 3, "Z".toList⟩, ⟨1, 1, "w".toList⟩]

/-- A character of two bytes is replaced, with insertions on both sides. -/
theorem apply_aroundReplacement :
    aroundReplacement.InOrder
        [⟨1, 1, "w".toList⟩, ⟨1, 3, "yy".toList⟩, ⟨3, 3, "X".toList⟩, ⟨3, 3, "Z".toList⟩] ∧
      ¬ aroundReplacement.Misfits
        [⟨1, 1, "w".toList⟩, ⟨1, 3, "yy".toList⟩, ⟨3, 3, "X".toList⟩, ⟨3, 3, "Z".toList⟩]
        "aéb".toList ∧
      aroundReplacement.apply "aéb".toList = .ok "awyyXZb".toList := by
  have hinOrder : aroundReplacement.InOrder
      [⟨1, 1, "w".toList⟩, ⟨1, 3, "yy".toList⟩, ⟨3, 3, "X".toList⟩, ⟨3, 3, "Z".toList⟩] := by decide
  obtain ⟨hrefused, hcopied⟩ := apply_spec hinOrder "aéb".toList
  have happly : aroundReplacement.apply "aéb".toList = .ok "awyyXZb".toList := by decide
  have hfits : ¬ aroundReplacement.Misfits _ "aéb".toList := fun hmisfits => by
    obtain ⟨e, he⟩ := hrefused.mpr hmisfits
    cases happly.symm.trans he
  exact ⟨hinOrder, hfits, (hcopied hfits).trans (by decide)⟩

/-- Edits of different ranges may be given in any order: the text is the same then, or the error. -/
theorem apply_of_rearranges (h : Rearranges p.edits q.edits) (t : Text) :
    p.apply t = q.apply t := by
  rw [apply, apply, ordered_eq_iff.mpr h]

/-- The insertions at the end of the replacement stay as they are, and the others come first. -/
theorem apply_aroundReplacement_rearranged :
    Rearranges aroundReplacement.edits
        [⟨1, 1, "w".toList⟩, ⟨3, 3, "X".toList⟩, ⟨3, 3, "Z".toList⟩, ⟨1, 3, "yy".toList⟩] ∧
      (⟨[⟨1, 1, "w".toList⟩, ⟨3, 3, "X".toList⟩, ⟨3, 3, "Z".toList⟩,
        ⟨1, 3, "yy".toList⟩]⟩ : Plan).apply "aéb".toList = .ok "awyyXZb".toList := by
  have hrearranges : Rearranges aroundReplacement.edits
      [⟨1, 1, "w".toList⟩, ⟨3, 3, "X".toList⟩, ⟨3, 3, "Z".toList⟩, ⟨1, 3, "yy".toList⟩] := by decide
  exact ⟨hrearranges, (apply_of_rearranges (q := ⟨_⟩) hrearranges "aéb".toList).symm.trans
    (by decide)⟩

end Plan

end Externalize
