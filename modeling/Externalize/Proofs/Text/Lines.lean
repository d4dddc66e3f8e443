import Mathlib.Data.List.TakeWhile
import Externalize.Proofs.Text.Boundaries

/-
The lines of a text and the edits above and below them.

* `Text.lines_induction`: a text is its last line, or has a line in front of a text.
* `Text.IsLine`: a text cut into a whole line, what is above it, and what is below it.
* `Text.IsLine.cases`: what lies within one line lies above or below another one, or within it.
* `Text.exists_lines_caret`: the line that holds an offset begins where a line begins, and has no
  line feed.
* `Text.exists_isLine_of_le`: every offset of a text lies in a line of it.
* `Text.lineStart_append`, `Text.lineEnd_append`: the line of an offset in a part of whole lines is
  its line in that part.
* `Text.IsLine.lineAt_eq`: the line that holds an offset in a line is that line.
* `Text.slice_lineEnd_append_return`: a return after a text may become a part of its last line, no
  more.
* `Text.splice_append_left`, `Text.splice_append_right`: a splice in one part of a text leaves the
  other one.
-/
namespace Externalize.Text

variable {t above line below a b : Text} {o : Nat}

/-! ### One line after another -/

/-- A text is its last line, or has a line in front of a text. -/
@[elab_as_elim]
theorem lines_induction {P : Text → Prop} (last : ∀ line, '\n' ∉ line → P line)
    (more : ∀ line rest, '\n' ∉ line → P rest → P (line ++ '\n' :: rest)) (t : Text) : P t := by
  induction hsize : t.length using Nat.strong_induction_on generalizing t with
  | _ n ih =>
      by_cases hfeed : '\n' ∈ t
      · obtain ⟨line, rest, rfl, hline⟩ := List.eq_append_cons_of_mem hfeed
        refine more line rest hline (ih rest.length ?_ rest rfl)
        rw [← hsize, List.length_append, List.length_cons]
        omega
      · exact last t hfeed

lemma terminatedLines_of_notMem (hne : line ≠ []) (hline : '\n' ∉ line) :
    terminatedLines line = [line] := by
  induction line with
  | nil => exact absurd rfl hne
  | cons c r ih =>
      obtain ⟨hc, hr⟩ := not_or.mp (mt List.mem_cons.mpr hline)
      rw [terminatedLines, if_neg (Ne.symm hc)]
      cases r with
      | nil => rfl
      | cons d r => rw [ih (List.cons_ne_nil d r) hr]

lemma terminatedLines_append (hline : '\n' ∉ line) (rest : Text) :
    terminatedLines (line ++ '\n' :: rest) = (line ++ ['\n']) :: terminatedLines rest := by
  induction line with
  | nil => rfl
  | cons c r ih =>
      obtain ⟨hc, hr⟩ := not_or.mp (mt List.mem_cons.mpr hline)
      rw [List.cons_append, terminatedLines, if_neg (Ne.symm hc), ih hr]
      rfl

lemma count_line_append (hline : '\n' ∉ line) (rest : Text) :
    (line ++ '\n' :: rest).count '\n' = rest.count '\n' + 1 := by
  rw [List.count_append, List.count_eq_zero_of_not_mem hline, List.count_cons_self, Nat.zero_add]

/-- What a character parts is parted at its first place, or after that. -/
lemma append_cons_cases {c : Char} {rest : Text} (hline : c ∉ line)
    (h : line ++ c :: rest = a ++ c :: b) :
    a = line ∧ b = rest ∨ ∃ mid, a = line ++ c :: mid ∧ rest = mid ++ c :: b := by
  rcases List.append_eq_append_iff.mp h with ⟨s, rfl, hs⟩ | ⟨s, rfl, hs⟩
  · cases s with
    | nil => exact .inl ⟨List.append_nil line, (List.cons.inj hs).2.symm⟩
    | cons x s =>
        obtain ⟨rfl, hrest⟩ := List.cons.inj hs
        exact .inr ⟨s, rfl, hrest⟩
  · cases s with
    | nil => exact .inl ⟨(List.append_nil a).symm, (List.cons.inj hs).2⟩
    | cons x s =>
        obtain rfl : c = x := (List.cons.inj hs).1
        simp at hline

/-! ### Whole lines -/

/-- A text is empty or ends with a line feed. -/
def EndsLine (a : Text) : Prop := ∀ c ∈ a.getLast?, c = '\n'

/-- A text is empty or begins with a line feed. -/
def BeginsAfterLine (b : Text) : Prop := ∀ c ∈ b.head?, c = '\n'

lemma endsLine_nil : EndsLine [] := fun _ hc => nomatch hc

lemma endsLine_concat (a : Text) : EndsLine (a ++ ['\n']) := fun c hc => by simpa using hc.symm

/-- A line in front of a text changes nothing at the end of it. -/
lemma endsLine_append_cons (a rest : Text) : EndsLine (a ++ '\n' :: rest) ↔ EndsLine rest := by
  rw [EndsLine, EndsLine, List.getLast?_append, List.getLast?_cons]
  cases rest.getLast? <;> simp

lemma beginsAfterLine_nil : BeginsAfterLine [] := fun _ hc => nomatch hc

lemma beginsAfterLine_cons (b : Text) : BeginsAfterLine ('\n' :: b) := fun c hc => by
  simpa using hc.symm

/-- A text is cut into a line, what is above it, and what is below it. -/
structure IsLine (t above line below : Text) : Prop where
  append : t = above ++ line ++ below
  above : EndsLine above
  line : '\n' ∉ line
  below : BeginsAfterLine below

/-- A line in front of a text is above each line of it. -/
lemma IsLine.line_append (h : IsLine t above line below) (first : Text) :
    IsLine (first ++ '\n' :: t) (first ++ '\n' :: above) line below where
  append := by
    rw [h.append]
    simp only [List.append_assoc, List.cons_append]
  above := (endsLine_append_cons first above).mpr h.above
  line := h.line
  below := h.below

lemma notMem_takeWhile (t : Text) : '\n' ∉ t.takeWhile (· != '\n') := by
  intro hmem
  simpa using List.all_eq_true.mp List.all_takeWhile _ hmem

lemma EndsLine.mem_of_append (h : EndsLine (a ++ b)) (hb : b ≠ []) : '\n' ∈ b := by
  obtain ⟨init, c, rfl⟩ := (List.eq_nil_or_concat b).resolve_left hb
  have hc : c = '\n' := h c (by simp)
  simp [hc]

/-- The beginning of a text goes on to the end of its line. -/
lemma exists_isLine (above part post : Text) (habove : EndsLine above) (hpart : '\n' ∉ part) :
    ∃ line below, IsLine (above ++ part ++ post) above line below ∧ part <+: line := by
  refine ⟨part ++ post.takeWhile (· != '\n'), post.dropWhile (· != '\n'), ⟨?_, habove, ?_, ?_⟩,
    List.prefix_append _ _⟩
  · simp only [List.append_assoc, List.takeWhile_append_dropWhile]
  · exact List.not_mem_append hpart (notMem_takeWhile post)
  · intro c hc
    have hnot := List.head?_dropWhile_not (· != '\n') post
    rw [hc] at hnot
    simpa using hnot

/-- What lies within one line lies above another line, within it, or below it. -/
theorem IsLine.cases {mid : Text} (h : IsLine t above line below) (ht : t = a ++ mid ++ b)
    (ha : EndsLine a) (hmid : '\n' ∉ mid) :
    size (a ++ mid) < size above ∨ (a = above ∧ mid <+: line) ∨ size (above ++ line) < size a := by
  have hcut : a ++ (mid ++ b) = above ++ (line ++ below) := by
    rw [← List.append_assoc, ← List.append_assoc, ← ht, h.append]
  rcases Nat.lt_or_ge (size a) (size above) with hlt | hge
  · -- the text between the two beginnings ends with a line feed
    left
    obtain ⟨x, rfl, hx⟩ := exists_append_of_size_le hcut hlt.le
    have hxne : x ≠ [] := by
      rintro rfl
      simp at hlt
    by_contra hcon
    have hsize : size x ≤ size mid := by
      simp only [size_append] at hcon
      omega
    obtain ⟨y, rfl, -⟩ := exists_append_of_size_le hx.symm hsize
    exact hmid (List.mem_append_left y (h.above.mem_of_append hxne))
  · obtain ⟨x, rfl, hx⟩ := exists_append_of_size_le hcut.symm hge
    rcases eq_or_ne x [] with rfl | hxne
    · right
      left
      rw [List.nil_append] at hx
      refine ⟨List.append_nil above, ?_⟩
      rcases Nat.lt_or_ge (size line) (size mid) with hlt | hge'
      · obtain ⟨y, rfl, hy⟩ := exists_append_of_size_le hx hlt.le
        cases y with
        | nil => simp at hlt
        | cons c y =>
            obtain rfl : c = '\n' := h.below c (by simp [hy])
            exact absurd (by simp) hmid
      · obtain ⟨y, rfl, -⟩ := exists_append_of_size_le hx.symm hge'
        exact List.prefix_append mid y
    · right
      right
      by_contra hcon
      have hsize : size x ≤ size line := by
        simp only [size_append] at hcon
        omega
      obtain ⟨y, rfl, -⟩ := exists_append_of_size_le hx.symm hsize
      exact h.line (List.mem_append_left y (ha.mem_of_append hxne))

/-- A line of a text of two lines is one of them. -/
lemma IsLine.prefix_or_prefix {first second : Text}
    (h : IsLine (first ++ '\n' :: second) above line below) (hfirst : '\n' ∉ first)
    (hsecond : '\n' ∉ second) : first <+: line ∨ second <+: line := by
  have hcut : first ++ '\n' :: second = first ++ ['\n'] ++ second ++ [] := by
    rw [List.append_nil, List.append_assoc, List.singleton_append]
  rcases h.cases (List.nil_append _).symm endsLine_nil hfirst with hafter | ⟨-, hprefix⟩ | hnone
  · rcases h.cases hcut (endsLine_concat first) hsecond with hnone | ⟨-, hprefix⟩ | hbefore
    · have hsize := congrArg size (hcut.symm.trans h.append)
      simp only [size_append, size_nil] at hsize hnone
      omega
    · exact .inr hprefix
    · have hfeed : size ['\n'] = 1 := rfl
      simp only [size_append, size_nil, hfeed] at hafter hbefore
      omega
  · exact .inl hprefix
  · exact absurd hnone (Nat.not_lt_zero _)

/-- A boundary in a line cuts it. -/
lemma IsLine.exists_part (h : IsLine t above line below) (ho : IsBoundary t o)
    (habove : size above ≤ o) (hline : o ≤ size (above ++ line)) :
    ∃ part rest, line = part ++ rest ∧ size (above ++ part) = o := by
  obtain ⟨a, r, hr, rfl⟩ := isBoundary_iff.mp ho
  have hcut : above ++ (line ++ below) = a ++ r := by rw [← List.append_assoc, ← h.append, hr]
  obtain ⟨part, rfl, hpart⟩ := exists_append_of_size_le hcut habove
  have hsize : size part ≤ size line := by
    simp only [size_append] at hline
    omega
  obtain ⟨rest, rfl, -⟩ := exists_append_of_size_le hpart.symm hsize
  exact ⟨part, rest, rfl, rfl⟩

/-! ### Offsets in parts of a text -/

lemma before_append_of_le (h : o ≤ size a) (b : Text) : before (a ++ b) o = before a o := by
  induction a generalizing o with
  | nil =>
      obtain rfl : o = 0 := Nat.le_zero.mp h
      rw [before_zero, before_zero]
  | cons c a ih =>
      rw [List.cons_append, before, before]
      split_ifs with hc
      · rw [ih (by rw [size_cons] at h; omega)]
      · rfl

lemma after_append_of_le (h : o ≤ size a) (b : Text) : after (a ++ b) o = after a o ++ b := by
  induction a generalizing o with
  | nil =>
      obtain rfl : o = 0 := Nat.le_zero.mp h
      rw [List.nil_append, after_zero, after_zero, List.nil_append]
  | cons c a ih =>
      rw [List.cons_append, after, after]
      split_ifs with hc
      · rfl
      · exact ih (by rw [size_cons] at h; omega)

lemma before_append_right (a b : Text) (o : Nat) :
    before (a ++ b) (size a + o) = a ++ before b o := by
  induction a with
  | nil => simp
  | cons c a ih =>
      rw [List.cons_append, before, size_cons, if_pos (by omega),
        show c.utf8Size + size a + o - c.utf8Size = size a + o by omega, ih, List.cons_append]

lemma after_append_right (a b : Text) (o : Nat) : after (a ++ b) (size a + o) = after b o := by
  induction a with
  | nil => simp
  | cons c a ih =>
      have hpos := c.utf8Size_pos
      rw [List.cons_append, after, size_cons, if_neg (by omega),
        show c.utf8Size + size a + o - c.utf8Size = size a + o by omega, ih]

/-! ### The line of an offset -/

/-- An offset passes over a character at most, and no line feed. -/
lemma exists_gap (t : Text) (o : Nat) : ∃ g, t = before t o ++ g ++ after t o ∧ '\n' ∉ g := by
  induction t generalizing o with
  | nil => exact ⟨[], rfl, List.not_mem_nil⟩
  | cons c t ih =>
      have hpos := c.utf8Size_pos
      rw [before, after]
      by_cases hc : c.utf8Size ≤ o
      · obtain ⟨g, hg, hnone⟩ := ih (o - c.utf8Size)
        rw [if_pos hc, if_neg (by omega)]
        exact ⟨g, congrArg (c :: ·) hg, hnone⟩
      · rw [if_neg hc]
        split_ifs with ho
        · exact ⟨[], rfl, List.not_mem_nil⟩
        · have hrest : o - c.utf8Size = 0 := by omega
          refine ⟨[c], by rw [hrest, after_zero]; rfl, ?_⟩
          rw [List.mem_singleton]
          rintro rfl
          exact hc (Nat.pos_of_ne_zero ho)

lemma size_after_le (t : Text) (o : Nat) : size (after t o) ≤ size t - o := by
  induction t generalizing o with
  | nil => exact Nat.zero_le _
  | cons c t ih =>
      rw [after]
      split_ifs with ho
      · rw [ho, Nat.sub_zero]
      · have hrest := ih (o - c.utf8Size)
        rw [size_cons]
        omega

lemma le_lineEnd (ho : o ≤ size t) : o ≤ lineEnd t o := by
  have hafter := size_after_le t o
  rw [lineEnd]
  omega

/-- The last line of a text, which may be empty. -/
lemma exists_lastLine (a : Text) : ∃ above part, a = above ++ part ∧
    size above = size (a.reverse.dropWhile (· != '\n')) ∧ EndsLine above ∧ '\n' ∉ part := by
  refine ⟨(a.reverse.dropWhile (· != '\n')).reverse, (a.reverse.takeWhile (· != '\n')).reverse, ?_,
    size_reverse _, ?_, ?_⟩
  · rw [← List.reverse_append, List.takeWhile_append_dropWhile, List.reverse_reverse]
  · intro c hc
    have hnot := List.head?_dropWhile_not (· != '\n') a.reverse
    rw [List.getLast?_reverse] at hc
    rw [hc] at hnot
    simpa using hnot
  · rw [List.mem_reverse]
    exact notMem_takeWhile _

lemma dropReturn_subset (line : Text) : dropReturn line ⊆ line := by
  obtain ⟨r, hr⟩ := dropReturn_prefix line
  intro c hc
  rw [hr]
  exact List.mem_append_left r hc

/-- The line that holds an offset begins where a line begins, and has no line feed. -/
theorem exists_lines_caret (t : Text) (o : Nat) : ∃ above mid below, t = above ++ mid ++ below ∧
    size above = lineStart t o ∧ size (above ++ mid) = lineEnd t o ∧ EndsLine above ∧
    '\n' ∉ mid := by
  obtain ⟨g, ht, hg⟩ := exists_gap t o
  obtain ⟨above, part, hbefore, habove, hends, hpart⟩ := exists_lastLine (before t o)
  obtain ⟨r, hr⟩ := firstLine_prefix (after t o)
  refine ⟨above, part ++ g ++ dropReturn (firstLine (after t o)), r, ?_, habove, ?_, hends, ?_⟩
  · calc t = before t o ++ g ++ after t o := ht
      _ = above ++ part ++ g ++ (dropReturn (firstLine (after t o)) ++ r) := by
        rw [← hbefore, ← hr]
      _ = _ := by simp only [List.append_assoc]
  · have hsize := congrArg size ht
    rw [hbefore] at hsize
    simp only [size_append, lineEnd] at hsize ⊢
    omega
  · exact List.not_mem_append (List.not_mem_append hpart hg) fun hmem =>
      notMem_takeWhile _ (dropReturn_subset _ hmem)

lemma lineStart_le_lineEnd (t : Text) (o : Nat) : lineStart t o ≤ lineEnd t o := by
  obtain ⟨above, mid, below, -, hstart, hstop, -⟩ := exists_lines_caret t o
  rw [← hstart, ← hstop, size_append]
  exact Nat.le_add_right _ _

/-- An offset in a text is in a line of it. -/
theorem exists_isLine_of_le (ho : o ≤ size t) : ∃ above line below, IsLine t above line below ∧
    size above = lineStart t o ∧ o ≤ size (above ++ line) := by
  obtain ⟨g, ht, hg⟩ := exists_gap t o
  obtain ⟨above, part, hbefore, habove, hends, hpart⟩ := exists_lastLine (before t o)
  obtain ⟨line, below, hline, hprefix⟩ := exists_isLine above (part ++ g) (after t o) hends
    (List.not_mem_append hpart hg)
  have hcut : above ++ (part ++ g) ++ after t o = t := by
    rw [← List.append_assoc, ← hbefore, ← ht]
  rw [hcut] at hline
  refine ⟨above, line, below, hline, habove, ?_⟩
  obtain ⟨r, rfl⟩ := hprefix
  have hafter := size_after_le t o
  have hsize := congrArg size hcut
  simp only [size_append] at hsize ⊢
  omega

lemma dropWhile_reverse_of_endsLine (h : EndsLine a) :
    a.reverse.dropWhile (· != '\n') = a.reverse := by
  cases hlast : a.reverse with
  | nil => rfl
  | cons c r =>
      obtain rfl : c = '\n' := h c (by rw [← List.head?_reverse, hlast]; rfl)
      rfl

lemma firstLine_append (line : Text) (hbelow : BeginsAfterLine below) :
    firstLine (line ++ below) = firstLine line := by
  have hnone : below.takeWhile (· != '\n') = [] := by
    cases below with
    | nil => rfl
    | cons c below =>
        obtain rfl : c = '\n' := hbelow c rfl
        rfl
  rw [firstLine, firstLine, List.takeWhile_append, hnone, List.append_nil]
  split_ifs with hlength
  · exact ((List.takeWhile_prefix _).eq_of_length hlength).symm
  · rfl

lemma firstLine_of_notMem (hline : '\n' ∉ line) : firstLine line = line :=
  List.takeWhile_eq_self_iff.mpr fun _ hc => bne_iff_ne.mpr fun heq => hline (heq ▸ hc)

/-- The line of the place where two texts meet ends in the second one. -/
lemma lineEnd_size_append (a b : Text) :
    lineEnd (a ++ b) (size a) = size (a ++ dropReturn (firstLine b)) := by
  rw [lineEnd, after_size_append]
  simp only [size_append]
  omega

/-- It begins where the first one has its last line feed. -/
lemma lineStart_size_append {part : Text} (habove : EndsLine above)
    (hpart : '\n' ∉ part) (r : Text) :
    lineStart (above ++ part ++ r) (size (above ++ part)) = size above := by
  have hall : ∀ c ∈ part.reverse, (c != '\n') = true := fun c hc =>
    bne_iff_ne.mpr fun heq => hpart (heq ▸ List.mem_reverse.mp hc)
  rw [lineStart, before_size_append, List.reverse_append, List.dropWhile_append_of_pos hall,
    dropWhile_reverse_of_endsLine habove, size_reverse]

/-! ### Parts of whole lines -/

/-- In a text that is a part of another one, cut off between lines, lines begin where they do
there. -/
theorem lineStart_append (ha : EndsLine a) (mid b : Text) (ho : o ≤ size mid) :
    lineStart (a ++ mid ++ b) (size a + o) = size a + lineStart mid o := by
  rw [lineStart, lineStart, List.append_assoc, before_append_right, before_append_of_le ho,
    List.reverse_append, List.dropWhile_append]
  split_ifs with hnone
  · rw [List.isEmpty_iff.mp hnone, dropWhile_reverse_of_endsLine ha, size_reverse, size_nil,
      Nat.add_zero]
  · rw [size_append, size_reverse, Nat.add_comm]

/-- They end where they do there, too. -/
theorem lineEnd_append (hb : BeginsAfterLine b) (a mid : Text) (ho : o ≤ size mid) :
    lineEnd (a ++ mid ++ b) (size a + o) = size a + lineEnd mid o := by
  obtain ⟨x, hx⟩ := after_suffix mid o
  have hsize := congrArg size hx
  rw [size_append] at hsize
  rw [lineEnd, lineEnd, List.append_assoc, after_append_right, after_append_of_le ho,
    firstLine_append _ hb]
  simp only [size_append]
  omega

lemma slice_append_mid {start stop : Nat} (hstart : IsBoundary mid start) (hstop : stop ≤ size mid)
    (a b : Text) : slice (a ++ mid ++ b) (size a + start) (size a + stop) =
      slice mid start stop := by
  have hcut := congrArg size (before_append_after hstart)
  rw [size_append, hstart] at hcut
  rw [slice, slice, List.append_assoc, after_append_right, after_append_of_le hstart.le_size,
    Nat.add_sub_add_left, before_append_of_le (by omega)]

lemma lineAt_append (ha : EndsLine a) (hb : BeginsAfterLine b) (ho : o ≤ size mid) :
    lineAt (a ++ mid ++ b) (size a + o) = lineAt mid o := by
  rw [lineAt, lineAt, lineStart_append ha mid b ho, lineEnd_append hb a mid ho,
    slice_append_mid (isBoundary_lineStart mid o) (isBoundary_lineEnd mid o).le_size]

lemma lineStart_of_notMem (hline : '\n' ∉ line) (o : Nat) : lineStart line o = 0 := by
  obtain ⟨r, hr⟩ := before_prefix line o
  rw [lineStart, List.dropWhile_eq_nil_iff.mpr, size_nil]
  intro c hc
  rw [bne_iff_ne]
  rintro rfl
  exact hline (hr ▸ List.mem_append_left r (List.mem_reverse.mp hc))

/-- A text without line feeds is its only line. -/
lemma lineAt_of_notMem {part rest : Text} (h : '\n' ∉ part ++ rest) :
    lineAt (part ++ rest) (size part) = part ++ dropReturn rest := by
  have hrest : '\n' ∉ rest := fun hmem => h (List.mem_append_right part hmem)
  have hstart : lineStart (part ++ rest) (size part) = size [] := lineStart_of_notMem h _
  have hstop : lineEnd (part ++ rest) (size part) = size ([] ++ (part ++ dropReturn rest)) := by
    rw [lineEnd_size_append, firstLine_of_notMem hrest, List.nil_append]
  obtain ⟨r, hr⟩ := dropReturn_prefix rest
  have hcut : part ++ rest = [] ++ ((part ++ dropReturn rest) ++ r) := by
    rw [List.nil_append, List.append_assoc, ← hr]
  rw [lineAt, hstart, hstop, hcut, slice_append]

/-- The line that holds an offset in a line is that line, without the return that may end it. -/
theorem IsLine.lineAt_eq {part rest : Text} (h : IsLine t above (part ++ rest) below) :
    t.lineAt (size (above ++ part)) = part ++ dropReturn rest := by
  rw [h.append, size_append, lineAt_append h.above h.below (by rw [size_append]; omega),
    lineAt_of_notMem h.line]

/-! ### A return after a text -/

/-- A return after the text may end the line of an offset in it. What ended that line before, a
return too, is part of the line then. -/
lemma lineEnd_append_return (ho : o ≤ size t) : lineEnd (t ++ ['\r']) o = lineEnd t o ∨
    lineEnd (t ++ ['\r']) o = size t ∧ ∃ u, t = u ++ ['\r'] ∧ lineEnd t o = size u := by
  obtain ⟨a, ha⟩ := after_suffix t o
  have hsize := congrArg size ha
  rw [size_append] at hsize
  have hrest : after (t ++ ['\r']) o = after t o ++ ['\r'] := after_append_of_le ho _
  by_cases hfeed : '\n' ∈ after t o
  · left
    have hfirst : firstLine (after t o ++ ['\r']) = firstLine (after t o) := by
      rw [firstLine, firstLine, List.takeWhile_append, if_neg]
      intro hlength
      have hall := (List.takeWhile_prefix _).eq_of_length hlength
      exact notMem_takeWhile _ (hall ▸ hfeed)
    rw [lineEnd, lineEnd, hrest, hfirst, size_append, size_append]
    omega
  · have hlater : lineEnd (t ++ ['\r']) o = size t := by
      rw [lineEnd, hrest, firstLine_of_notMem (by simpa using hfeed),
        dropReturn_concat, size_append,
        size_append]
      omega
    rw [hlater]
    rw [lineEnd, firstLine_of_notMem hfeed, dropReturn]
    split_ifs with hreturn
    · have hlast := List.dropLast_append_getLast? _ hreturn
      refine .inr ⟨rfl, a ++ (after t o).dropLast, ?_, ?_⟩
      · rw [List.append_assoc, hlast, ← ha]
      · rw [size_append]
        omega
    · left
      omega

/-- A slice up to the end of a line is the same if a return follows the text, or ends with that
return. -/
lemma slice_lineEnd_append_return {first : Nat} (hfirst : IsBoundary t first) (ho : o ≤ size t) :
    slice (t ++ ['\r']) first (max (lineEnd (t ++ ['\r']) o) first) =
        slice t first (max (lineEnd t o) first) ∨
      slice (t ++ ['\r']) first (max (lineEnd (t ++ ['\r']) o) first) =
        slice t first (max (lineEnd t o) first) ++ ['\r'] := by
  have hle := hfirst.le_size
  have hsame : ∀ last, last ≤ size t → slice (t ++ ['\r']) first last = slice t first last :=
    fun last hlast => by simpa using slice_append_mid hfirst hlast [] ['\r']
  rcases lineEnd_append_return ho with heq | ⟨hlast, u, hu, hend⟩
  · left
    rw [heq, hsame _ (Nat.max_le.mpr ⟨(isBoundary_lineEnd t o).le_size, hle⟩)]
  · have hreturn : size t = size u + 1 := by
      rw [hu, size_append]
      rfl
    rw [hlast, hend, Nat.max_eq_left hle, hsame _ le_rfl]
    rcases Nat.lt_or_ge (size u) first with hlt | hge
    · left
      rw [Nat.max_eq_right hlt.le, show size t = first by omega]
    · right
      obtain ⟨a, r, hr, rfl⟩ := isBoundary_iff.mp hfirst
      obtain ⟨w, rfl, -⟩ := exists_append_of_size_le (hr.symm.trans hu) hge
      rw [Nat.max_eq_left hge, hu, List.append_assoc, slice_append_right, slice_append]

lemma lineStart_append_return (ho : o ≤ size t) :
    lineStart (t ++ ['\r']) o = lineStart t o := by
  simpa using lineStart_append endsLine_nil t ['\r'] ho

lemma lineAt_append_return (ho : o ≤ size t) :
    lineAt (t ++ ['\r']) o = lineAt t o ∨ lineAt (t ++ ['\r']) o = lineAt t o ++ ['\r'] := by
  have hslice := slice_lineEnd_append_return (isBoundary_lineStart t o) ho
  have hle := lineStart_le_lineEnd (t ++ ['\r']) o
  rw [lineStart_append_return ho] at hle
  rw [Nat.max_eq_left hle, Nat.max_eq_left (lineStart_le_lineEnd t o)] at hslice
  rwa [lineAt, lineAt, lineStart_append_return ho]

/-! ### Splices -/

variable {start stop : Nat} {new : Text}

/-- A splice in the first part of a text leaves the second one. -/
theorem splice_append_left (hstart : start ≤ size a) (hstop : stop ≤ size a) (b new : Text) :
    splice (a ++ b) start stop new = splice a start stop new ++ b := by
  rw [splice, splice, before_append_of_le hstart, after_append_of_le hstop,
    List.append_assoc _ (after a stop)]

/-- A splice in the second part of a text leaves the first one. -/
theorem splice_append_right (a b : Text) (start stop : Nat) (new : Text) :
    splice (a ++ b) (size a + start) (size a + stop) new = a ++ splice b start stop new := by
  rw [splice, splice, before_append_right, after_append_right]
  simp only [List.append_assoc]

/-- A splice of nothing puts the new text between two parts. -/
lemma splice_size_append (a b new : Text) :
    splice (a ++ b) (size a) (size a) new = a ++ new ++ b := by
  rw [splice, before_size_append, after_size_append]

/-- A splice of a part of a text puts the new text in its place. -/
lemma splice_mid (a mid b new : Text) :
    splice (a ++ mid ++ b) (size a) (size (a ++ mid)) new = a ++ new ++ b := by
  rw [splice, after_size_append, List.append_assoc a mid, before_size_append]

/-- A splice above a line leaves the line and what is below it. -/
theorem IsLine.splice_above (h : IsLine t above line below) (hle : start ≤ stop)
    (hstop : stop < size above) (new : Text) :
    IsLine (t.splice start stop new) (above.splice start stop new) line below where
  append := by
    rw [h.append, List.append_assoc, splice_append_left (by omega) hstop.le, List.append_assoc]
  above := by
    obtain ⟨init, c, rfl⟩ := (List.eq_nil_or_concat above).resolve_left fun hnil => by
      rw [hnil] at hstop
      cases hstop
    rw [List.concat_eq_append] at hstop ⊢
    obtain rfl : c = '\n' := h.above c (by simp)
    have hinit : stop ≤ size init := by
      rw [size_append] at hstop
      exact Nat.le_of_lt_succ hstop
    rw [splice_append_left (hle.trans hinit) hinit]
    exact endsLine_concat _
  line := h.line
  below := h.below

/-- A splice below a line leaves the line and what is above it. -/
theorem IsLine.splice_below (h : IsLine t above line below) (hle : start ≤ stop)
    (hstart : size (above ++ line) < start) (hstop : stop ≤ size t) (new : Text) :
    ∃ below', IsLine (t.splice start stop new) above line below' := by
  cases below with
  | nil =>
      rw [h.append, List.append_nil] at hstop
      omega
  | cons c below =>
      obtain rfl : c = '\n' := h.below c rfl
      have hlf : size ['\n'] = 1 := rfl
      obtain ⟨i, rfl⟩ : ∃ i, start = size (above ++ line ++ ['\n']) + i :=
        ⟨start - size (above ++ line ++ ['\n']), by rw [size_append, hlf]; omega⟩
      obtain ⟨j, rfl⟩ : ∃ j, stop = size (above ++ line ++ ['\n']) + j :=
        ⟨stop - size (above ++ line ++ ['\n']), by omega⟩
      refine ⟨'\n' :: splice below i j new, ⟨?_, h.above, h.line, beginsAfterLine_cons _⟩⟩
      rw [h.append, List.append_cons (above ++ line) '\n' below, splice_append_right,
        List.append_assoc]
      rfl

end Externalize.Text
