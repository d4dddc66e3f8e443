import Mathlib.Tactic
import Externalize.Key

/-
What the key of a text is made of.

* `Key.runs`: the maximal runs of key characters in a text. `Key.runs_append_cons` and
  `Key.runs_of_forall` are its equations: any other character ends a run, and what has no other
  character is one run.
* `Key.normalize_eq`: **the key of a text is the runs of its lower case, joined by underscores**.
* `Text.lowercaseAmid`: lower case with the form that a sigma has at the end of a word; by
  `Key.runs_lowercaseAmid` the runs are the same.
* `Key.runs_spaced`: the runs of words that separators part are those of the words, whatever the
  separators.
-/
namespace Externalize

open Text

namespace Key

variable {a b s t r : Text} {c : Char} {gap : Bool}

/-! ### Runs -/

/-- The maximal runs of key characters in a text, in their order. -/
def runs (t : Text) : List Text := (t.splitOnP fun c => !isKeyChar c).filter fun r => !r.isEmpty

/-- A character that is no key character parts the runs before it from those after it. -/
theorem runs_append_cons (hc : isKeyChar c = false) (a b : Text) :
    runs (a ++ c :: b) = runs a ++ runs b := by
  rw [runs, List.splitOnP_append_cons a b (by simpa using hc), List.filter_append]
  rfl

/-- Key characters alone are one run. -/
theorem runs_of_forall (hne : t ≠ []) (h : ∀ c ∈ t, isKeyChar c = true) : runs t = [t] := by
  rw [runs, List.splitOnP_eq_singleton fun c hc => by simpa using h c hc]
  simp [hne]

@[simp] lemma runs_nil : runs [] = [] := by simp [runs, List.splitOnP_nil]

lemma runs_cons (hc : isKeyChar c = false) (b : Text) : runs (c :: b) = runs b :=
  runs_append_cons hc [] b

/-- What has no key characters adds no run to what follows it. -/
lemma runs_append_of_forall (h : ∀ c ∈ s, isKeyChar c = false) (b : Text) :
    runs (s ++ b) = runs b := by
  induction s with
  | nil => rfl
  | cons c s ih =>
      obtain ⟨hc, hs⟩ := List.forall_mem_cons.mp h
      rw [List.cons_append, runs_cons hc, ih hs]

/-- Characters that are no key characters part the runs before them from those after them. -/
lemma runs_append_append (hne : s ≠ []) (h : ∀ c ∈ s, isKeyChar c = false) (a b : Text) :
    runs (a ++ s ++ b) = runs a ++ runs b := by
  obtain ⟨c, s, rfl⟩ := List.exists_cons_of_ne_nil hne
  obtain ⟨hc, hs⟩ := List.forall_mem_cons.mp h
  rw [List.append_assoc, List.cons_append, runs_append_cons hc, runs_append_of_forall hs]

/-- A text has key characters only, or a first character that is none. -/
@[elab_as_elim]
theorem runs_induction {P : Text → Prop} (last : ∀ a, (∀ c ∈ a, isKeyChar c = true) → P a)
    (more : ∀ a c b, (∀ c ∈ a, isKeyChar c = true) → isKeyChar c = false → P b → P (a ++ c :: b))
    (t : Text) : P t := by
  induction hlength : t.length using Nat.strong_induction_on generalizing t with
  | _ n ih =>
      have hcut := List.takeWhile_append_dropWhile (p := isKeyChar) (l := t)
      have hrun : ∀ c ∈ t.takeWhile isKeyChar, isKeyChar c = true := fun c hc =>
        List.all_eq_true.mp List.all_takeWhile c hc
      cases hrest : t.dropWhile isKeyChar with
      | nil =>
          rw [hrest, List.append_nil] at hcut
          exact last t (hcut ▸ hrun)
      | cons c b =>
          have hc := List.head?_dropWhile_not isKeyChar t
          rw [hrest] at hc hcut
          rw [← hcut]
          refine more _ c b hrun (by simpa using hc) (ih b.length ?_ b rfl)
          rw [← hlength, ← hcut, List.length_append, List.length_cons]
          omega

/-- A run is not empty and has key characters only. -/
lemma of_mem_runs (hr : r ∈ runs t) : r ≠ [] ∧ ∀ c ∈ r, isKeyChar c = true := by
  induction t using runs_induction with
  | last a ha =>
      rcases eq_or_ne a [] with rfl | hne
      · simp at hr
      · rw [runs_of_forall hne ha, List.mem_singleton] at hr
        exact hr ▸ ⟨hne, ha⟩
  | more a c b ha hc ih =>
      rw [runs_append_cons hc] at hr
      rcases List.mem_append.mp hr with hr | hr
      · rcases eq_or_ne a [] with rfl | hne
        · simp at hr
        · rw [runs_of_forall hne ha, List.mem_singleton] at hr
          exact hr ▸ ⟨hne, ha⟩
      · exact ih hr

/-! ### Runs joined -/

/-- Texts with one underscore between any two neighbours. -/
def join (l : List Text) : Text := ['_'].intercalate l

@[simp] lemma join_nil : join [] = [] := rfl

lemma join_cons (t : Text) (l : List Text) :
    join (t :: l) = if l = [] then t else t ++ '_' :: join l := by
  cases l with
  | nil => simp [join]
  | cons u l => simp [join, List.intercalate_cons_cons]

/-- Without a run nothing is left to join, and only then. -/
lemma join_runs_eq_nil_iff : join (runs t) = [] ↔ runs t = [] := by
  cases hruns : runs t with
  | nil => simp
  | cons r l =>
      have hne : r ≠ [] := (of_mem_runs (t := t) (hruns ▸ List.mem_cons_self)).1
      rw [join_cons]
      split_ifs <;> simp [hne]

/-- Key characters are squeezed as they are. -/
lemma squeeze_append (ha : ∀ c ∈ a, isKeyChar c = true) (b : Text) :
    squeeze false (a ++ b) = a ++ squeeze false b := by
  induction a with
  | nil => rfl
  | cons c a ih =>
      obtain ⟨hc, ha⟩ := List.forall_mem_cons.mp ha
      rw [List.cons_append, squeeze, if_pos hc, ih ha, List.cons_append]

/-- After a key character a gap makes no difference. -/
lemma squeeze_append_of_ne_nil (hne : a ≠ []) (ha : ∀ c ∈ a, isKeyChar c = true) (b : Text) :
    squeeze gap (a ++ b) = a ++ squeeze false b := by
  obtain ⟨c, a, rfl⟩ := List.exists_cons_of_ne_nil hne
  obtain ⟨hc, ha⟩ := List.forall_mem_cons.mp ha
  rw [List.cons_append, squeeze, if_pos hc, squeeze_append ha, List.cons_append]

/-- The end of a text that is trimmed away whole takes nothing more with it from key characters. -/
lemma dropEndWhile_append (ha : ∀ c ∈ a, isKeyChar c = true) (b : Text) :
    Text.dropEndWhile (· == '_') (a ++ b) = a ++ Text.dropEndWhile (· == '_') b := by
  induction a with
  | nil => rfl
  | cons c a ih =>
      obtain ⟨hc, ha⟩ := List.forall_mem_cons.mp ha
      rw [List.cons_append, Text.dropEndWhile_cons, if_neg, ih ha, List.cons_append]
      simp [ne_underscore_of_isKeyChar hc]

/-- A squeezed text without the underscores at its ends is its runs, joined. -/
lemma dropEndWhile_squeeze (t : Text) :
    Text.dropEndWhile (· == '_') (squeeze true t) = join (runs t) := by
  induction t using runs_induction with
  | last a ha =>
      rcases eq_or_ne a [] with rfl | hne
      · rw [runs_nil]
        rfl
      · have hsqueeze : squeeze true (a ++ []) = a ++ squeeze false [] :=
          squeeze_append_of_ne_nil hne ha []
        have hdrop := dropEndWhile_append ha []
        have hnil : Text.dropEndWhile (· == '_') [] = [] := rfl
        simp only [List.append_nil, squeeze, hnil] at hsqueeze hdrop
        rw [hsqueeze, hdrop, runs_of_forall hne ha, join_cons, if_pos rfl]
  | more a c b ha hc ih =>
      rw [runs_append_cons hc]
      rcases eq_or_ne a [] with rfl | hne
      · rw [runs_nil, List.nil_append, List.nil_append, ← ih, squeeze, if_neg (by simp [hc]),
          if_pos rfl]
      · -- the character after the run becomes the underscore, which is trimmed if no run follows
        rw [squeeze_append_of_ne_nil hne ha, squeeze, if_neg (by simp [hc]), if_neg (by simp),
          dropEndWhile_append ha, Text.dropEndWhile_cons, ih, runs_of_forall hne ha,
          List.singleton_append, join_cons]
        by_cases hruns : runs b = []
        · rw [if_pos ⟨join_runs_eq_nil_iff.mpr hruns, rfl⟩, if_pos hruns, List.append_nil]
        · rw [if_neg (mt And.left (mt join_runs_eq_nil_iff.mp hruns)), if_neg hruns]

/-- **The key of a text is the runs of its lower case, joined by underscores.** -/
theorem normalize_eq (raw : Text) : normalize raw = join (runs raw.lowercase) := by
  rw [normalize, trimUnderscores, dropWhile_squeeze, dropEndWhile_squeeze]

/-! ### The derived key -/

lemma ne_nil_of_isValid (h : IsValid t) : t ≠ [] := by
  rintro rfl
  cases h

/-- A key is derived from a text if the text is made into it. -/
lemma derive?_eq_some_iff {raw : Text} {k : Key} :
    derive? raw = some k ↔ normalize raw = k.text := by
  rw [derive?]
  split_ifs with hnil
  · refine iff_of_false (fun h => nomatch h) fun h => ne_nil_of_isValid k.isValid (h ▸ hnil)
  · rw [Option.some_inj, Key.mk.injEq]

lemma derive?_eq_none_iff {raw : Text} : derive? raw = none ↔ normalize raw = [] := by
  rw [derive?]
  split_ifs with hnil <;> simp [hnil]

/-- The key that is derived depends on the normal form alone. -/
lemma derive?_congr {raw raw' : Text} (h : normalize raw = normalize raw') :
    derive? raw = derive? raw' := by
  refine Option.ext fun k => ?_
  rw [derive?_eq_some_iff, derive?_eq_some_iff, h]

end Key

/-! ### Lower case -/

/-- The text in lower case, with the form of a sigma at the end of a word. `final` says of what
stands before and after a sigma whether the word ends there. -/
def Text.lowercaseAmid (final : Text → Text → Bool) : (before : Text) → Text → Text
  | _, [] => []
  | before, c :: r =>
    (if c = 'Σ' ∧ final before r = true then ['ς'] else lowercaseChar c) ++
      lowercaseAmid final (before ++ [c]) r

lemma lowercaseChar_ne_nil (c : Char) : lowercaseChar c ≠ [] := by
  rw [lowercaseChar]
  split_ifs
  · exact List.cons_ne_nil _ _
  · exact List.cons_ne_nil _ _
  · split <;> exact List.cons_ne_nil _ _

lemma Text.lowercase_append (a b : Text) : lowercase (a ++ b) = a.lowercase ++ b.lowercase :=
  List.flatMap_append

namespace Key

variable {a b s t : Text}

/-- The same characters, but that some which are no key characters may be others of these. -/
def SameRuns (a b : Text) : Prop :=
  List.Forall₂ (fun c d => c = d ∨ isKeyChar c = false ∧ isKeyChar d = false) a b

lemma SameRuns.refl (a : Text) : SameRuns a a := List.forall₂_same.mpr fun _ _ => .inl rfl

lemma SameRuns.splitOnP_eq (h : SameRuns a b) :
    a.splitOnP (fun c => !isKeyChar c) = b.splitOnP (fun c => !isKeyChar c) := by
  induction h with
  | nil => rfl
  | cons hhead _ ih =>
      rw [List.splitOnP_cons_eq_if_modifyHead, List.splitOnP_cons_eq_if_modifyHead, ih]
      rcases hhead with rfl | ⟨hc, hd⟩
      · rfl
      · simp [hc, hd]

lemma SameRuns.runs_eq (h : SameRuns a b) : runs a = runs b := by
  rw [runs, runs, h.splitOnP_eq]

/-- Neither form of a sigma is a key character. -/
theorem runs_lowercaseAmid (final : Text → Text → Bool) (before t : Text) :
    runs (lowercaseAmid final before t) = runs t.lowercase := by
  refine SameRuns.runs_eq ?_
  induction t generalizing before with
  | nil => exact .refl []
  | cons c t ih =>
      rw [lowercaseAmid, lowercase, List.flatMap_cons]
      refine List.rel_append ?_ (ih (before ++ [c]))
      split_ifs with hsigma
      · rw [hsigma.1]
        exact .cons (.inr (by decide)) .nil
      · exact SameRuns.refl _

/-! ### Separators -/

/-- A text that parts words: it is not empty, and in lower case it has no key characters. -/
structure IsSeparator (s : Text) : Prop where
  ne_nil : s ≠ []
  lowercase : ∀ c ∈ s, ∀ d ∈ lowercaseChar c, isKeyChar d = false

lemma isSeparator_iff :
    IsSeparator s ↔ s ≠ [] ∧ (s.lowercase.all fun d => !isKeyChar d) = true := by
  simp only [lowercase, List.all_flatMap, List.all_eq_true, Bool.not_eq_true']
  exact ⟨fun h => ⟨h.ne_nil, h.lowercase⟩, fun h => ⟨h.1, h.2⟩⟩

instance (s : Text) : Decidable (IsSeparator s) := decidable_of_iff _ isSeparator_iff.symm

lemma isSeparator_blank : IsSeparator [' '] := by decide

/-- A separator parts the runs before it from those after it. -/
theorem IsSeparator.runs_eq (hs : IsSeparator s) (a b : Text) :
    runs (a ++ s ++ b).lowercase = runs a.lowercase ++ runs b.lowercase := by
  rw [lowercase_append, lowercase_append]
  refine runs_append_append ?_ ?_ _ _
  · obtain ⟨c, r, rfl⟩ := List.exists_cons_of_ne_nil hs.ne_nil
    exact List.append_ne_nil_of_left_ne_nil (lowercaseChar_ne_nil c) _
  · intro d hd
    obtain ⟨c, hc, hd⟩ := List.mem_flatMap.mp hd
    exact hs.lowercase c hc d hd

/-- Words in one text: the first one, and each other one after what stands before it. -/
def spaced (first : Text) (rest : List (Text × Text)) : Text :=
  first ++ rest.flatMap fun p => p.1 ++ p.2

lemma spaced_cons (first sep word : Text) (rest : List (Text × Text)) :
    spaced first ((sep, word) :: rest) = first ++ sep ++ spaced word rest := by
  simp [spaced]

/-- The runs of words that separators part are those of the words. -/
theorem runs_spaced (first : Text) {rest : List (Text × Text)} (h : ∀ p ∈ rest, IsSeparator p.1) :
    runs (spaced first rest).lowercase =
      (first :: rest.map Prod.snd).flatMap fun word => runs word.lowercase := by
  induction rest generalizing first with
  | nil => simp [spaced]
  | cons p rest ih =>
      obtain ⟨hp, hrest⟩ := List.forall_mem_cons.mp h
      rw [spaced_cons, hp.runs_eq, ih p.2 hrest]
      simp only [List.map_cons, List.flatMap_cons]

/-- Blanks between words are separators like others. -/
lemma intercalate_blank (first : Text) (words : List Text) :
    [' '].intercalate (first :: words) = spaced first (words.map ([' '], ·)) := by
  induction words generalizing first with
  | nil => simp [spaced]
  | cons word words ih =>
      rw [List.intercalate_cons_cons, ih, List.map_cons, spaced_cons]

end Key

end Externalize
