import Mathlib.Tactic
import Externalize.Files.Write

/-
The names of a path.

* `Path.split_append`, `Path.split_unsplit`: the segments of a text, cut and put together.
* `FileSystem.plainNames_eq`, `Path.names_eq`: the names are the segments that are not empty, and a
  slash at the end is one step more.
* `Path.names_join`: a name that is joined to a path comes after the names of the path.
* `Path.names_ofPlace`: the path of a place has the names of the place.
* `Path.names_directory`: the directory of a path has all its names but the last one, and idle steps
  may be missing.
-/
namespace Externalize

namespace Path

/-! ### Segments -/

lemma split_append (a b : Text) : split (a ++ '/' :: b) = split a ++ split b := by
  induction a with
  | nil => simp [split]
  | cons c a ih =>
      by_cases hc : c = '/'
      · simp [split, hc, ih]
      · cases hs : split a with
        | nil => exact absurd hs (split_ne_nil a)
        | cons s ss => simp [split, hc, ih, hs]

lemma split_of_notMem {t : Text} (h : '/' ∉ t) : split t = [t] := by
  induction t with
  | nil => rfl
  | cons c t ih =>
      obtain ⟨hc, ht⟩ : c ≠ '/' ∧ '/' ∉ t := by simpa [eq_comm] using h
      simp [split, hc, ih ht]

lemma notMem_of_mem_split {t s : Text} (h : s ∈ split t) : '/' ∉ s := by
  induction t generalizing s with
  | nil =>
      obtain rfl : s = [] := by simpa [split] using h
      exact List.not_mem_nil
  | cons c t ih =>
      rw [split] at h
      split_ifs at h with hc
      · rcases List.mem_cons.mp h with rfl | h
        · exact List.not_mem_nil
        · exact ih h
      · cases hs : split t with
        | nil => exact absurd hs (split_ne_nil t)
        | cons r rs =>
            rw [hs] at h ih
            rcases List.mem_cons.mp h with rfl | h
            · have hr := ih List.mem_cons_self
              simp [hr, Ne.symm hc]
            · exact ih (List.mem_cons_of_mem _ h)

lemma unsplit_cons {s : Text} {ss : List Text} (h : ss ≠ []) :
    unsplit (s :: ss) = s ++ '/' :: unsplit ss := by
  cases ss with
  | nil => exact absurd rfl h
  | cons r rs => rfl

lemma split_unsplit {ss : List Text} (h : ss ≠ []) (hs : ∀ s ∈ ss, '/' ∉ s) :
    split (unsplit ss) = ss := by
  induction ss with
  | nil => exact absurd rfl h
  | cons s ss ih =>
      have hs' := split_of_notMem (hs s List.mem_cons_self)
      rcases eq_or_ne ss [] with rfl | hne
      · exact hs'
      · have hrest := ih hne fun r hr => hs r (List.mem_cons_of_mem _ hr)
        rw [unsplit_cons hne, split_append, hs', hrest]
        rfl

/-- What is in segments is in their text. -/
lemma mem_unsplit {c : Char} {s : Text} {ss : List Text} (hs : s ∈ ss) (hc : c ∈ s) :
    c ∈ unsplit ss := by
  induction ss with
  | nil => exact absurd hs List.not_mem_nil
  | cons r rs ih =>
      rcases eq_or_ne rs [] with rfl | hne
      · obtain rfl : s = r := by simpa using hs
        exact hc
      · rw [unsplit_cons hne]
        rcases List.mem_cons.mp hs with rfl | hs
        · exact List.mem_append_left _ hc
        · exact List.mem_append_right _ (List.mem_cons_of_mem _ (ih hs))

/-- What is in the text of segments is a slash or is in one of them. -/
lemma mem_of_mem_unsplit {c : Char} {ss : List Text} (h : c ∈ unsplit ss) :
    c = '/' ∨ ∃ s ∈ ss, c ∈ s := by
  induction ss with
  | nil => exact absurd h List.not_mem_nil
  | cons r rs ih =>
      rcases eq_or_ne rs [] with rfl | hne
      · exact .inr ⟨r, List.mem_cons_self, h⟩
      · rw [unsplit_cons hne, List.mem_append, List.mem_cons] at h
        rcases h with h | h | h
        · exact .inr ⟨r, List.mem_cons_self, h⟩
        · exact .inl h
        · obtain hc | ⟨s, hs, hc⟩ := ih h
          · exact .inl hc
          · exact .inr ⟨s, List.mem_cons_of_mem _ hs, hc⟩

/-- A text without a slash at its end has a last segment that is not empty. -/
lemma getLast_split {t : Text} (hne : t ≠ []) (h : t.getLast? ≠ some '/') :
    (split t).getLast (split_ne_nil t) ≠ [] := by
  induction t with
  | nil => exact absurd rfl hne
  | cons c t ih =>
      rcases eq_or_ne t [] with rfl | ht
      · have hc : c ≠ '/' := by simpa using h
        simp [split, hc]
      · have hlast := ih ht (by rwa [List.getLast?_cons_of_ne_nil ht] at h)
        by_cases hc : c = '/'
        · simp only [split, hc, if_true]
          rwa [List.getLast_cons (split_ne_nil t)]
        · cases hs : split t with
          | nil => exact absurd hs (split_ne_nil t)
          | cons s ss =>
              simp only [split, hc, if_false, hs]
              simp only [hs] at hlast
              cases ss with
              | nil => simp
              | cons r rs =>
                  rw [List.getLast_cons (by simp)] at hlast ⊢
                  exact hlast

end Path

/-! ### Names -/

namespace FileSystem

lemma plainNames_eq (p : Path) :
    plainNames p = (Path.split p.text).filter fun s => !s.isEmpty := by
  rw [plainNames, Path.names]
  split_ifs
  · exact List.dropLast_concat
  · rfl

end FileSystem

open FileSystem (plainNames plainNames_eq)

namespace Path

variable {p : Path} {n : Name}

lemma names_eq (p : Path) :
    p.names = if p.text.getLast? == some '/' then plainNames p ++ [['.']] else plainNames p := by
  rw [plainNames_eq]
  rfl

lemma names_of_getLast? (h : p.text.getLast? ≠ some '/') : p.names = plainNames p := by
  rw [names_eq, if_neg (by simpa using h)]

lemma isAbsolute_of_notMem (hslash : '/' ∉ n) : Path.isAbsolute ⟨n⟩ = false := by
  cases n with
  | nil => rfl
  | cons c r =>
      have hc : c ≠ '/' := (List.ne_of_not_mem_cons hslash).symm
      simp [isAbsolute, hc]

/-- The text of a path and a name from there on, if the path is not empty. -/
lemma exists_text_join (hslash : '/' ∉ n) (hp : p.text ≠ []) :
    ∃ t, (p.join ⟨n⟩).text = t ++ '/' :: n ∧
      ((split t).filter fun s => !s.isEmpty) = plainNames p ∧
      ((t ++ '/' :: n).head? = some '/' ↔ p.text.head? = some '/') ∧
      ('\x00' ∉ t ++ '/' :: n ↔ '\x00' ∉ p.text ∧ '\x00' ∉ n) := by
  have habs := isAbsolute_of_notMem hslash
  by_cases hlast : p.text.getLast? = some '/'
  · obtain ⟨t, ht⟩ : ∃ t, p.text = t ++ ['/'] := ⟨_, (List.dropLast_append_getLast? _ hlast).symm⟩
    refine ⟨t, ?_, ?_, ?_, ?_⟩
    · simp [join, habs, ht]
    · rw [plainNames_eq, ht, split_append]
      simp [split]
    · rw [ht]
      cases t <;> simp
    · simp [ht]
  · refine ⟨p.text, ?_, (plainNames_eq p).symm, ?_, ?_⟩
    · simp [join, habs, hp, hlast]
    · obtain ⟨c, r, hcr⟩ := List.exists_cons_of_ne_nil hp
      simp [hcr]
    · simp

lemma join_of_empty (hp : p.text = []) : p.join ⟨n⟩ = ⟨n⟩ := by
  simp [join, hp]

/-- A path with a name joined to it: what it is made of. -/
theorem names_join (p : Path) (hn : n ≠ []) (hslash : '/' ∉ n) :
    (p.join ⟨n⟩).names = plainNames p ++ [n] := by
  rcases eq_or_ne p.text [] with hp | hp
  · have hlast : n.getLast? ≠ some '/' := fun h => hslash (List.mem_of_getLast? h)
    rw [join_of_empty hp, names_of_getLast? hlast, plainNames_eq, plainNames_eq, hp,
      split_of_notMem hslash]
    simp [split, hn]
  · obtain ⟨t, htext, hnames, -, -⟩ := exists_text_join hslash hp
    have hlast : (p.join ⟨n⟩).text.getLast? ≠ some '/' := by
      rw [htext, List.getLast?_append_of_ne_nil _ (List.cons_ne_nil _ _),
        List.getLast?_cons_of_ne_nil hn]
      exact fun h => hslash (List.mem_of_getLast? h)
    rw [names_of_getLast? hlast, plainNames_eq, htext, split_append, List.filter_append, hnames,
      split_of_notMem hslash]
    simp [hn]

lemma getLast?_join (hn : n ≠ []) (hslash : '/' ∉ n) :
    (p.join ⟨n⟩).text.getLast? ≠ some '/' := by
  have hlast : n.getLast? ≠ some '/' := fun h => hslash (List.mem_of_getLast? h)
  rcases eq_or_ne p.text [] with hp | hp
  · rwa [join_of_empty hp]
  · obtain ⟨t, htext, -, -, -⟩ := exists_text_join hslash hp
    rwa [htext, List.getLast?_append_of_ne_nil _ (List.cons_ne_nil _ _),
      List.getLast?_cons_of_ne_nil hn]

/-- A path with nothing joined to it ends in a slash. -/
lemma getLast?_join_nil (hp : p.text ≠ []) : (p.join ⟨[]⟩).text.getLast? = some '/' := by
  rw [join, if_neg (by simp [isAbsolute])]
  split_ifs with hlast
  · simpa [hp] using hlast
  · simp

lemma isAbsolute_join (hslash : '/' ∉ n) :
    (p.join ⟨n⟩).isAbsolute = p.isAbsolute := by
  rcases eq_or_ne p.text [] with hp | hp
  · rw [join_of_empty hp, isAbsolute_of_notMem hslash, isAbsolute, hp]
    rfl
  · obtain ⟨t, htext, -, habs, -⟩ := exists_text_join hslash hp
    rw [isAbsolute, isAbsolute, htext, Bool.eq_iff_iff]
    simpa using habs

lemma text_join_ne_nil (hn : n ≠ []) (hslash : '/' ∉ n) : (p.join ⟨n⟩).text ≠ [] := by
  rcases eq_or_ne p.text [] with hp | hp
  · rwa [join_of_empty hp]
  · obtain ⟨t, htext, -, -, -⟩ := exists_text_join hslash hp
    simp [htext]

lemma nul_notMem_join (hslash : '/' ∉ n) (hp : p.text ≠ []) :
    '\x00' ∉ (p.join ⟨n⟩).text ↔ '\x00' ∉ p.text ∧ '\x00' ∉ n := by
  obtain ⟨t, htext, -, -, hchars⟩ := exists_text_join hslash hp
  rwa [htext]

/-- Joined names are told apart by the path. -/
lemma join_injective (hn : n ≠ []) (hslash : '/' ∉ n) {m : Name} (hm : m ≠ [])
    (hslash' : '/' ∉ m) (h : p.join ⟨n⟩ = p.join ⟨m⟩) : n = m := by
  have hnames := names_join p hn hslash
  rw [h, names_join p hm hslash'] at hnames
  simpa using (List.append_cancel_left hnames).symm

/-! ### The path of a place -/

lemma text_ofPlace_cons (n : Name) (p : Place) :
    (ofPlace (n :: p)).text = unsplit ([] :: (n :: p).reverse) := by
  have hunsplit : ∀ ns : List Name, ns ≠ [] →
      (ns.map fun n => '/' :: n).flatten = '/' :: unsplit ns := by
    intro ns hns
    induction ns with
    | nil => exact absurd rfl hns
    | cons m ns ih =>
        rcases eq_or_ne ns [] with rfl | hne
        · simp [unsplit]
        · rw [unsplit_cons hne, List.map_cons, List.flatten_cons, ih hne]
          rfl
  have hne : (n :: p).reverse ≠ [] := by simp
  rw [ofPlace, unsplit_cons hne, ← hunsplit _ hne]
  rfl

/-- The path of a place below the root has the names of the place, from the root down. -/
theorem names_ofPlace {n : Name} {p : Place} (h : ∀ m ∈ n :: p, m ≠ [] ∧ '/' ∉ m) :
    (ofPlace (n :: p)).names = (n :: p).reverse ∧
      (ofPlace (n :: p)).text.getLast? ≠ some '/' := by
  have hslash : ∀ m ∈ ([] : Name) :: (n :: p).reverse, '/' ∉ m := by
    intro m hm
    rcases List.mem_cons.mp hm with rfl | hm
    · exact List.not_mem_nil
    · exact (h m (List.mem_reverse.mp hm)).2
  have hlast : (ofPlace (n :: p)).text.getLast? ≠ some '/' := by
    obtain ⟨hne, hn⟩ := h n List.mem_cons_self
    have : (ofPlace (n :: p)).text = (p.reverse.map fun m => '/' :: m).flatten ++ '/' :: n := by
      simp [ofPlace]
    rw [this, List.getLast?_append_of_ne_nil _ (List.cons_ne_nil _ _),
      List.getLast?_cons_of_ne_nil hne]
    exact fun h => hn (List.mem_of_getLast? h)
  refine ⟨?_, hlast⟩
  rw [names_of_getLast? hlast, plainNames_eq, text_ofPlace_cons,
    split_unsplit (List.cons_ne_nil _ _) hslash]
  rw [List.filter_cons_of_neg (by simp), List.filter_eq_self]
  intro m hm
  simpa using (h m (List.mem_reverse.mp hm)).1

lemma isAbsolute_ofPlace (p : Place) : (ofPlace p).isAbsolute = true := by
  cases p with
  | nil => rfl
  | cons n p =>
      rw [isAbsolute, text_ofPlace_cons, unsplit_cons (by simp)]
      rfl

/-! ### The directory of a path -/

lemma dropWhile_isIdle_reverse (ss : List Text) :
    ∃ k : List Text, ss = (ss.reverse.dropWhile isIdle).reverse ++ k ∧ ∀ s ∈ k, isIdle s := by
  refine ⟨(ss.reverse.takeWhile isIdle).reverse, ?_, ?_⟩
  · rw [← List.reverse_append, List.takeWhile_append_dropWhile, List.reverse_reverse]
  · intro s hs
    exact List.all_eq_true.mp List.all_takeWhile s (List.mem_reverse.mp hs)

/-- The names among idle segments are steps to the place itself. -/
lemma filter_idle {k : List Text} (h : ∀ s ∈ k, isIdle s) :
    ∃ j, (k.filter fun s => !s.isEmpty) = List.replicate j ['.'] := by
  refine ⟨_, List.eq_replicate_iff.mpr ⟨rfl, fun s hs => ?_⟩⟩
  obtain ⟨hmem, hne⟩ := List.mem_filter.mp hs
  have hidle := h s hmem
  rw [isIdle, Bool.or_eq_true] at hidle
  rcases hidle with hempty | hdot
  · rw [hempty] at hne
    cases hne
  · exact beq_iff_eq.mp hdot

lemma isAbsolute_unsplit {first : Text} {others : List Text} (hfirst : '/' ∉ first)
    (h : first ≠ [] ∨ others ≠ []) :
    isAbsolute ⟨unsplit (first :: others)⟩ = first.isEmpty := by
  cases first with
  | nil =>
      rw [isAbsolute, unsplit_cons (h.resolve_left fun h => h rfl)]
      rfl
  | cons c r =>
      have hc : c ≠ '/' := (List.ne_of_not_mem_cons hfirst).symm
      cases others <;> simp [isAbsolute, unsplit, hc]

lemma getLast?_unsplit {ss : List Text} (hss : ss ≠ []) (hslash : ∀ s ∈ ss, '/' ∉ s)
    (hlast : ss.getLast hss ≠ []) : (unsplit ss).getLast? ≠ some '/' := by
  obtain ⟨init, last, rfl⟩ := (List.eq_nil_or_concat ss).resolve_left hss
  rw [List.concat_eq_append] at *
  have hlast : last ≠ [] := by simpa using hlast
  have hmem : last.getLast? ≠ some '/' := fun h =>
    hslash last (by simp) (List.mem_of_getLast? h)
  induction init with
  | nil => exact hmem
  | cons s init ih =>
      rw [List.cons_append, unsplit_cons (by simp),
        List.getLast?_append_of_ne_nil _ (List.cons_ne_nil _ _)]
      have hne : unsplit (init ++ [last]) ≠ [] := by
        obtain ⟨c, hc⟩ := List.exists_mem_of_ne_nil _ hlast
        exact List.ne_nil_of_mem (mem_unsplit (by simp) hc)
      rw [List.getLast?_cons_of_ne_nil hne]
      exact ih (by simp) (by simp) (fun r hr => hslash r (List.mem_cons_of_mem _ hr)) (by simpa)

/-- The path of a first segment and others: what it is made of. -/
lemma names_ofSegments {first : Text} {others : List Text} (hslash : ∀ s ∈ first :: others, '/' ∉ s)
    (hlast : ∀ s ∈ others.getLast?, s ≠ []) :
    (∃ k, (ofSegments first others).names =
        ((first :: others).filter fun s => !s.isEmpty) ++ List.replicate k ['.']) ∧
      (ofSegments first others).isAbsolute = first.isEmpty ∧ (ofSegments first others).text ≠ [] ∧
      ∀ c ≠ '/', c ∈ (ofSegments first others).text → ∃ s ∈ first :: others, c ∈ s := by
  have hfirst : '/' ∉ first := hslash first List.mem_cons_self
  by_cases hempty : first = [] ∧ others = []
  · obtain ⟨rfl, rfl⟩ := hempty
    have hroot : ofSegments [] [] = ⟨['/']⟩ := rfl
    rw [hroot]
    exact ⟨⟨1, rfl⟩, rfl, by simp, fun c hc hmem => absurd (List.mem_singleton.mp hmem) hc⟩
  · have hsome : first ≠ [] ∨ others ≠ [] := by
      by_contra hcon
      push Not at hcon
      exact hempty hcon
    have hof : ofSegments first others = ⟨unsplit (first :: others)⟩ := by
      rw [ofSegments, if_neg (by simpa using hempty)]
    have hend : (unsplit (first :: others)).getLast? ≠ some '/' := by
      refine getLast?_unsplit (List.cons_ne_nil _ _) hslash ?_
      rcases List.eq_nil_or_concat others with rfl | ⟨init, last, rfl⟩
      · simpa using hsome
      · simpa using hlast
    rw [hof]
    refine ⟨⟨0, ?_⟩, isAbsolute_unsplit hfirst hsome, ?_, ?_⟩
    · rw [names_of_getLast? hend, plainNames_eq, split_unsplit (List.cons_ne_nil _ _) hslash,
        List.replicate_zero, List.append_nil]
    · rcases hsome with hne | hne
      · obtain ⟨c, hc⟩ := List.exists_mem_of_ne_nil _ hne
        exact List.ne_nil_of_mem (mem_unsplit List.mem_cons_self hc)
      · rw [unsplit_cons hne]
        simp
    · exact fun c hc hmem => (mem_of_mem_unsplit hmem).resolve_left hc

/-- The directory of a name alone is the working directory. -/
lemma directory_of_single {first : Text} (hs : split p.text = [first]) (hne : first ≠ []) :
    p.directory = ⟨['.']⟩ := by
  rw [Path.directory, parent?, parents, hs]
  simp [Path.above, hne]

/-- The directory of a path is the path of its segments without the last one and the idle ones
before it. -/
lemma directory_of_concat {first last : Text} {init : List Text}
    (hs : split p.text = first :: (init ++ [last])) (hlast : isIdle last = false) :
    ∃ others k, init = others ++ k ∧ (∀ s ∈ k, isIdle s) ∧ (∀ s ∈ others.getLast?, s ≠ []) ∧
      (∀ s ∈ first :: others, s ∈ split p.text) ∧ p.directory = ofSegments first others := by
  obtain ⟨k, hk, hidle⟩ := dropWhile_isIdle_reverse init
  have hothers : ∀ s ∈ (init.reverse.dropWhile isIdle).reverse.getLast?, s ≠ [] := by
    intro s hmem
    rw [List.getLast?_reverse] at hmem
    have hnot := List.head?_dropWhile_not isIdle init.reverse
    rw [hmem] at hnot
    rintro rfl
    simp [isIdle] at hnot
  have hsegments : ∀ s ∈ first :: (init.reverse.dropWhile isIdle).reverse, s ∈ split p.text := by
    intro s hmem
    rw [hs]
    rcases List.mem_cons.mp hmem with rfl | hmem
    · exact List.mem_cons_self
    · refine List.mem_cons_of_mem _ (List.mem_append_left _ ?_)
      rw [hk]
      exact List.mem_append_left _ hmem
  have hparent : p.parent? = some (ofSegments first (init.reverse.dropWhile isIdle).reverse) := by
    rw [parent?, parents, hs]
    simp only [List.reverse_append, List.reverse_singleton, List.singleton_append, Path.above,
      hlast]
    rfl
  obtain ⟨-, -, hne, -⟩ :=
    names_ofSegments (fun s hmem => notMem_of_mem_split (hsegments s hmem)) hothers
  refine ⟨_, k, hk, hidle, hothers, hsegments, ?_⟩
  rw [Path.directory, hparent]
  simp [hne]

/-- The directory of a path has the names of the path but for the last one, give or take steps to
the place itself. -/
theorem names_directory {above : List Name} (h : plainNames p = above ++ [n]) (hn : n ≠ ['.'])
    (hlast : p.text.getLast? ≠ some '/') :
    (∃ ns j k, above = ns ++ List.replicate j ['.'] ∧
        p.directory.names = ns ++ List.replicate k ['.']) ∧
      p.directory.isAbsolute = p.isAbsolute ∧ p.directory.text ≠ [] ∧
      ('\x00' ∉ p.text → '\x00' ∉ p.directory.text) := by
  have htext : p.text ≠ [] := by
    intro hp
    rw [plainNames_eq, hp] at h
    exact absurd (congrArg List.length h) (by simp [split])
  have hlast' := getLast_split htext hlast
  have hunsplit : p = ⟨unsplit (split p.text)⟩ := by rw [unsplit_split]
  rw [plainNames_eq] at h
  cases hs : split p.text with
  | nil => exact absurd hs (split_ne_nil _)
  | cons first others =>
      simp only [hs] at h hlast'
      have hfirst : '/' ∉ first := notMem_of_mem_split (hs ▸ List.mem_cons_self)
      have habsolute : (first ≠ [] ∨ others ≠ []) → p.isAbsolute = first.isEmpty := by
        intro hsome
        rw [hunsplit, hs]
        exact isAbsolute_unsplit hfirst hsome
      rcases List.eq_nil_or_concat others with rfl | ⟨init, last, rfl⟩
      · have hne : first ≠ [] := hlast'
        obtain rfl : above = [] := by simpa [hne] using congrArg List.length h
        rw [directory_of_single hs hne, habsolute (.inl hne)]
        refine ⟨⟨[], 0, 1, rfl, rfl⟩, ?_, by simp, fun _ => by simp⟩
        cases first with
        | nil => exact absurd rfl hne
        | cons c r => rfl
      · simp only [List.concat_eq_append] at hs h hlast' habsolute
        have hne : last ≠ [] := by simpa using hlast'
        have hkept : ([last].filter fun s => !s.isEmpty) = [last] := by simp [hne]
        rw [← List.cons_append, List.filter_append, hkept] at h
        obtain ⟨rfl, hlastn⟩ := List.append_inj' h rfl
        obtain rfl := List.head_eq_of_cons_eq hlastn
        obtain ⟨others, k, rfl, hidle, hothers, hsegments, hdirectory⟩ :=
          directory_of_concat hs (by simp [isIdle, hne, hn])
        obtain ⟨j, hj⟩ := filter_idle hidle
        obtain ⟨⟨i, hi⟩, habs, hnonempty, hchars⟩ :=
          names_ofSegments (fun s hmem => notMem_of_mem_split (hsegments s hmem)) hothers
        rw [hdirectory, habs, habsolute (.inr (by simp))]
        refine ⟨⟨_, j, i, ?_, hi⟩, rfl, hnonempty, fun hnul hmem => ?_⟩
        · rw [← List.cons_append, List.filter_append, hj]
        · obtain ⟨s, hmem', hc⟩ := hchars _ (by decide) hmem
          refine hnul ?_
          rw [hunsplit]
          exact mem_unsplit (hsegments s hmem') hc

end Path

end Externalize
