import Externalize.Proofs.Files.Writing

/-
Directories that are made from the top down.

* `Path.parents_cases`: the paths above a path are the path right above it and those above that one;
  `Path.IsAbove` says what the path right above has of the names.
* `FileSystem.createUpwards_again`: where directories cannot all be made, no more of them can be
  made later.
* `FileSystem.createDirectories_new`: a directory that is made under a path without steps up is a
  new one, so that nothing was in it before.
-/
namespace Externalize

open FileSystem (plainNames plainNames_eq)

namespace Path

variable {p q : Path}

/-! ### The paths above a path -/

/-- A path right above another one: it has its names but for the last one, and idle steps may be
missing. -/
structure IsAbove (q p : Path) : Prop where
  names : ∃ ns last i j k, plainNames p = ns ++ List.replicate j ['.'] ++
      last :: List.replicate i ['.'] ∧ last ≠ ['.'] ∧ q.names = ns ++ List.replicate k ['.']
  isAbsolute : q.isAbsolute = p.isAbsolute
  text : q.text ≠ []
  nul : '\x00' ∉ p.text → '\x00' ∉ q.text

/-- The path right above has no names of its own, but for idle ones. -/
lemma IsAbove.mem_names (h : q.IsAbove p) {n : Text} (hn : n ∈ q.names) (hdot : n ≠ ['.']) :
    n ∈ p.names := by
  obtain ⟨ns, last, i, j, k, hplain, -, hnames⟩ := h.names
  rw [hnames, List.mem_append] at hn
  have hns : n ∈ ns := hn.resolve_right fun hmem => hdot (List.eq_of_mem_replicate hmem)
  rw [names_eq, hplain]
  split_ifs <;> simp [hns]

lemma above_dropWhile (first : Text) (r : List Text) :
    above first (r.dropWhile isIdle) = above first r := by
  induction r with
  | nil => rfl
  | cons s r ih =>
      by_cases hs : isIdle s = true
      · rw [List.dropWhile_cons_of_pos hs, ih, above, if_pos hs]
      · rw [List.dropWhile_cons_of_neg hs]

/-- The paths above a path that is put together from segments. -/
lemma parents_ofSegments {first : Text} {others : List Text}
    (hslash : ∀ s ∈ first :: others, '/' ∉ s) :
    (ofSegments first others).parents = above first others.reverse := by
  by_cases hempty : first = [] ∧ others = []
  · obtain ⟨rfl, rfl⟩ := hempty
    rfl
  · have hof : ofSegments first others = ⟨unsplit (first :: others)⟩ := by
      rw [ofSegments, if_neg (by simpa using hempty)]
    rw [hof, parents, split_unsplit (List.cons_ne_nil _ _) hslash]

/-- The path of the segments before a last one that says something. -/
lemma isAbove_ofSegments {first last : Text} {segments j k : List Text}
    (hs : split p.text = first :: (segments ++ (j ++ last :: k))) (hlast : isIdle last = false)
    (hj : ∀ s ∈ j, isIdle s) (hk : ∀ s ∈ k, isIdle s)
    (hends : ∀ s ∈ segments.getLast?, s ≠ []) : (ofSegments first segments).IsAbove p := by
  have hslash : ∀ s ∈ split p.text, '/' ∉ s := fun s => notMem_of_mem_split
  have hsub : ∀ s ∈ first :: segments, s ∈ split p.text := by
    intro s hmem
    rw [hs]
    exact List.mem_cons.mpr ((List.mem_cons.mp hmem).imp_right (List.mem_append_left _))
  obtain ⟨⟨i, hnames⟩, habs, htext, hchars⟩ :=
    names_ofSegments (fun s hmem => hslash s (hsub s hmem)) hends
  refine ⟨?_, ?_, htext, fun hnul hmem => ?_⟩
  · obtain ⟨j', hj'⟩ := filter_idle hj
    obtain ⟨k', hk'⟩ := filter_idle hk
    have hne : last ≠ [] := by
      rintro rfl
      cases hlast
    have hdot : last ≠ ['.'] := by
      rintro rfl
      cases hlast
    have hkept : ((last :: k).filter fun s => !s.isEmpty) = last :: k.filter fun s => !s.isEmpty :=
      List.filter_cons_of_pos (by simpa using hne)
    refine ⟨_, last, k', j', i, ?_, hdot, hnames⟩
    rw [plainNames_eq, hs, ← hj', ← hk', ← List.cons_append, List.filter_append,
      List.filter_append, hkept, List.append_assoc]
  · have hp : p = ⟨unsplit (split p.text)⟩ := by rw [unsplit_split]
    rw [habs, hp, hs, isAbsolute_unsplit (hslash first (hsub first List.mem_cons_self))]
    right
    simp
  · obtain ⟨s, hmem', hc⟩ := hchars _ (by decide) hmem
    refine hnul ?_
    rw [← unsplit_split p.text]
    exact mem_unsplit (hsub s hmem') hc

/-- The paths above a path: none, or the one right above it and those above that one. -/
theorem parents_cases (p : Path) :
    p.parents = [] ∨ ∃ q, p.parents = q :: q.parents ∧ (q.text = [] ∨ q.IsAbove p) := by
  cases hs : split p.text with
  | nil => exact absurd hs (split_ne_nil _)
  | cons first others =>
      have hparents : p.parents = above first (others.reverse.dropWhile isIdle) := by
        rw [parents, hs, above_dropWhile]
      obtain ⟨k, hk, hidle⟩ := dropWhile_isIdle_reverse others
      cases hrest : others.reverse.dropWhile isIdle with
      | nil =>
          rw [hparents, hrest, above]
          split_ifs
          · exact .inl rfl
          · exact .inr ⟨⟨[]⟩, rfl, .inl rfl⟩
      | cons last r =>
          have hlast : isIdle last = false := by
            have hhead := List.head?_dropWhile_not isIdle others.reverse
            rw [hrest] at hhead
            simpa using hhead
          obtain ⟨j, hj, hidle'⟩ := dropWhile_isIdle_reverse r.reverse
          rw [List.reverse_reverse] at hj
          rw [hrest, List.reverse_cons, hj, List.append_assoc, List.append_assoc,
            List.singleton_append] at hk
          have hends : ∀ s ∈ (r.dropWhile isIdle).reverse.getLast?, s ≠ [] := by
            intro s hmem
            rw [List.getLast?_reverse] at hmem
            have hnot := List.head?_dropWhile_not isIdle r
            rw [hmem] at hnot
            rintro rfl
            simp [isIdle] at hnot
          refine .inr ⟨ofSegments first (r.dropWhile isIdle).reverse, ?_, .inr
            (isAbove_ofSegments (hs.trans (congrArg (first :: ·) hk)) hlast hidle' hidle hends)⟩
          rw [hparents, hrest, above, if_neg (by simp [hlast]), parents_ofSegments,
            List.reverse_reverse, above_dropWhile]
          intro s hmem
          refine notMem_of_mem_split (t := p.text) ?_
          rw [hs, hk]
          exact List.mem_cons.mpr ((List.mem_cons.mp hmem).imp_right (List.mem_append_left _))

end Path

namespace FileSystem

variable {fs out : FileSystem} {p q : Path} {d : Place}

/-! ### The directory right above -/

/-- A path that leads to a directory goes on from the one that the path right above leads to. -/
lemma exists_walk_of_isAbove (h : q.IsAbove p) : ∃ last i, last ≠ ['.'] ∧ last ∈ p.names ∧
    ∀ (fs : FileSystem) (d : Place), fs.directory p = .ok d → ∃ d' k, fs.directory q = .ok d' ∧
      Walk fs true k d' (last :: List.replicate i ['.']) ⟨d, some .directory⟩ := by
  obtain ⟨ns, last, i, j, k, hplain, hlast, hnames⟩ := h.names
  refine ⟨last, i, hlast, ?_, fun fs d hd => ?_⟩
  · rw [Path.names_eq, hplain]
    split_ifs <;> simp
  · obtain ⟨hnul, -, hwalk⟩ := resolve_eq_ok_iff.mp (directory_eq_ok_iff.mp hd)
    rw [walk_names_iff, hplain] at hwalk
    obtain ⟨d', hd', k', -, hrest⟩ := hwalk.split (List.cons_ne_nil _ _)
    rw [walk_append_dots_iff] at hd'
    refine ⟨d', k', directory_eq_ok_iff.mpr (resolve_eq_ok_iff.mpr ⟨h.nul hnul, h.text, ?_⟩), hrest⟩
    rw [hnames, walk_append_dots_iff, startOf, h.isAbsolute]
    exact hd'

/-- Where a directory can be made, the path right above leads to a directory. -/
lemma directory_of_createDirectory (h : q.IsAbove p) (hmade : fs.createDirectory p = .ok out) :
    ∃ d, fs.directory q = .ok d := by
  rw [createDirectory] at hmade
  split at hmade
  · cases hmade
  · next place hlast =>
      obtain ⟨hnul, -, above, n, d, hplain, hn, hwalk, -⟩ := lastPlace_eq_ok_iff.mp hlast
      obtain ⟨ns, last, i, j, k, hplain', -, hnames⟩ := h.names
      have hi : i = 0 := by
        by_contra hi
        obtain ⟨i, rfl⟩ := Nat.exists_eq_succ_of_ne_zero hi
        rw [hplain, List.replicate_succ', ← List.cons_append, ← List.append_assoc] at hplain'
        exact hn.1 (List.head_eq_of_cons_eq (List.append_inj' hplain' rfl).2)
      rw [hplain, hi] at hplain'
      obtain ⟨rfl, -⟩ := List.append_inj' hplain' rfl
      refine ⟨d, directory_eq_ok_iff.mpr (resolve_eq_ok_iff.mpr ⟨h.nul hnul, h.text, ?_⟩)⟩
      rw [walk_append_dots_iff] at hwalk
      rw [hnames, walk_append_dots_iff, startOf, h.isAbsolute]
      exact hwalk
  · cases hmade

/-! ### Making directories again -/

/-- The ways in which directories are made under a path: there is nothing to do, or at once, or
after those above it are made. -/
lemma createUpwards_cases {result : Except OsError Unit}
    (h : fs.createUpwards p.ancestors = (out, result)) :
    (p.text = [] ∧ out = fs ∧ result = .ok ()) ∨
    (p.text ≠ [] ∧
      ((fs.createDirectory p = .ok out ∧ result = .ok ()) ∨
      (∃ e ≠ .notFound, fs.createDirectory p = .error e ∧ out = fs ∧
        result = fs.unlessDirectory p e) ∨
      fs.createDirectory p = .error .notFound ∧
        ((∃ e, fs.createUpwards p.parents = (out, .error e) ∧ result = .error e) ∨
        ∃ made, fs.createUpwards p.parents = (made, .ok ()) ∧
          ((made.createDirectory p = .ok out ∧ result = .ok ()) ∨
          ∃ e, made.createDirectory p = .error e ∧ out = made ∧
            result = made.unlessDirectory p e)))) := by
  rw [Path.ancestors, createUpwards] at h
  split_ifs at h with hempty
  · cases h
    exact .inl ⟨List.isEmpty_iff.mp hempty, rfl, rfl⟩
  · refine .inr ⟨by simpa using hempty, ?_⟩
    split at h
    · next hmade =>
        cases h
        exact .inl ⟨hmade, rfl⟩
    · next hmade =>
        refine .inr (.inr ⟨hmade, ?_⟩)
        split at h
        · next hup =>
            cases h
            exact .inl ⟨_, hup, rfl⟩
        · next made hup =>
            refine .inr ⟨made, hup, ?_⟩
            split at h
            · next hmade' =>
                cases h
                exact .inl ⟨hmade', rfl⟩
            · next e hmade' =>
                cases h
                exact .inr ⟨e, hmade', rfl, rfl⟩
    · next e hne hmade =>
        cases h
        exact .inr (.inl ⟨e, hne, hmade, rfl, rfl⟩)

lemma of_unlessDirectory_ok {e : OsError} (h : fs.unlessDirectory p e = .ok ()) :
    ∃ d, fs.directory p = .ok d := by
  rw [unlessDirectory] at h
  split_ifs at h with hdir
  exact isDirectory_iff.mp hdir

lemma unlessDirectory_of_ne (h : ∀ d, fs.directory p ≠ .ok d) (e : OsError) :
    fs.unlessDirectory p e = .error e := by
  rw [unlessDirectory, if_neg]
  intro hdir
  obtain ⟨d, hd⟩ := isDirectory_iff.mp hdir
  exact h d hd

lemma ne_of_unlessDirectory_error {e e' : OsError} (h : .error e = fs.unlessDirectory p e')
    (d : Place) :
    fs.directory p ≠ .ok d := by
  intro hd
  rw [unlessDirectory, if_pos (isDirectory_iff.mpr ⟨d, hd⟩)] at h
  cases h

/-- Once the directories above are made, making them does nothing. -/
lemma createUpwards_parents_again (h : fs.createUpwards p.parents = (out, .ok ())) :
    out.createUpwards p.parents = (out, .ok ()) := by
  rcases p.parents_cases with hnil | ⟨q, hq, hempty | habove⟩
  · rw [hnil]
    rfl
  · rw [hq, createUpwards, if_pos (by simpa using hempty)]
  · rw [hq] at h ⊢
    obtain ⟨-, hdir⟩ := @createUpwards_spec fs (q :: q.parents)
    rw [h] at hdir
    obtain ⟨d, hd⟩ := hdir q q.parents rfl habove.text rfl
    exact createUpwards_of_directory hd q.parents

/-- Where a directory cannot be made and those above it cannot help, it fails again. -/
lemma exists_createUpwards_error {e : OsError} (hp : p.text ≠ [])
    (hdir : ∀ d, fs.directory p ≠ .ok d) (hcreate : fs.createDirectory p = .error e)
    (hup : ∃ result, fs.createUpwards p.parents = (fs, result)) :
    ∃ e', fs.createUpwards p.ancestors = (fs, .error e') := by
  obtain ⟨result, hup⟩ := hup
  rcases hagain : fs.createUpwards p.ancestors with ⟨out, r⟩
  rcases createUpwards_cases hagain with ⟨hempty, -⟩ | ⟨-, ⟨hmade, -⟩ | ⟨e', -, -, rfl, rfl⟩ |
    ⟨hmade, ⟨e', hup', rfl⟩ | ⟨made, hup', ⟨hmade', -⟩ | ⟨e', -, rfl, rfl⟩⟩⟩⟩
  · exact absurd hempty hp
  · cases hcreate.symm.trans hmade
  · exact ⟨e', by rw [unlessDirectory_of_ne hdir]⟩
  · cases hup.symm.trans hup'
    exact ⟨e', rfl⟩
  · cases hup.symm.trans hup'
    cases hcreate.symm.trans hmade'
  · cases hup.symm.trans hup'
    exact ⟨e', by rw [unlessDirectory_of_ne hdir]⟩

/-- Directories that could not all be made cannot be made after that either: the path leads to none,
and trying again changes nothing. -/
theorem createUpwards_again {e : OsError} (h : fs.createUpwards p.ancestors = (out, .error e)) :
    (∀ d, out.directory p ≠ .ok d) ∧ ∃ e', out.createUpwards p.ancestors = (out, .error e') := by
  induction hlen : p.parents.length using Nat.strong_induction_on generalizing p fs out e with
  | _ k ih =>
      rcases createUpwards_cases h with ⟨-, -, hok⟩ | ⟨hp, ⟨-, hok⟩ | ⟨e', -, -, rfl, herror⟩ |
        ⟨-, ⟨e', hup, -⟩ | ⟨made, hup, ⟨-, hok⟩ | ⟨e', hcreate, rfl, herror⟩⟩⟩⟩
      · cases hok
      · cases hok
      · exact ⟨ne_of_unlessDirectory_error herror, e, h⟩
      · rcases p.parents_cases with hnil | ⟨q, hq, hempty | habove⟩
        · rw [hnil] at hup
          cases hup
        · rw [hq, createUpwards, if_pos (by simpa using hempty)] at hup
          cases hup
        · -- the directories above cannot be made again, and without them this one cannot
          rw [hq, ← Path.ancestors] at hup
          obtain ⟨hnone, e'', hagain⟩ := ih q.parents.length (by rw [← hlen, hq]; simp) hup rfl
          obtain ⟨last, i, -, -, hway⟩ := exists_walk_of_isAbove habove
          have hdir : ∀ d, out.directory p ≠ .ok d := by
            intro d hd
            obtain ⟨d', -, hd', -⟩ := hway out d hd
            exact hnone d' hd'
          refine ⟨hdir, ?_⟩
          cases hcreate : out.createDirectory p with
          | ok made =>
              obtain ⟨d, hd⟩ := directory_of_createDirectory habove hcreate
              exact absurd hd (hnone d)
          | error e' =>
              exact exists_createUpwards_error hp hdir hcreate ⟨_, by rw [hq]; exact hagain⟩
      · cases hok
      · have hdir := ne_of_unlessDirectory_error herror
        exact ⟨hdir, exists_createUpwards_error hp hdir hcreate
          ⟨_, createUpwards_parents_again hup⟩⟩

/-! ### New directories -/

/-- What a path goes on to from a new directory is new as well. -/
lemma node?_of_new (hfs : fs.WellFormed) (hgrows : Grows fs out) {links i : Nat} {last : Name}
    {d' : Place} (hnew : fs.node? d' = none) (hdot : last ≠ ['.']) (hdots : last ≠ ['.', '.'])
    (h : Walk out true links d' (last :: List.replicate i ['.']) ⟨d, some .directory⟩) :
    fs.node? d = none := by
  have hbelow := hfs.node?_cons_of_eq_none hnew last
  generalize hrest : List.replicate i ['.'] = rest at h
  cases h with
  | stay _ => exact absurd rfl hdot
  | up _ => exact absurd rfl hdots
  | enter _ _ hstays =>
      rw [← hrest, ← List.nil_append (List.replicate _ _), walk_append_dots_iff] at hstays
      cases hstays
      exact hbelow
  | through _ hnode _ _ =>
      rw [hgrows.node?_of hnode (by simp)] at hbelow
      cases hbelow

/-- A directory under a path without steps up was there, or it is new when it is made. -/
theorem createDirectories_new (hfs : fs.WellFormed) (hdots : ['.', '.'] ∉ p.names)
    (hp : p.text ≠ []) (h : fs.createDirectories p = (out, .ok ())) :
    (∃ d, fs.directory p = .ok d) ∨ ∃ d, out.directory p = .ok d ∧ fs.node? d = none := by
  rw [createDirectories] at h
  induction hlen : p.parents.length using Nat.strong_induction_on generalizing p out with
  | _ k ih =>
      rcases createUpwards_cases h with ⟨hempty, -⟩ | ⟨-, ⟨hmade, -⟩ | ⟨e, -, -, -, hok⟩ |
        ⟨hmissing, ⟨e, -, herror⟩ | ⟨made, hup, hthen⟩⟩⟩
      · exact absurd hempty hp
      · obtain ⟨-, d, hnone, hd⟩ := createDirectory_ok hmade
        exact .inr ⟨d, hd, hnone⟩
      · exact .inl (of_unlessDirectory_ok hok.symm)
      · cases herror
      · have hsame : made = fs → ∃ d, fs.directory p = .ok d := by
          rintro rfl
          rcases hthen with ⟨hmade, -⟩ | ⟨e, -, -, hok⟩
          · cases hmissing.symm.trans hmade
          · exact of_unlessDirectory_ok hok.symm
        rcases p.parents_cases with hnil | ⟨q, hq, hempty | habove⟩
        · rw [hnil] at hup
          cases hup
          exact .inl (hsame rfl)
        · rw [hq, createUpwards, if_pos (by simpa using hempty)] at hup
          cases hup
          exact .inl (hsame rfl)
        · obtain ⟨last, i, hdot, hmem, hway⟩ := exists_walk_of_isAbove habove
          rw [hq, ← Path.ancestors] at hup
          have hgrows : Grows fs made := by
            have hspec := (@createUpwards_spec fs q.ancestors).1
            rwa [hup] at hspec
          have hdots' : ['.', '.'] ∉ q.names := fun hmem =>
            hdots (habove.mem_names hmem (by decide))
          rcases ih q.parents.length (by rw [← hlen, hq]; simp) hdots' habove.text hup rfl with
            ⟨d', hd'⟩ | ⟨d', hd', hnew⟩
          · rw [Path.ancestors, createUpwards_of_directory hd'] at hup
            cases hup
            exact .inl (hsame rfl)
          · right
            rcases hthen with ⟨hmade, -⟩ | ⟨e, -, rfl, hok⟩
            · obtain ⟨-, d, hnone, hd⟩ := createDirectory_ok hmade
              refine ⟨d, hd, ?_⟩
              by_contra hcon
              obtain ⟨node, hnode⟩ := Option.ne_none_iff_exists'.mp hcon
              rw [hgrows.node?_eq hnode] at hnone
              cases hnone
            · obtain ⟨d, hd⟩ := of_unlessDirectory_ok hok.symm
              obtain ⟨d'', k', hd'', hwalk⟩ := hway out d hd
              cases hd'.symm.trans hd''
              have hlast : last ≠ ['.', '.'] := fun hlast => hdots (hlast ▸ hmem)
              exact ⟨d, hd, node?_of_new hfs hgrows hnew hdot hlast hwalk⟩

end FileSystem

end Externalize
