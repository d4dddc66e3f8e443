import Externalize.Proofs.Files.Directories

/-
Absolute paths that spell out a place.

* `Path.Spells`: the path starts at the root and has the names of the place, and no steps up.
* `Path.Spells.join`, `Path.Spells.parents`: the paths of an entry in a directory and of the
  directory of an entry; `Path.Spells.exists_ancestors` says which paths come first among the
  ancestors.
* `FileSystem.AgreeTo`: two file systems with the same entries on the way to a place, none of which
  is a link; `FileSystem.AgreeTo.status_eq` says that a path that spells the place leads to the same
  in both.
* `FileSystem.directory_of_spells`: a path that spells the place of a directory leads there.
-/
namespace Externalize

open FileSystem (IsName plainNames)

namespace Path

variable {p q : Path} {n : Name} {d g s : Place}

/-! ### Names without steps to the place itself -/

/-- An absolute path that spells out a place: it has no steps up, and its names are those of the
place but for steps to the place itself. -/
structure Spells (p : Path) (s : Place) : Prop where
  isAbsolute : p.isAbsolute = true
  noUp : ['.', '.'] ∉ p.names
  names : p.names.filter (· ≠ ['.']) = s.reverse

instance (p : Path) (s : Place) : Decidable (p.Spells s) :=
  decidable_of_iff
    (p.isAbsolute = true ∧ ['.', '.'] ∉ p.names ∧ p.names.filter (· ≠ ['.']) = s.reverse)
    ⟨fun h => ⟨h.1, h.2.1, h.2.2⟩, fun h => ⟨h.isAbsolute, h.noUp, h.names⟩⟩

lemma filter_names (p : Path) :
    p.names.filter (· ≠ ['.']) = (plainNames p).filter (· ≠ ['.']) := by
  rw [names_eq]
  split_ifs
  · rw [List.filter_append]
    exact List.append_nil _
  · rfl

lemma mem_names_of_mem_plainNames (h : n ∈ plainNames p) : n ∈ p.names := by
  rw [names_eq]
  split_ifs
  · exact List.mem_append_left _ h
  · exact h

lemma filter_replicate_dot (k : Nat) : (List.replicate k ['.']).filter (· ≠ ['.']) = [] := by
  rw [List.filter_eq_nil_iff]
  intro m hm
  simp [List.eq_of_mem_replicate hm]

/-! ### The paths above an absolute path -/

lemma above_eq_nil_iff {r : List Text} : above [] r = [] ↔ ∀ s ∈ r, isIdle s := by
  induction r with
  | nil => simp [above]
  | cons s r ih =>
      rw [above, List.forall_mem_cons]
      split_ifs with hs
      · rw [ih]
        exact ⟨fun h => ⟨hs, h⟩, fun h => h.2⟩
      · exact iff_of_false (by simp) fun h => hs h.1

lemma text_ne_nil_of_mem_above {r : List Text} (h : q ∈ above [] r) : q.text ≠ [] := by
  induction r with
  | nil => exact absurd h List.not_mem_nil
  | cons s r ih =>
      rw [above] at h
      split_ifs at h
      · exact ih h
      · rcases List.mem_cons.mp h with rfl | h
        · rw [ofSegments]
          split_ifs with hempty
          · exact List.cons_ne_nil _ _
          · rw [unsplit_cons (by simpa using hempty)]
            simp
        · exact ih h

lemma exists_split_of_isAbsolute (h : p.isAbsolute = true) :
    ∃ others, split p.text = [] :: others := by
  rw [isAbsolute, beq_iff_eq] at h
  obtain ⟨r, hr⟩ := List.head?_eq_some_iff.mp h
  exact ⟨split r, by rw [hr, split, if_pos rfl]⟩

/-- The paths above an absolute path: the one right above it and those above that one, unless the
path has idle names only. -/
lemma parents_cases_of_isAbsolute (h : p.isAbsolute = true) :
    (p.parents = [] ∧ p.names.filter (· ≠ ['.']) = []) ∨
      ∃ q, p.parents = q :: q.parents ∧ q.IsAbove p := by
  obtain ⟨others, hs⟩ := exists_split_of_isAbsolute h
  have hparents : p.parents = above [] others.reverse := by rw [parents, hs]
  rcases p.parents_cases with hnil | ⟨q, hq, hempty | habove⟩
  · left
    refine ⟨hnil, ?_⟩
    rw [hparents, above_eq_nil_iff] at hnil
    obtain ⟨j, hj⟩ := filter_idle fun s hmem => hnil s (List.mem_reverse.mpr hmem)
    rw [filter_names, FileSystem.plainNames_eq, hs, List.filter_cons_of_neg (by simp), hj,
      filter_replicate_dot]
  · refine absurd hempty (text_ne_nil_of_mem_above (r := others.reverse) ?_)
    rw [← hparents, hq]
    exact List.mem_cons_self
  · exact .inr ⟨q, hq, habove⟩

namespace Spells

/-- The path of an entry in a directory. -/
lemma join (h : p.Spells d) (hn : IsName n) : (p.join ⟨n⟩).Spells (n :: d) where
  isAbsolute := (isAbsolute_join hn.2.1).trans h.isAbsolute
  noUp := by
    obtain ⟨hne, hslash, -, -, hdots, -⟩ := hn
    rw [names_join p hne hslash, List.mem_append, List.mem_singleton]
    rintro (hmem | hmem)
    · exact h.noUp (mem_names_of_mem_plainNames hmem)
    · exact hdots hmem.symm
  names := by
    obtain ⟨hne, hslash, -, hdot, -⟩ := hn
    have hlast : [n].filter (· ≠ ['.']) = [n] := List.filter_cons_of_pos (by simpa using hdot)
    rw [names_join p hne hslash, List.filter_append, ← filter_names, h.names, hlast,
      List.reverse_cons]

/-- The path right above that of an entry. -/
lemma parents (h : p.Spells (n :: d)) : ∃ q, p.parents = q :: q.parents ∧ q.Spells d := by
  rcases parents_cases_of_isAbsolute h.isAbsolute with ⟨-, hnil⟩ | ⟨q, hq, habove⟩
  · rw [h.names] at hnil
    exact absurd hnil (by simp)
  · refine ⟨q, hq, habove.isAbsolute.trans h.isAbsolute,
      fun hmem => h.noUp (habove.mem_names hmem (by decide)), ?_⟩
    obtain ⟨ns, last, i, j, k, hplain, hlast, hnames⟩ := habove.names
    have hkept : (last :: List.replicate i ['.']).filter (· ≠ ['.']) = [last] := by
      rw [List.filter_cons_of_pos (by simpa using hlast), filter_replicate_dot]
    have hp := h.names
    rw [filter_names, hplain, List.filter_append, List.filter_append, filter_replicate_dot,
      List.append_nil, hkept, List.reverse_cons] at hp
    rw [hnames, List.filter_append, filter_replicate_dot, List.append_nil]
    exact (List.append_inj' hp rfl).1

lemma parent? (h : p.Spells (n :: d)) : ∃ q, p.parent? = some q ∧ q.Spells d := by
  obtain ⟨q, hq, hspells⟩ := h.parents
  exact ⟨q, by rw [Path.parent?, hq]; rfl, hspells⟩

/-- The ancestors of a path begin with the paths of the places down from a place above it, and the
path of that place. -/
theorem exists_ancestors (h : p.Spells s) (hg : g <:+ s) :
    ∃ below d above, p.ancestors = below ++ d :: above ∧ d.Spells g ∧
      ∀ q ∈ below, ∃ r, g <:+ r ∧ q.Spells r := by
  induction s generalizing p with
  | nil =>
      obtain rfl := List.suffix_nil.mp hg
      exact ⟨[], p, p.parents, rfl, h, fun q hq => absurd hq List.not_mem_nil⟩
  | cons n s ih =>
      rcases List.suffix_cons_iff.mp hg with rfl | hg'
      · exact ⟨[], p, p.parents, rfl, h, fun q hq => absurd hq List.not_mem_nil⟩
      · obtain ⟨q, hq, hspells⟩ := h.parents
        obtain ⟨below, d, above, hancestors, hd, hbelow⟩ := ih hspells hg'
        refine ⟨p :: below, d, above, ?_, hd, List.forall_mem_cons.mpr ⟨⟨_, hg, h⟩, hbelow⟩⟩
        rw [ancestors, hq, ← ancestors, hancestors, List.cons_append]

end Spells

end Path

namespace FileSystem

variable {fs fs' : FileSystem} {follow : Bool} {links : Nat} {here r d : Place} {ns : List Name}
  {p : Path} {n : Name} {node : Node}

/-! ### The way to a place -/

/-- A name on the way to a place. -/
lemma suffix_of_way (hn : n ≠ ['.'])
    (h : here.reverse ++ (n :: ns).filter (· ≠ ['.']) = r.reverse) :
    n :: here <:+ r ∧ (n :: here).reverse ++ ns.filter (· ≠ ['.']) = r.reverse := by
  rw [List.filter_cons_of_pos (by simpa using hn), List.append_cons, ← List.reverse_cons] at h
  refine ⟨?_, h⟩
  rw [← List.reverse_prefix, ← h]
  exact List.prefix_append _ _

/-- Two file systems with the same entries on the way to a place, none of which is a link. -/
structure AgreeTo (fs fs' : FileSystem) (r : Place) : Prop where
  same : ∀ q, q <:+ r → fs'.node? q = fs.node? q
  noLink : ∀ q, q <:+ r → ∀ target, fs.node? q ≠ some (.link target)

namespace AgreeTo

/-- A walk on the way to the place is the same in both. -/
lemma walk_eq (h : AgreeTo fs fs' r) (hup : ['.', '.'] ∉ ns)
    (hway : here.reverse ++ ns.filter (· ≠ ['.']) = r.reverse) :
    fs'.walk follow links here ns = fs.walk follow links here ns := by
  induction ns generalizing here with
  | nil => rw [walk_nil, walk_nil]
  | cons n ns ih =>
      obtain ⟨hn, hrest⟩ := List.ne_and_not_mem_of_not_mem_cons hup
      rcases name_cases n with rfl | rfl | ⟨h₁, h₂, h₃⟩ | hentry
      · rw [walk_stay, walk_stay, ih hrest hway]
      · exact absurd rfl hn
      · rw [walk_long h₁ h₂ h₃, walk_long h₁ h₂ h₃]
      · obtain ⟨hon, hway⟩ := suffix_of_way hentry.1 hway
        rw [walk_entry hentry, walk_entry hentry, h.same _ hon]
        rcases hnode : fs.node? (n :: here) with _ | ⟨⟩ | _ | target
        · rfl
        · rfl
        · exact ih hrest hway
        · exact absurd hnode (h.noLink _ hon target)

variable (h : AgreeTo fs fs' r) (hp : p.Spells r)
include h hp

/-- A path that spells the place leads to the same in both. -/
theorem status_eq : fs'.status p = fs.status p := by
  have hwalk : fs'.walk true maxLinks [] p.names = fs.walk true maxLinks [] p.names :=
    h.walk_eq hp.noUp hp.names
  rw [status, status, resolve, resolve, startOf, startOf, hp.isAbsolute, if_pos rfl,
    if_pos rfl, hwalk]

lemma has_eq : fs'.has p = fs.has p := by
  rw [has, has, h.status_eq hp]

lemma readText_eq : fs'.readText p = fs.readText p := by
  rw [readText, readText, read, read, h.status_eq hp]

end AgreeTo

/-! ### What paths that spell places lead to -/

/-- The names of the place of a directory lead to it, with steps to the place itself in between. -/
lemma WellFormed.walk_of_filter (hfs : fs.WellFormed) (hd : fs.node? d = some .directory)
    (hup : ['.', '.'] ∉ ns) (hway : here.reverse ++ ns.filter (· ≠ ['.']) = d.reverse) :
    Walk fs true links here ns ⟨d, some .directory⟩ := by
  induction ns generalizing here with
  | nil =>
      rw [List.filter_nil, List.append_nil] at hway
      rw [← List.reverse_injective hway]
      exact .done
  | cons n ns ih =>
      obtain ⟨hn, hrest⟩ := List.ne_and_not_mem_of_not_mem_cons hup
      by_cases hdot : n = ['.']
      · subst hdot
        exact .stay (ih hrest hway)
      · obtain ⟨hon, hway⟩ := suffix_of_way hdot hway
        have hnode := hfs.node?_of_suffix hd hon
        exact .enter (hfs.isName hnode List.mem_cons_self).2.2.2 hnode (ih hrest hway)

/-- A path that spells the place of a directory leads there. -/
theorem WellFormed.directory_of_spells (hfs : fs.WellFormed) (hp : p.Spells d)
    (hd : fs.node? d = some .directory) : fs.directory p = .ok d := by
  refine directory_eq_ok_iff.mpr (resolve_eq_ok_iff.mpr ⟨fun hmem => ?_, ?_, ?_⟩)
  · -- A character other than a slash is in one of the names.
    rw [← Path.unsplit_split p.text] at hmem
    obtain ⟨m, hm, hc⟩ := (Path.mem_of_mem_unsplit hmem).resolve_left (by decide)
    have hname : m ∈ p.names.filter (· ≠ ['.']) := by
      rw [Path.filter_names, plainNames_eq]
      refine List.mem_filter.mpr ⟨List.mem_filter.mpr ⟨hm, ?_⟩, ?_⟩
      · cases m with
        | nil => exact absurd hc List.not_mem_nil
        | cons => rfl
      · rw [decide_eq_true_iff]
        rintro rfl
        exact absurd hc (by decide)
    rw [hp.names, List.mem_reverse] at hname
    cases d with
    | nil => exact absurd hname List.not_mem_nil
    | cons k d => exact (hfs.isName hd hname).2.2.1 hc
  · intro hnil
    have habs := hp.isAbsolute
    rw [Path.isAbsolute, hnil] at habs
    cases habs
  · rw [startOf, hp.isAbsolute, if_pos rfl]
    exact hfs.walk_of_filter hd hp.noUp hp.names

/-- A path of a directory with an entry in it leads to the entry, unless that is a link. -/
lemma WellFormed.status_join (hfs : fs.WellFormed) (hp : fs.directory p = .ok d)
    (hnode : fs.node? (n :: d) = some node) (hlink : ∀ target, node ≠ .link target) :
    fs.status (p.join ⟨n⟩) = .ok node := by
  obtain ⟨hne, hslash, hnul, hn⟩ := hfs.isName hnode List.mem_cons_self
  obtain ⟨hpnul, hpne, hwalk⟩ := resolve_eq_ok_iff.mp (directory_eq_ok_iff.mp hp)
  obtain ⟨k, -, hgo⟩ := (walk_names_iff.mp hwalk).append rfl
  refine status_eq_ok_iff.mpr ⟨n :: d, resolve_eq_ok_iff.mpr
    ⟨(Path.nul_notMem_join hslash hpne).mpr ⟨hpnul, hnul⟩, Path.text_join_ne_nil hne hslash, ?_⟩⟩
  rw [Path.names_join p hne hslash, startOf, Path.isAbsolute_join hslash]
  refine hgo _ _ _ (List.cons_ne_nil _ _) ?_
  cases node with
  | file b m => exact .file hn hnode
  | directory => exact .enter hn hnode .done
  | link target => exact absurd rfl (hlink target)

end FileSystem

end Externalize
