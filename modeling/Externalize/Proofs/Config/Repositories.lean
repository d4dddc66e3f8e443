import Externalize.Config.Load
import Externalize.Proofs.Files.Spelling

/-
Configurations of directories in a repository.

* `FileSystem.IsRepository`: a directory with the mark of a repository, and no links in it.
* `Config.findIn_of_upTo`, `Config.find?_of_upTo`: searches among the ancestors of a directory end
  at one with the mark, and do not depend on what is above it.
* `Config.load_of_repository`: what is above a repository is of no account for a configuration, and
  the root of a project in it is in it.
-/
namespace Externalize

/-- A directory that holds the mark of a repository, and in which there are no links. -/
structure FileSystem.IsRepository (fs : FileSystem) (g : Place) : Prop where
  directory : fs.node? g = some .directory
  mark : fs.node? (Config.repositoryMark.text :: g) ≠ none
  noLink : ∀ q, g <:+ q → ∀ target, fs.node? q ≠ some (.link target)

namespace Config

open FileSystem

variable {fs fs' : FileSystem} {below : List Path} {d start : Path} {g r s : Place}

/-! ### Searches that end at a directory -/

/-- What two file systems have for the names that are looked up in some directories is the same. -/
def SameMarks (fs fs' : FileSystem) (ds : List Path) : Prop :=
  ∀ d ∈ ds, ∀ m ∈ fileName :: projectMarks, fs'.has (d.join m) = fs.has (d.join m)

/-- The search for a file ends at a directory with the mark of a repository. -/
lemma findIn_of_upTo (above : List Path) (hsame : SameMarks fs fs' (below ++ [d]))
    (hmark : fs.has (d.join repositoryMark) = true) :
    findIn fs' (below ++ d :: above) = findIn fs (below ++ d :: above) ∧
      ∀ path, findIn fs (below ++ d :: above) = some path →
        ∃ q ∈ below ++ [d], path = q.join fileName := by
  induction below with
  | nil =>
      have hd := hsame d (by simp)
      have hfile := hd fileName (by simp)
      have hmark' := (hd repositoryMark (by simp [projectMarks])).trans hmark
      rw [List.nil_append, findIn, findIn, hfile, hmark', hmark, if_pos rfl, if_pos rfl]
      refine ⟨rfl, fun path hpath => ⟨d, by simp, ?_⟩⟩
      split_ifs at hpath
      exact (Option.some_injective _ hpath).symm
  | cons q below ih =>
      obtain ⟨hq, hsame⟩ := List.forall_mem_cons.mp hsame
      obtain ⟨heq, hfound⟩ := ih hsame
      have hfile := hq fileName (by simp)
      have hmark' := hq repositoryMark (by simp [projectMarks])
      rw [List.cons_append, findIn, findIn, hfile, hmark', heq]
      refine ⟨rfl, fun path hpath => ?_⟩
      split_ifs at hpath
      · exact ⟨q, by simp, (Option.some_injective _ hpath).symm⟩
      · obtain ⟨q', hq', rfl⟩ := hfound path hpath
        exact ⟨q', List.mem_cons_of_mem q hq', rfl⟩

/-- A search ends at a directory that it looks for. -/
lemma find?_of_upTo {marked marked' : Path → Bool} (above : List Path)
    (hsame : ∀ q ∈ below ++ [d], marked' q = marked q) (hd : marked d = true) :
    (below ++ d :: above).find? marked' = (below ++ d :: above).find? marked ∧
      ∃ q ∈ below ++ [d], (below ++ d :: above).find? marked = some q := by
  induction below with
  | nil =>
      have hd' : marked' d = true := (hsame d (by simp)).trans hd
      rw [List.nil_append, List.find?_cons_of_pos hd, List.find?_cons_of_pos hd']
      exact ⟨rfl, d, by simp, rfl⟩
  | cons q below ih =>
      obtain ⟨hq, hsame⟩ := List.forall_mem_cons.mp hsame
      obtain ⟨heq, q', hq', hfound⟩ := ih hsame
      rw [List.cons_append, List.find?_cons, List.find?_cons, hq, heq]
      refine ⟨rfl, ?_⟩
      cases marked q with
      | true => exact ⟨q, List.mem_cons_self, rfl⟩
      | false => exact ⟨q', List.mem_cons_of_mem q hq', hfound⟩

/-! ### Directories in a repository -/

/-- The names that are looked up can be joined to paths. -/
lemma exists_name_of_mark {m : Path} (hm : m ∈ fileName :: projectMarks) :
    ∃ n, m = ⟨n⟩ ∧ IsName n := by
  simp only [projectMarks, List.mem_cons, List.not_mem_nil, or_false] at hm
  rcases hm with rfl | rfl | rfl <;> exact ⟨_, rfl, by decide⟩

section

variable (hfs : fs.WellFormed) (hfs' : fs'.WellFormed) (hg : fs.IsRepository g)
  (hsame : ∀ q, g <:+ q → fs'.node? q = fs.node? q)
include hfs hfs' hg hsame

/-- On the way to a place in the repository the file systems are the same: what is above it are
directories. -/
lemma agreeTo_of_repository (hr : g <:+ r) : AgreeTo fs fs' r := by
  have habove : ∀ q, q <:+ r → ¬ g <:+ q → q <:+ g := fun q hq hin =>
    (List.suffix_or_suffix_of_suffix hq hr).resolve_right hin
  have hg' : fs'.node? g = some .directory := (hsame g List.suffix_rfl).trans hg.directory
  refine ⟨fun q hq => ?_, fun q hq target => ?_⟩
  · by_cases hin : g <:+ q
    · exact hsame q hin
    · rw [hfs.node?_of_suffix hg.directory (habove q hq hin),
        hfs'.node?_of_suffix hg' (habove q hq hin)]
  · by_cases hin : g <:+ q
    · exact hg.noLink q hin target
    · rw [hfs.node?_of_suffix hg.directory (habove q hq hin)]
      simp

/-- The ancestors of a directory in the repository, up to the repository, hold the same. -/
lemma sameMarks_of_repository {ds : List Path} (hds : ∀ d ∈ ds, ∃ r, g <:+ r ∧ d.Spells r) :
    SameMarks fs fs' ds := by
  intro d hd m hm
  obtain ⟨r, hr, hspells⟩ := hds d hd
  obtain ⟨n, rfl, hn⟩ := exists_name_of_mark hm
  exact (agreeTo_of_repository hfs hfs' hg hsame (hr.trans (List.suffix_cons n r))).has_eq
    (hspells.join hn)

variable (hstart : start.Spells s) (hs : g <:+ s)
include hstart hs

/-- The ancestors of a directory in the repository, up to the repository, come first, and they hold
the same; the last one of them holds the mark. -/
lemma exists_ancestors_of_repository : ∃ below d above, start.ancestors = below ++ d :: above ∧
    SameMarks fs fs' (below ++ [d]) ∧ fs.has (d.join repositoryMark) = true ∧
    ∀ q ∈ below ++ [d], ∃ r, g <:+ r ∧ q.Spells r := by
  obtain ⟨below, d, above, hancestors, hd, hbelow⟩ := hstart.exists_ancestors hs
  have hspells : ∀ q ∈ below ++ [d], ∃ r, g <:+ r ∧ q.Spells r := by
    intro q hq
    rcases List.mem_append.mp hq with hq | hq
    · exact hbelow q hq
    · exact ⟨g, List.suffix_rfl, List.mem_singleton.mp hq ▸ hd⟩
  refine ⟨below, d, above, hancestors, sameMarks_of_repository hfs hfs' hg hsame hspells, ?_,
    hspells⟩
  obtain ⟨node, hnode⟩ := Option.ne_none_iff_exists'.mp hg.mark
  have hlink : ∀ target, node ≠ .link target := by
    rintro target rfl
    exact hg.noLink _ (List.suffix_cons _ g) target hnode
  have hstatus : fs.status (d.join repositoryMark) = .ok node :=
    hfs.status_join (hfs.directory_of_spells hd hg.directory) hnode hlink
  rw [has, hstatus]
  rfl

/-- The file that gives the configuration is at or below the repository. -/
lemma find?_of_repository : find? fs' start = find? fs start ∧
    ∀ path, find? fs start = some path →
      ∃ q r, g <:+ r ∧ q.Spells r ∧ path.parent? = some q ∧ ofFile fs' path = ofFile fs path := by
  obtain ⟨below, d, above, hancestors, hmarks, hmark, hspells⟩ :=
    exists_ancestors_of_repository hfs hfs' hg hsame hstart hs
  obtain ⟨heq, hfound⟩ := findIn_of_upTo above hmarks hmark
  rw [find?, find?, hancestors]
  refine ⟨heq, fun path hpath => ?_⟩
  obtain ⟨q, hq, rfl⟩ := hfound path hpath
  obtain ⟨r, hr, hqr⟩ := hspells q hq
  obtain ⟨n, hfile, hn⟩ := exists_name_of_mark List.mem_cons_self
  have hjoined : (q.join fileName).Spells (n :: r) := hfile ▸ hqr.join hn
  obtain ⟨root, hparent, hroot⟩ := hjoined.parent?
  refine ⟨root, r, hr, hroot, hparent, ?_⟩
  rw [ofFile, ofFile, (agreeTo_of_repository hfs hfs' hg hsame
    (hr.trans (List.suffix_cons n r))).readText_eq hjoined]

/-- The nearest directory with a mark is at or below the repository. -/
lemma projectRoot?_of_repository : projectRoot? fs' start = projectRoot? fs start ∧
    ∃ q r, g <:+ r ∧ q.Spells r ∧ projectRoot? fs start = some q := by
  obtain ⟨below, d, above, hancestors, hmarks, hmark, hspells⟩ :=
    exists_ancestors_of_repository hfs hfs' hg hsame hstart hs
  have hmarked : ∀ q ∈ below ++ [d], (projectMarks.any fun m => fs'.has (q.join m)) =
      projectMarks.any fun m => fs.has (q.join m) := by
    intro q hq
    rw [Bool.eq_iff_iff, List.any_eq_true, List.any_eq_true]
    exact exists_congr fun m => and_congr_right fun hm => by
      rw [hmarks q hq m (List.mem_cons_of_mem _ hm)]
  obtain ⟨heq, q, hq, hfound⟩ :=
    find?_of_upTo above hmarked
      (List.any_eq_true.mpr ⟨repositoryMark, by simp [projectMarks], hmark⟩)
  obtain ⟨r, hr, hqr⟩ := hspells q hq
  rw [projectRoot?, projectRoot?, hancestors]
  exact ⟨heq, q, r, hr, hqr, hfound⟩

/-- What is above a repository is of no account for the configuration of a directory in it, and the
root of the project is in the repository. -/
theorem load_of_repository : load fs' start = load fs start ∧
    ∀ l, load fs start = .ok l → ∃ r, g <:+ r ∧ l.root.Spells r := by
  obtain ⟨hfind, hfile⟩ := find?_of_repository hfs hfs' hg hsame hstart hs
  obtain ⟨hroot, q, r, hr, hspells, hfound⟩ :=
    projectRoot?_of_repository hfs hfs' hg hsame hstart hs
  rw [load, load, hfind, hroot, hfound]
  cases hpath : find? fs start with
  | none =>
      refine ⟨rfl, fun l hl => ?_⟩
      cases hl
      exact ⟨r, hr, hspells⟩
  | some path =>
      obtain ⟨d, r, hr, hspells, hparent, hsame⟩ := hfile path hpath
      refine ⟨by simp only [hsame], fun l hl => ?_⟩
      cases hc : ofFile fs path with
      | error e =>
          simp only [hc] at hl
          cases hl
      | ok c =>
          simp only [hc, hparent] at hl
          cases hl
          exact ⟨r, hr, hspells⟩

end

/-- A repository below the root, with a directory in it. -/
def repository : FileSystem where
  entries := [(["p".toList], .directory), ([".git".toList, "p".toList], .directory),
    (["lib".toList, "p".toList], .directory)]
  current := []

/-- The repository, and above it a configuration file without a localization directory. -/
def repositoryBelowFile : FileSystem :=
  repository.insert [fileName.text] (.file (bytesOf "\x7b\"l10nDir\": \"\"\x7d".toList) 0o644)

/-- The file above the repository is an error where it is found, and is not found in the
repository. -/
theorem load_repositoryBelowFile :
    load repositoryBelowFile ⟨"/".toList⟩ = .error (.invalid (.blank .directory)) ∧
      load repositoryBelowFile ⟨"/p/lib".toList⟩ = .ok ⟨default, ⟨"/p".toList⟩, none⟩ := by
  have hnolink : ∀ e ∈ repository.entries, ∀ target, e.2 ≠ .link target := by
    simp [repository]
  have hrepository : repository.IsRepository ["p".toList] := by
    refine ⟨by decide, by decide, fun q hq target hnode => ?_⟩
    cases q with
    | nil => exact absurd hq (by decide)
    | cons n q => exact hnolink _ (mem_entries hnode) target rfl
  have hsame : ∀ q, ["p".toList] <:+ q → repositoryBelowFile.node? q = repository.node? q := by
    intro q hq
    rw [repositoryBelowFile, node?_insert _ (by decide), if_neg]
    rintro rfl
    exact absurd hq (by decide)
  have hspells : Path.Spells ⟨"/p/lib".toList⟩ ["lib".toList, "p".toList] := by decide
  have hload := (load_of_repository (by decide) (by decide +kernel) hrepository hsame hspells
    (by decide)).1
  exact ⟨by decide +kernel, hload.trans (by decide +kernel)⟩

end Config

end Externalize
