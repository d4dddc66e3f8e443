import Externalize.Config.Basic
import Externalize.Proofs.Resource.Founding

/-
The stores of configurations without a problem.

* `Path.extension?_join`: the extension of a name that is joined to a path.
* `Config.isDocument_defaultDocument`: the default document of a configuration without a problem is
  named as documents are, if its name has no slash.
* `Config.documents_of_merge`: the default document is the only document once it is made, and later
  merges go into it; `Config.not_forall_makesOnlyDefault` says that each of the conditions for this
  is needed.
-/
namespace Externalize

/-! ### Extensions -/

namespace Path

variable {p : Path} {n a e : Text}

/-- A name that is joined to a path is its last component. -/
lemma fileName?_join (hn : n ≠ []) (hslash : '/' ∉ n) (hdot : n ≠ ['.']) (hdots : n ≠ ['.', '.']) :
    (p.join ⟨n⟩).fileName? = some n := by
  have hidle : isIdle n = false := by simp [isIdle, hn, hdot]
  rcases eq_or_ne p.text [] with hp | hp
  · rw [join_of_empty hp, fileName?, split_of_notMem hslash]
    simp [hidle, hdots]
  · obtain ⟨t, htext, -⟩ := exists_text_join hslash hp
    obtain ⟨first, others, hs⟩ := List.exists_cons_of_ne_nil (split_ne_nil t)
    rw [fileName?, htext, split_append, split_of_notMem hslash, hs]
    simp [hidle, hdots]

/-- What stands after the last dot of a name that is joined to a path is its extension. -/
theorem extension?_join (ha : a ≠ []) (he : '.' ∉ e) (hslash : '/' ∉ a ++ '.' :: e)
    (hdots : a ++ '.' :: e ≠ ['.', '.']) : (p.join ⟨a ++ '.' :: e⟩).extension? = some e := by
  have hdot : a ++ '.' :: e ≠ ['.'] := by simp [List.append_eq_singleton_iff, ha]
  have hstem : ((a ++ '.' :: e).reverse.dropWhile (· != '.')).drop 1 = a.reverse := by
    rw [List.reverse_append, List.reverse_cons, List.append_assoc,
      List.dropWhile_append_of_pos fun c hc => ?_]
    · simp
    · rw [bne_iff_ne]
      rintro rfl
      exact he (List.mem_reverse.mp hc)
  rw [extension?, fileName?_join (by simp) hslash hdot hdots]
  simp only [hstem]
  simp [ha]

end Path

namespace Config

open Store FileSystem

variable {c : Config}

/-! ### Configurations without a problem -/

lemma extensionProblem?_eq_none_iff {field : ConfigField} {e : Text} :
    extensionProblem? field e = none ↔ e ≠ [] ∧ '.' ∉ e ∧ '/' ∉ e ∧ '\\' ∉ e := by
  rw [extensionProblem?]
  split_ifs with hbad
  · simp only [false_iff]
    rintro ⟨hne, hdot, hslash, hback⟩
    simp only [Bool.or_eq_true, List.isEmpty_iff, List.any_eq_true, beq_iff_eq] at hbad
    rcases hbad with hempty | ⟨x, hx, (rfl | rfl) | rfl⟩
    · exact hne hempty
    · exact hdot hx
    · exact hslash hx
    · exact hback hx
  · simp only [Bool.or_eq_true, List.isEmpty_iff, List.any_eq_true, beq_iff_eq, not_or, not_exists,
      not_and] at hbad
    obtain ⟨hne, hbare⟩ := hbad
    exact iff_of_true rfl ⟨hne, fun hx => (hbare _ hx).1.1 rfl, fun hx => (hbare _ hx).1.2 rfl,
      fun hx => (hbare _ hx).2 rfl⟩

lemma ne_nil_of_blankProblem? {field : ConfigField} {t : Text} (h : blankProblem? field t = none) :
    t ≠ [] := by
  rintro rfl
  cases h

/-- The extension of resources is bare then, and the directory is not blank. -/
lemma of_problem?_eq_none (h : c.problem? = none) :
    extensionProblem? .resourceExtension c.resourceExtension = none ∧ c.directory ≠ [] := by
  simp only [problem?, Option.orElse_eq_none] at h
  obtain ⟨hextension, -, -, -, -, hdirectory⟩ := h
  exact ⟨hextension, ne_nil_of_blankProblem? hdirectory⟩

section

variable (hc : c.problem? = none) (root : Path)
include hc

/-- The path of the localization directory is not empty. -/
lemma text_directory_ne_nil : (c.store root).directory.text ≠ [] := by
  obtain ⟨-, hne⟩ := of_problem?_eq_none hc
  show (root.join ⟨c.directory⟩).text ≠ []
  rw [Path.join]
  split_ifs
  · exact hne
  · simp [hne]
  · simp

variable (hstem : '/' ∉ c.stem) (hlocale : '/' ∉ c.locale)
include hstem hlocale

/-- The name of the default document has no slash, if its parts have none. -/
lemma notMem_defaultName : '/' ∉ (c.store root).defaultName := by
  obtain ⟨hextension, -⟩ := of_problem?_eq_none hc
  obtain ⟨-, -, hslash, -⟩ := extensionProblem?_eq_none_iff.mp hextension
  show '/' ∉ c.stem ++ '_' :: c.locale ++ '.' :: c.resourceExtension
  simp [hstem, hlocale, hslash]

/-- The default document is named as documents are. -/
theorem isDocument_defaultDocument :
    (c.store root).isDocument (c.store root).defaultDocument = true := by
  obtain ⟨hextension, -⟩ := of_problem?_eq_none hc
  obtain ⟨-, hdot, -, -⟩ := extensionProblem?_eq_none_iff.mp hextension
  have hname := Path.extension?_join (p := (c.store root).directory)
    (a := c.stem ++ '_' :: c.locale) (by simp) hdot
    (notMem_defaultName hc root hstem hlocale) ?_
  · rw [isDocument, defaultDocument, beq_iff_eq]
    exact hname
  · intro hdots
    have hmem : '_' ∈ ['.', '.'] := hdots ▸ by simp
    exact absurd hmem (by decide)

/-- **The default document of a project.** If a merge without failures finds no document once the
directory is made, then the default document is the only one after it, and each later merge puts its
key into that one and does not make it; provided that its name has no slash, that its path does not
pass its own entry, and that no other entry comes to lead to a document. -/
theorem documents_of_merge {fs : FileSystem} {k : Key} {v : Text} {report : MergeReport}
    (hfs : fs.WellFormed) (hnone : (c.store root).documents ((c.store root).ready fs) = [])
    (hruns : ¬ RunsThroughEntry ((c.store root).ready fs) (c.store root).defaultDocument)
    (halias : ¬ (c.store root).Aliases fs k v)
    (hreport : ((c.store root).merge fs k v).result = .ok report) (hfailed : report.failed = []) :
    (c.store root).documents ((c.store root).merge fs k v).files =
    [(c.store root).defaultDocument] ∧
      ∀ ms reports out, Merges (c.store root) ((c.store root).merge fs k v).files ms reports out →
        (c.store root).documents out = [(c.store root).defaultDocument] ∧
          (∀ r ∈ reports, ∃ a, r = ⟨false, [⟨(c.store root).defaultDocument, a⟩], []⟩) ∧
          ∀ k' v', ∃ a, ((c.store root).merge out k' v').result =
            .ok ⟨false, [⟨(c.store root).defaultDocument, a⟩], []⟩ := by
  have hname : (c.store root).defaultName ≠ [] := by
    show c.stem ++ '_' :: c.locale ++ '.' :: c.resourceExtension ≠ []
    simp
  have hfounded := founded_of_merge hfs (text_directory_ne_nil hc root)
    (isDocument_defaultDocument hc root hstem hlocale) hname
    (notMem_defaultName hc root hstem hlocale) hnone hruns halias hreport hfailed
  refine ⟨hfounded.documents, fun ms reports out hrun => ?_⟩
  obtain ⟨hout, hreports⟩ := hfounded.merges hrun
  exact ⟨hout.documents, hreports, fun k' v' => (hout.merge k' v').1⟩

end

/-- The localization directory of a project, with these entries in it. -/
def project (entries : List (Name × Node)) : FileSystem where
  entries :=
    [(["p".toList], .directory), (["lib".toList, "p".toList], .directory),
      (["l10n".toList, "lib".toList, "p".toList], .directory)] ++
    entries.map fun e => ([e.1, "l10n".toList, "lib".toList, "p".toList], e.2)
  current := []

/-- A project whose default document is a link that leads to nothing. -/
def withDeadLink : FileSystem := project [("app_en.arb".toList, .link ⟨"gone.arb".toList⟩)]

/-- The store of a project without a configuration file. -/
def defaultStore : Store := default.store ⟨"/p".toList⟩

/-- The link gives way to the default document, and a later merge goes into that. -/
theorem documents_of_merge_withDeadLink : ∃ report,
    (defaultStore.merge withDeadLink ⟨"hi".toList, by decide⟩ "Hi".toList).result = .ok report ∧
    report.createdDefault = true ∧
    defaultStore.documents
      (defaultStore.merge withDeadLink ⟨"hi".toList, by decide⟩ "Hi".toList).files =
        [⟨"/p/lib/l10n/app_en.arb".toList⟩] ∧
    ∃ a, (defaultStore.merge
      (defaultStore.merge withDeadLink ⟨"hi".toList, by decide⟩ "Hi".toList).files
        ⟨"no".toList, by decide⟩ "No".toList).result =
      .ok ⟨false, [⟨⟨"/p/lib/l10n/app_en.arb".toList⟩, a⟩], []⟩ := by
  obtain ⟨report, hreport, hcreated, hfailed⟩ : ∃ report,
      (defaultStore.merge withDeadLink ⟨"hi".toList, by decide⟩ "Hi".toList).result = .ok report ∧
        report.createdDefault = true ∧ report.failed = [] := by decide +kernel
  have hruns : ¬ RunsThroughEntry (defaultStore.ready withDeadLink)
      defaultStore.defaultDocument := by
    decide +kernel
  have hfs : withDeadLink.WellFormed := by decide +kernel
  have hdefault : ∀ p ∈ defaultStore.entries (defaultStore.ready withDeadLink),
      p = defaultStore.defaultDocument := by decide +kernel
  obtain ⟨hdocuments, hlater⟩ := documents_of_merge (c := default) (by decide) ⟨"/p".toList⟩
    (by decide) (by decide) hfs (by decide +kernel) hruns
    (fun ⟨p, hp, hne, _⟩ => hne (hdefault p hp)) hreport hfailed
  exact ⟨report, hreport, hcreated, hdocuments, (hlater _ _ _ (.none _)).2.2 _ _⟩

/-- A locale with a slash. -/
def withSlash : Config := { default with locale := "x/y".toList }

/-- A directory by a path through one that is missing. -/
def throughMissing : Config := { default with directory := "gen/../lib/l10n".toList }

/-- A directory by a path through the default document. -/
def throughDefault : Config := { default with directory := "lib/l10n/app_en.arb/../l10n".toList }

/-- A project whose default document is the first of more links than half of what a path may have,
the last of which leads to a directory. -/
def withChain : FileSystem :=
  { project [("app_en.arb".toList, .link ⟨"../a".toList⟩)] with
    entries := (project [("app_en.arb".toList, .link ⟨"../a".toList⟩)]).entries ++
      ((List.range 20).map fun i =>
        ([List.replicate (i + 1) 'a', "lib".toList, "p".toList],
          Node.link ⟨List.replicate (i + 2) 'a'⟩)) ++
      [([List.replicate 21 'a', "lib".toList, "p".toList], .directory)] }

/-- After a merge without failures the default document is the only document. -/
def MakesOnlyDefault (s : Store) (fs : FileSystem) (k : Key) (v : Text) : Prop :=
  ∀ report, (s.merge fs k v).result = .ok report → report.failed = [] →
    s.documents (s.merge fs k v).files = [s.defaultDocument]

instance (s : Store) (fs : FileSystem) (k : Key) (v : Text) :
    Decidable (MakesOnlyDefault s fs k v) := by
  unfold MakesOnlyDefault
  infer_instance

/-- Without one of the conditions the default document need not be the only one: its name can have a
slash, so that it is not listed; an entry that led to nothing can come to lead to it; the path of a
directory that is missing can lead to one that has documents; and the path of the directory can pass
the default document, so that the directory is not found any more. -/
theorem not_forall_makesOnlyDefault :
    (¬ ∀ (c : Config) root fs k v, c.problem? = none → fs.WellFormed →
      (c.store root).documents fs = [] → (c.store root).documents ((c.store root).ready fs) = [] →
      ¬ RunsThroughEntry ((c.store root).ready fs) (c.store root).defaultDocument →
      ¬ (c.store root).Aliases fs k v → MakesOnlyDefault (c.store root) fs k v) ∧
    (¬ ∀ (c : Config) root fs k v, c.problem? = none → '/' ∉ c.stem → '/' ∉ c.locale →
      fs.WellFormed →
      (c.store root).documents fs = [] → (c.store root).documents ((c.store root).ready fs) = [] →
      ¬ RunsThroughEntry ((c.store root).ready fs) (c.store root).defaultDocument →
      MakesOnlyDefault (c.store root) fs k v) ∧
    (¬ ∀ (c : Config) root fs k v, c.problem? = none → '/' ∉ c.stem → '/' ∉ c.locale →
      fs.WellFormed →
      (c.store root).documents fs = [] →
      ¬ RunsThroughEntry ((c.store root).ready fs) (c.store root).defaultDocument →
      ¬ (c.store root).Aliases fs k v → MakesOnlyDefault (c.store root) fs k v) ∧
    ¬ ∀ (c : Config) root fs k v, c.problem? = none → '/' ∉ c.stem → '/' ∉ c.locale →
      fs.WellFormed →
      (c.store root).documents fs = [] → (c.store root).documents ((c.store root).ready fs) = [] →
      ¬ (c.store root).Aliases fs k v → MakesOnlyDefault (c.store root) fs k v := by
  refine ⟨fun h => ?_, fun h => ?_, fun h => ?_, fun h => ?_⟩
  · exact absurd (h withSlash ⟨"/p".toList⟩ (project []) ⟨"hi".toList, by decide⟩ "Hi".toList
      (by decide) (by decide +kernel) (by decide +kernel) (by decide +kernel) (by decide +kernel)
      (by decide +kernel)) (by decide +kernel)
  · exact absurd (h default ⟨"/p".toList⟩ (project [("a.arb".toList, .link ⟨"app_en.arb".toList⟩)])
      ⟨"hi".toList, by decide⟩ "Hi".toList (by decide) (by decide) (by decide) (by decide +kernel)
      (by decide +kernel) (by decide +kernel) (by decide +kernel)) (by decide +kernel)
  · exact absurd (h throughMissing ⟨"/p".toList⟩ (project [("a.arb".toList, .file .empty 0o644)])
      ⟨"hi".toList, by decide⟩ "Hi".toList (by decide) (by decide) (by decide) (by decide +kernel)
      (by decide +kernel) (by decide +kernel) (by decide +kernel)) (by decide +kernel)
  · exact absurd (h throughDefault ⟨"/p".toList⟩ withChain ⟨"hi".toList, by decide⟩ "Hi".toList
      (by decide) (by decide) (by decide) (by decide +kernel) (by decide +kernel)
      (by decide +kernel)
      (by decide +kernel)) (by decide +kernel)

end Config

end Externalize
