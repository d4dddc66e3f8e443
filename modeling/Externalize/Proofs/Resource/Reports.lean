import Externalize.Proofs.Resource.Merging
import Externalize.Proofs.Resource.Setting

/-
What a merge reports.

* `Path.le_total`, `Path.le_trans`: paths are ordered.
* `Store.pairwise_foldr_insertByPath`, `Store.foldr_insertByPath_perm`: the lists of a report are in
  the order of paths, and nothing is lost in them.
* `Store.paths_report_perm`, `Store.mem_written_report`, `Store.mem_failed_report`: a report names
  each document once, with what became of it.
* `Store.report_of_merge`: a report tells what the merge did to the files, and nothing else was
  done.
-/
namespace Externalize

/-! ### The order of paths -/

namespace Path

lemma text_lt_or_lt {a b : Text} (h : a ≠ b) : a < b ∨ b < a := by
  rcases List.le_total a b with hab | hba
  · exact .inl ((List.le_iff_lt_or_eq.mp hab).resolve_right h)
  · exact .inr ((List.le_iff_lt_or_eq.mp hba).resolve_right h.symm)

lemma componentsLe_cons {a b : Text} {as bs : List Text} (h : a ≠ b) :
    componentsLe (a :: as) (b :: bs) = true ↔
      componentRank a < componentRank b ∨ componentRank a = componentRank b ∧ a < b := by
  rw [componentsLe, if_neg h]
  simp

lemma componentsLe_total (as bs : List Text) :
    componentsLe as bs = true ∨ componentsLe bs as = true := by
  induction as generalizing bs with
  | nil => exact .inl rfl
  | cons a as ih =>
      cases bs with
      | nil => exact .inr rfl
      | cons b bs =>
          rcases eq_or_ne a b with rfl | hne
          · simpa [componentsLe] using ih bs
          · rw [componentsLe_cons hne, componentsLe_cons hne.symm]
            rcases Nat.lt_trichotomy (componentRank a) (componentRank b) with h | h | h
            · exact .inl (.inl h)
            · exact (text_lt_or_lt hne).imp (fun hlt => .inr ⟨h, hlt⟩) fun hlt => .inr ⟨h.symm, hlt⟩
            · exact .inr (.inl h)

lemma componentsLe_trans {as bs cs : List Text} (h : componentsLe as bs = true)
    (h' : componentsLe bs cs = true) : componentsLe as cs = true := by
  induction as generalizing bs cs with
  | nil => rfl
  | cons a as ih =>
      cases bs with
      | nil => cases h
      | cons b bs =>
          cases cs with
          | nil => cases h'
          | cons c cs =>
              rcases eq_or_ne a b with rfl | hab
              · rcases eq_or_ne a c with rfl | hac
                · simp only [componentsLe, if_true] at h h' ⊢
                  exact ih h h'
                · rw [componentsLe_cons hac] at h' ⊢
                  exact h'
              · rw [componentsLe_cons hab] at h
                rcases eq_or_ne b c with rfl | hbc
                · rw [componentsLe_cons hab]
                  exact h
                · rw [componentsLe_cons hbc] at h'
                  have hac : a ≠ c := by
                    rintro rfl
                    rcases h with h | ⟨h, hlt⟩ <;> rcases h' with h' | ⟨h', hlt'⟩
                    · omega
                    · omega
                    · omega
                    · exact List.lt_irrefl _ (List.lt_trans hlt hlt')
                  rw [componentsLe_cons hac]
                  rcases h with h | ⟨h, hlt⟩ <;> rcases h' with h' | ⟨h', hlt'⟩
                  · exact .inl (by omega)
                  · exact .inl (by omega)
                  · exact .inl (by omega)
                  · exact .inr ⟨by omega, List.lt_trans hlt hlt'⟩

theorem le_total (p q : Path) : p.le q = true ∨ q.le p = true := componentsLe_total _ _

theorem le_trans {p q r : Path} (h : p.le q = true) (h' : q.le r = true) : p.le r = true :=
  componentsLe_trans h h'

end Path

namespace Store

/-! ### Lists by paths -/

section

variable {α : Type} (path : α → Path)

lemma insertByPath_perm (a : α) (as : List α) : (insertByPath path a as).Perm (a :: as) := by
  induction as with
  | nil => rfl
  | cons b as ih =>
      rw [insertByPath]
      split_ifs
      · rfl
      · exact (ih.cons b).trans (List.Perm.swap a b as)

lemma pairwise_insertByPath (a : α) {as : List α}
    (h : as.Pairwise fun a b => (path a).le (path b) = true) :
    (insertByPath path a as).Pairwise fun a b => (path a).le (path b) = true := by
  induction as with
  | nil => simp [insertByPath]
  | cons b as ih =>
      obtain ⟨hb, has⟩ := List.pairwise_cons.mp h
      rw [insertByPath]
      split_ifs with hle
      · refine List.pairwise_cons.mpr ⟨fun c hc => ?_, h⟩
        rcases List.mem_cons.mp hc with rfl | hc
        · exact hle
        · exact Path.le_trans hle (hb c hc)
      · refine List.pairwise_cons.mpr ⟨fun c hc => ?_, ih has⟩
        rcases List.mem_cons.mp ((insertByPath_perm path a as).mem_iff.mp hc) with rfl | hc
        · exact (Path.le_total (path b) (path c)).resolve_right hle
        · exact hb c hc

theorem foldr_insertByPath_perm (as : List α) : (as.foldr (insertByPath path) []).Perm as := by
  induction as with
  | nil => rfl
  | cons a as ih => exact (insertByPath_perm path a _).trans (ih.cons a)

theorem pairwise_foldr_insertByPath (as : List α) :
    (as.foldr (insertByPath path) []).Pairwise fun a b => (path a).le (path b) = true := by
  induction as with
  | nil => exact List.Pairwise.nil
  | cons a as ih => exact pairwise_insertByPath path a ih

end

/-! ### Reports -/

variable {createdDefault : Bool} {results : List (Path × Except DocumentError KeyAction)}

theorem mem_written_report {w : WrittenDocument} :
    w ∈ (report createdDefault results).written ↔ (w.path, .ok w.action) ∈ results := by
  rw [report, (foldr_insertByPath_perm _ _).mem_iff, List.mem_filterMap]
  constructor
  · rintro ⟨⟨path, e | action⟩, hr, hw⟩
    · cases hw
    · cases hw
      exact hr
  · exact fun hr => ⟨_, hr, rfl⟩

theorem mem_failed_report {w : FailedDocument} :
    w ∈ (report createdDefault results).failed ↔ (w.path, .error w.error) ∈ results := by
  rw [report, (foldr_insertByPath_perm _ _).mem_iff, List.mem_filterMap]
  constructor
  · rintro ⟨⟨path, e | action⟩, hr, hw⟩
    · cases hw
      exact hr
    · cases hw
  · exact fun hr => ⟨_, hr, rfl⟩

/-- A report names the documents that there are results of. -/
theorem paths_report_perm :
    (report createdDefault results).paths.Perm (results.map Prod.fst) := by
  rw [report, MergeReport.paths]
  refine (((foldr_insertByPath_perm _ _).map _).append
    ((foldr_insertByPath_perm _ _).map _)).trans ?_
  induction results with
  | nil => rfl
  | cons r results ih =>
      obtain ⟨path, e | action⟩ := r
      · exact List.perm_middle.trans (ih.cons path)
      · exact ih.cons path

lemma paths_report_map (createdDefault : Bool) (ts : List Path)
    (result : Path → Except DocumentError KeyAction) :
    (report createdDefault (ts.map fun t => (t, result t))).paths.Perm ts := by
  refine paths_report_perm.trans (List.Perm.of_eq ?_)
  rw [List.map_map]
  exact List.map_id' ts

/-- A merge is a total failure if each target failed. -/
theorem isTotalFailure_report_iff : (report createdDefault results).isTotalFailure = true ↔
    ∀ r ∈ results, ∃ e, r.2 = .error e := by
  rw [MergeReport.isTotalFailure, List.isEmpty_iff, List.eq_nil_iff_forall_not_mem]
  constructor
  · rintro h ⟨path, e | action⟩ hr
    · exact ⟨e, rfl⟩
    · exact absurd (mem_written_report.mpr hr) (h ⟨path, action⟩)
  · intro h w hw
    obtain ⟨e, he⟩ := h _ (mem_written_report.mp hw)
    cases he

/-- A merge is complete if each target took the key. -/
theorem isComplete_report_iff : (report createdDefault results).isComplete = true ↔
    ∀ r ∈ results, ∃ a, r.2 = .ok a := by
  rw [MergeReport.isComplete, List.isEmpty_iff, List.eq_nil_iff_forall_not_mem]
  constructor
  · rintro h ⟨path, e | action⟩ hr
    · exact absurd (mem_failed_report.mpr hr) (h ⟨path, e⟩)
    · exact ⟨action, rfl⟩
  · intro h w hw
    obtain ⟨a, ha⟩ := h _ (mem_failed_report.mp hw)
    cases ha

/-! ### Reports and files -/

variable {s : Store} {fs : FileSystem} {k : Key} {v : Text}

/-- A merge is a total failure if it reports each target as failed. -/
lemma isTotalFailure_report_iff_failed (hnodup : (results.map Prod.fst).Nodup) :
    (report createdDefault results).isTotalFailure = true ↔
      ∀ t ∈ results.map Prod.fst, ∃ w ∈ (report createdDefault results).failed, w.path = t := by
  rw [isTotalFailure_report_iff]
  constructor
  · intro hall t ht
    obtain ⟨r, hr, rfl⟩ := List.mem_map.mp ht
    obtain ⟨e, he⟩ := hall r hr
    exact ⟨⟨r.1, e⟩, mem_failed_report.mpr (he ▸ hr), rfl⟩
  · intro hall r hr
    obtain ⟨w, hw, hpath⟩ := hall r.1 (List.mem_map_of_mem hr)
    have hsame := List.inj_on_of_nodup_map hnodup (mem_failed_report.mp hw) hr hpath
    exact ⟨w.error, (congrArg Prod.snd hsame).symm⟩

section Merged

variable {ready out : FileSystem} (hmerged : Merged ready out k v results)
include hmerged

/-- A document that is reported as written opens with the key set, and as it did but for that; and
the action tells what was there. -/
lemma open_of_written {w : WrittenDocument} (hw : w ∈ (report createdDefault results).written)
    (hlink : ∀ f target, ready.destination w.path = some f → f.node? ≠ some (.link target))
    (hwhole : ∀ doc, Document.open ready w.path = .ok doc → doc.IsWhole) :
    ∃ doc after, Document.open ready w.path = .ok doc ∧ Document.open out w.path = .ok after ∧
      doc.AllSet [(k, v)] after ∧ after.members.keys.Nodup ∧ doc.ActsOn k v w.action := by
  rcases hmerged.outcome _ (mem_written_report.mp hw) with ⟨e, he, -⟩ | ⟨doc, f, haction, htook⟩
  · cases he
  · have hopen := htook.opened fun target => hlink f target htook.destination
    have hset := Document.isWhole_set (hwhole doc hopen) k v
    have hruns : ¬ RunsThroughEntry ready w.path := by
      rintro ⟨f', target, hf', hnode, -⟩
      exact hlink f' target hf' hnode
    have hthen := htook.open_eq hruns
    rw [Document.reread_of_isWhole hset] at hthen
    have hacts := doc.actsOn_action k v
    rw [← Except.ok.inj haction] at hacts
    exact ⟨doc, doc.set k v, hopen, hthen, doc.allSet_setAll [(k, v)],
      (Document.fits_set (Document.fits_of_open hopen) k v).nodup_keys, hacts⟩

/-- A document that is reported as failed reads as it did. -/
lemma read_of_failed (hready : fs.Grows ready) {w : FailedDocument}
    (hw : w ∈ (report createdDefault results).failed)
    (hlink : ∀ f target, ready.destination w.path = some f → f.node? ≠ some (.link target))
    {b : ByteArray} (hread : fs.read w.path = .ok b) : out.read w.path = .ok b := by
  rcases hmerged.outcome _ (mem_failed_report.mp hw) with ⟨e, -, hrefused⟩ | ⟨doc, f, haction, -⟩
  · obtain ⟨q, m, hq⟩ := FileSystem.exists_of_read hread
    exact FileSystem.read_eq (hrefused hlink q b m (hready.resolve_eq hq))
  · cases haction

/-- An entry is as it was, or a directory was made there, or a document was written to it. -/
lemma node?_of_merged (hready : fs.Grows ready) (q : Place) : out.node? q = fs.node? q ∨
    (fs.node? q = none ∧ out.node? q = some .directory) ∨
    ∃ w ∈ (report createdDefault results).written,
      ∃ f, ready.destination w.path = some f ∧ f.place = q := by
  rcases hmerged.node? q with (hsame | ⟨hnone, hdir, -⟩) | ⟨⟨path, r⟩, hr, a, f, hok, hf, hplace⟩
  · rcases hready.node? q with hbefore | ⟨hnone, hdir⟩
    · exact .inl (hsame.trans hbefore)
    · exact .inr (.inl ⟨hnone, hsame.trans hdir⟩)
  · rcases hready.node? q with hbefore | ⟨-, hdir'⟩
    · exact .inr (.inl ⟨hbefore.symm.trans hnone, hdir⟩)
    · rw [hdir'] at hnone
      cases hnone
  · obtain rfl : r = .ok a := hok
    exact .inr (.inr ⟨⟨path, a⟩, mem_written_report.mpr hr, f, hf, hplace⟩)

end Merged

/-- A report on a merge names each target once, by path; it calls a merge a total failure if each
target failed; a document that it calls written opens as it did before but for the key, which has
the text and stays where it was or comes last, and the action tells what was there before; a
document that it calls failed reads as it did; and nothing else changes, but for directories that
are made. -/
theorem report_of_merge (s : Store) (fs : FileSystem) (k : Key) (v : Text) (hfs : fs.WellFormed)
    (hlink : ∀ t ∈ (s.targets (s.ready fs)).1, ∀ f target,
      (s.ready fs).destination t = some f → f.node? ≠ some (.link target))
    (hwhole : ∀ t ∈ (s.targets (s.ready fs)).1, ∀ doc,
      Document.open (s.ready fs) t = .ok doc → doc.IsWhole)
    {report : MergeReport} (h : (s.merge fs k v).result = .ok report) :
    (report.paths.Perm (s.targets (s.ready fs)).1 ∧ report.paths.Nodup ∧
      (report.written.map (·.path)).Pairwise (fun p q => p.le q = true) ∧
      (report.failed.map (·.path)).Pairwise (fun p q => p.le q = true)) ∧
    (report.isTotalFailure = true ↔
      ∀ t ∈ (s.targets (s.ready fs)).1, ∃ w ∈ report.failed, w.path = t) ∧
    (∀ w ∈ report.written, ∃ doc after, Document.open (s.ready fs) w.path = .ok doc ∧
      Document.open (s.merge fs k v).files w.path = .ok after ∧ doc.AllSet [(k, v)] after ∧
      after.members.keys.Nodup ∧ doc.ActsOn k v w.action) ∧
    (∀ w ∈ report.failed, ∀ b, fs.read w.path = .ok b →
      (s.merge fs k v).files.read w.path = .ok b) ∧
    ∀ q, (s.merge fs k v).files.node? q = fs.node? q ∨
      (fs.node? q = none ∧ (s.merge fs k v).files.node? q = some .directory) ∨
      ∃ w ∈ report.written, ∃ f, (s.ready fs).destination w.path = some f ∧ f.place = q := by
  obtain ⟨results, rfl, hpaths, hnodup, hmerged⟩ := merge_spec hfs h
  have hready : fs.Grows (s.ready fs) := s.ready_grows fs
  have htarget : ∀ r ∈ results, r.1 ∈ (s.targets (s.ready fs)).1 := fun r hr =>
    hpaths ▸ List.mem_map_of_mem hr
  refine ⟨⟨?_, paths_report_perm.nodup_iff.mpr hnodup, ?_, ?_⟩, ?_, ?_, ?_, ?_⟩
  · rw [← hpaths]
    exact paths_report_perm
  · exact List.pairwise_map.mpr (pairwise_foldr_insertByPath _ _)
  · exact List.pairwise_map.mpr (pairwise_foldr_insertByPath _ _)
  · rw [← hpaths]
    exact isTotalFailure_report_iff_failed hnodup
  · intro w hw
    have ht := htarget _ (mem_written_report.mp hw)
    exact open_of_written hmerged hw (hlink _ ht) (hwhole _ ht)
  · intro w hw b hread
    have ht := htarget _ (mem_failed_report.mp hw)
    exact read_of_failed hmerged hready hw (hlink _ ht) hread
  · exact node?_of_merged hmerged hready

/-- A directory with a document that opens and one that does not. -/
def halfBroken : FileSystem where
  entries :=
    [(["l10n".toList], .directory),
      (["de.arb".toList, "l10n".toList], .file (FileSystem.bytesOf "\x7b".toList) 0o644),
      (["en.arb".toList, "l10n".toList],
        .file (FileSystem.bytesOf "\x7b\"n\": 1\x7d".toList) 0o644)]
  current := []

/-- The documents of this directory. -/
def ofHalfBroken : Store := ⟨⟨"l10n".toList⟩, "arb".toList, "app_en.arb".toList⟩

/-- The document that does not open is reported as failed, and reads as it did. The other one is
reported as written, and has the key behind the one that it had. -/
theorem report_of_merge_halfBroken :
    ∃ report after, (ofHalfBroken.merge halfBroken ⟨"hi".toList, by decide⟩ "Hi".toList).result =
        .ok report ∧
      report.failed.map (·.path) = [⟨"l10n/de.arb".toList⟩] ∧
      (∀ w ∈ report.failed, ∀ b, halfBroken.read w.path = .ok b →
        (ofHalfBroken.merge halfBroken ⟨"hi".toList, by decide⟩ "Hi".toList).files.read w.path =
          .ok b) ∧
      (∃ w ∈ report.written, w.path = ⟨"l10n/en.arb".toList⟩ ∧ w.action = .added) ∧
      Document.open (ofHalfBroken.merge halfBroken ⟨"hi".toList, by decide⟩ "Hi".toList).files
        ⟨"l10n/en.arb".toList⟩ = .ok after ∧
      after.members.keys = ["n".toList, "hi".toList] ∧
      after.members.lookup "hi".toList = some (.string "Hi".toList) ∧
      after.members.lookup "n".toList ≠ none := by
  have hlink : ∀ t ∈ (ofHalfBroken.targets (ofHalfBroken.ready halfBroken)).1, ∀ f,
      (ofHalfBroken.ready halfBroken).destination t = some f →
        ∀ target, f.node? ≠ some (.link target) := by
    decide +kernel
  obtain ⟨report, hreport, hfailed, w, hw, hpath⟩ : ∃ report,
      (ofHalfBroken.merge halfBroken ⟨"hi".toList, by decide⟩ "Hi".toList).result = .ok report ∧
      report.failed.map (·.path) = [⟨"l10n/de.arb".toList⟩] ∧
      ∃ w ∈ report.written, w.path = ⟨"l10n/en.arb".toList⟩ := by decide +kernel
  have hbefore : ∀ doc, Document.open (ofHalfBroken.ready halfBroken) ⟨"l10n/en.arb".toList⟩ =
      .ok doc → doc.members.keys = ["n".toList] ∧ doc.members.lookup "hi".toList = none ∧
        doc.members.lookup "n".toList ≠ none := by decide +kernel
  obtain ⟨-, -, hwritten, hread, -⟩ := report_of_merge ofHalfBroken halfBroken _ _
    (by decide +kernel)
    (fun t ht f target hf => hlink t ht f hf target) (by decide +kernel) hreport
  obtain ⟨doc, after, hdoc, hafter, hall, -, hacts⟩ := hwritten w hw
  rw [hpath] at hdoc hafter
  obtain ⟨hkeys, hmissing, hnumber⟩ := hbefore doc hdoc
  refine ⟨report, after, hreport, hfailed, hread, ⟨w, hw, hpath, hacts.added.mpr hmissing⟩, hafter,
    ?_, hall.last [] _ _ [] rfl (by simp), ?_⟩
  · rw [hall.keys, hkeys]
    decide
  · rwa [hall.other "n".toList (by simp)]

end Store

end Externalize
