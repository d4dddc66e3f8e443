import Externalize.Extraction.Basic
import Externalize.Proofs.Files.Directories
import Externalize.Proofs.Resource.Reports

/-
What a preview says of the extraction.

* `Store.targets_ready`: the targets are the same before and after the directory is made.
* `Extraction.preview_begin`: a preview shows what is extracted then, or why nothing is.
-/
namespace Externalize

namespace Store

open FileSystem

variable {s : Store} {fs : FileSystem}

/-! ### Targets and the directory -/

/-- A directory that leads to nothing has no documents. -/
lemma documents_of_has_eq_false (h : fs.has s.directory = false) : s.documents fs = [] := by
  have hdir : ∀ d, fs.directory s.directory ≠ .ok d := by
    intro d hd
    rw [has_iff.mpr ⟨d, _, directory_eq_ok_iff.mp hd⟩] at h
    cases h
  rw [documents, entries]
  cases hd : fs.directory s.directory with
  | error e => rfl
  | ok d => exact absurd hd (hdir d)

/-- A directory that is made, and was not there, has no documents. -/
lemma documents_of_new (hfs : fs.WellFormed) {ready : FileSystem} (hready : ready.WellFormed)
    (hgrows : Grows fs ready) {d : Place} (hd : ready.directory s.directory = .ok d)
    (hnew : fs.node? d = none) : s.documents ready = [] := by
  obtain ⟨d', ns, hdocuments, -, hlisted⟩ := s.documents_eq hready
  rw [hdocuments, List.map_eq_nil_iff, List.eq_nil_iff_forall_not_mem]
  intro n hn
  have hbefore : ∀ node ≠ .directory, ready.node? (n :: d) ≠ some node := by
    intro node hnode hthen
    cases (hfs.node?_cons_of_eq_none hnew n).symm.trans (hgrows.node?_of hthen hnode)
  obtain rfl : d = d' := Except.ok.inj (hd.symm.trans (hlisted n hn).directory)
  rcases (hlisted n hn).node?_entry with ⟨b, m, hfile⟩ | ⟨target, hlink, -⟩
  · exact hbefore _ (by simp) hfile
  · exact hbefore _ (by simp) hlink

/-- The targets are the same before and after the directory is made, unless its path has steps
up. -/
theorem targets_ready (hfs : fs.WellFormed) {made : List LogRecord}
    (hdir : fs.has s.directory = true ∨ ['.', '.'] ∉ s.directory.names)
    (hprepare : (s.prepareDirectory fs).2 = .ok made) : s.targets (s.ready fs) = s.targets fs := by
  by_cases hhas : fs.has s.directory = true
  · rw [ready, prepareDirectory, if_pos hhas]
  · have hnone : fs.has s.directory = false := by simpa using hhas
    have hgrows := s.ready_grows fs
    have hready := s.ready_wellFormed hfs
    have hempty : s.documents (s.ready fs) = [] := by
      rw [prepareDirectory, if_neg hhas] at hprepare
      rw [ready, prepareDirectory, if_neg hhas] at hgrows hready ⊢
      rcases hmade : fs.createDirectories s.directory with ⟨out, e | ⟨⟩⟩ <;>
        rw [hmade] at hprepare hgrows hready
      · cases hprepare
      · rcases eq_or_ne s.directory.text [] with htext | htext
        · refine documents_of_has_eq_false ?_
          rw [has, status, resolve, htext]
          rfl
        · rcases createDirectories_new hfs (hdir.resolve_left hhas) htext hmade with
            ⟨d, hd⟩ | ⟨d, hd, hnew⟩
          · exact absurd (has_iff.mpr ⟨d, _, directory_eq_ok_iff.mp hd⟩) hhas
          · exact documents_of_new hfs hready hgrows hd hnew
    rw [targets, targets, hempty, documents_of_has_eq_false hnone]

end Store

namespace Extraction

/-! ### Previews -/

variable {s : Store} {fs : FileSystem} {t : Text} {c : Cursor}

/-- A preview and an extraction pass the same cursors over. -/
lemma preview_eq_error_iff {r : Skip} :
    preview s fs t c = .error r ↔ (begin s fs t c).result = .ok (.error r) := by
  rw [preview, begin]
  cases Candidate.at t c with
  | error skip => simp
  | ok candidate =>
      cases hmerge : (s.merge fs candidate.key candidate.literal.content).result <;>
        simp [hmerge, Except.map]

/-- What is extracted is the candidate at the cursor, with the report of its merge. -/
lemma begin_eq_ok {e : Extraction} (h : (begin s fs t c).result = .ok (.ok e)) :
    ∃ candidate report, Candidate.at t c = .ok candidate ∧
      (s.merge fs candidate.key candidate.literal.content).result = .ok report ∧
      e = ⟨candidate, .externalizing t candidate.literal candidate.key, report.paths,
        some report⟩ := by
  rw [begin] at h
  cases hc : Candidate.at t c with
  | error skip =>
      rw [hc] at h
      cases h
  | ok candidate =>
      rw [hc] at h
      cases hmerge : (s.merge fs candidate.key candidate.literal.content).result with
      | error e' =>
          simp only [hmerge, Except.map] at h
          cases h
      | ok report =>
          simp only [hmerge, Except.map] at h
          cases h
          exact ⟨candidate, report, rfl, hmerge, rfl⟩

/-- A preview passes over what the extraction passes over, and for the same reason. It shows the
literal, the key and the edits of what is extracted, and its targets are the documents that the
merge reports as written and as failed. -/
theorem preview_begin (s : Store) (fs : FileSystem) (t : Text) (c : Cursor) (hfs : fs.WellFormed)
    (hdir : fs.has s.directory = true ∨ ['.', '.'] ∉ s.directory.names) :
    (∀ r, preview s fs t c = .error r ↔ (begin s fs t c).result = .ok (.error r)) ∧
    ∀ e, (begin s fs t c).result = .ok (.ok e) → ∃ shown, preview s fs t c = .ok shown ∧
      shown.candidate = e.candidate ∧ shown.plan = e.plan ∧ shown.targets.Perm e.targets ∧
      ∃ report, e.merge = some report ∧
        e.targets = report.written.map (·.path) ++ report.failed.map (·.path) := by
  refine ⟨fun r => preview_eq_error_iff, fun e he => ?_⟩
  obtain ⟨candidate, report, hc, hmerge, rfl⟩ := begin_eq_ok he
  obtain ⟨results, rfl, hpaths, -, -⟩ := Store.merge_spec hfs hmerge
  obtain ⟨made, hprepare⟩ := Store.prepareDirectory_of_merge hmerge
  have htargets : (s.targets (s.ready fs)).1 = (s.targets fs).1 := by
    rw [Store.targets_ready hfs hdir hprepare]
  refine ⟨⟨candidate, .externalizing t candidate.literal candidate.key, (s.targets fs).1, none⟩,
    by rw [preview, hc], rfl, rfl, ?_, _, rfl, rfl⟩
  rw [← htargets, ← hpaths]
  exact Store.paths_report_perm.symm

/-- A document that does not open comes first among the documents that are shown, and last in the
report. -/
theorem preview_begin_halfBroken : ∃ e shown,
    (begin Store.ofHalfBroken Store.halfBroken "f('Hi')".toList (.caret 4)).result = .ok (.ok e) ∧
    preview Store.ofHalfBroken Store.halfBroken "f('Hi')".toList (.caret 4) = .ok shown ∧
    shown.targets.Perm e.targets ∧
    e.targets = [⟨"l10n/en.arb".toList⟩, ⟨"l10n/de.arb".toList⟩] := by
  obtain ⟨result, hresult, e, rfl, htargets⟩ : ∃ result,
      (begin Store.ofHalfBroken Store.halfBroken "f('Hi')".toList (.caret 4)).result =
        .ok result ∧ ∃ e, result = .ok e ∧
          e.targets = [⟨"l10n/en.arb".toList⟩, ⟨"l10n/de.arb".toList⟩] := by
    decide +kernel
  obtain ⟨-, hpreview⟩ := preview_begin Store.ofHalfBroken Store.halfBroken "f('Hi')".toList
    (.caret 4) (by decide +kernel) (.inl (by decide +kernel))
  obtain ⟨shown, hshown, -, -, hperm, -⟩ := hpreview e hresult
  exact ⟨e, shown, hresult, hshown, hperm, htargets⟩

end Extraction

end Externalize
