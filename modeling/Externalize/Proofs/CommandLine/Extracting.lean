import Externalize.CommandLine.Run
import Externalize.Proofs.Resource.Relisting
import Externalize.Proofs.Source.Sessions

/-
What the run of an extraction does to the files.

* `ExtractRequest.Ends`: the ways in which a run ends; `ExtractRequest.ends_of_run` says that a run
  that is to change files ends in one of them.
* `ExtractRequest.source_of_run`: the source file is as it was or has the edits of the plan, which
  it has only if a document holds the key.
* `ExtractRequest.documents_of_run`: the documents after a run that did all that was asked for.
-/
namespace Externalize.ExtractRequest

open FileSystem

variable {r : ExtractRequest} {sur : Surroundings} {fs out : FileSystem} {j : Job} {c : Candidate}

/-! ### The ways in which a run ends -/

/-- A run found what it is about: a file, a store, a literal and its key. -/
structure Finds (r : ExtractRequest) (fs : FileSystem) (j : Job) (c : Candidate) : Prop where
  job : (Job.resolve r fs).2 = .ok j
  candidate : Candidate.at j.text j.cursor = .ok c

/-- The edits that a run makes. -/
def plan (j : Job) (c : Candidate) : Plan := .externalizing j.text c.literal c.key

/-- The merge that a run makes. -/
def merge (fs : FileSystem) (j : Job) (c : Candidate) : Store.Merge :=
  j.store.merge fs c.key c.literal.content

/-- The ways in which a run ends, with the files after it and the code that it leaves: before
anything is written, at the directory of the documents, when no document takes the key, when the
edits do not fit, when the source cannot be written, and after that. -/
inductive Ends (r : ExtractRequest) (fs : FileSystem) : FileSystem → Nat → Prop
  | early {code : Nat} (hcode : code ≠ 0) : Ends r fs fs code
  | atDirectory {j : Job} {c : Candidate} {e : DirectoryError} (hfinds : Finds r fs j c)
      (hmerge : (merge fs j c).result = .error e) : Ends r fs (merge fs j c).files 2
  | atMerge {j : Job} {c : Candidate} {report : MergeReport} (hfinds : Finds r fs j c)
      (hmerge : (merge fs j c).result = .ok report) (htotal : report.isTotalFailure = true) :
      Ends r fs (merge fs j c).files 1
  | atPlan {j : Job} {c : Candidate} {report : MergeReport} {e : PlanError}
      (hfinds : Finds r fs j c) (hmerge : (merge fs j c).result = .ok report)
      (hplan : (plan j c).apply j.text = .error e) : Ends r fs (merge fs j c).files 2
  | atWrite {j : Job} {c : Candidate} {report : MergeReport} {t : Text} {out : FileSystem}
      {e : WriteError} (hfinds : Finds r fs j c) (hmerge : (merge fs j c).result = .ok report)
      (hplan : (plan j c).apply j.text = .ok t)
      (hwrite : (merge fs j c).files.writeAtomically j.file t = (out, .error e)) : Ends r fs out 2
  | done {j : Job} {c : Candidate} {report : MergeReport} {t : Text} {out : FileSystem}
      (hfinds : Finds r fs j c) (hmerge : (merge fs j c).result = .ok report)
      (htotal : report.isTotalFailure = false) (hplan : (plan j c).apply j.text = .ok t)
      (hwrite : (merge fs j c).files.writeAtomically j.file t = (out, .ok ())) :
      Ends r fs out (if report.isComplete then 0 else 1)

/-- What a job is made of: the file, opened, and the configuration of the project it is in, as the
request has it. -/
lemma exists_of_resolve (h : (Job.resolve r fs).2 = .ok j) :
    fs.canonical r.file = .ok j.file ∧ fs.readText j.file = .ok j.text ∧
      j.source = .file j.file j.text ∧
      ∃ loaded, Config.load fs (j.file.parent?.getD ⟨['.']⟩) = .ok loaded ∧
        j.root = loaded.root ∧ j.config = r.override loaded.config := by
  rw [Job.resolve] at h
  split at h
  · cases h
  · next file hfile =>
      split at h
      · cases h
      · next loaded hloaded =>
          simp only at h
          split at h
          · cases h
          · rw [Job.openAt] at h
            split at h
            · cases h
            · next source hsource =>
                split at h
                · cases h
                · cases h
                  rw [Source.open] at hsource
                  split at hsource
                  · cases hsource
                  · next t ht =>
                      cases hsource
                      exact ⟨hfile, ht, rfl, loaded, hloaded, rfl, rfl⟩

/-- A job has its file open. -/
lemma source_of_resolve (h : (Job.resolve r fs).2 = .ok j) :
    fs.canonical r.file = .ok j.file ∧ fs.readText j.file = .ok j.text ∧
      j.source = .file j.file j.text := by
  obtain ⟨hfile, htext, hsource, -⟩ := exists_of_resolve h
  exact ⟨hfile, htext, hsource⟩

/-- The run of a request is that of its job, after the records of finding it. -/
lemma run_of_resolve (hjob : (Job.resolve r fs).2 = .ok j) (sur : Surroundings) :
    r.run sur fs = (j.run sur r.dryRun fs).after ((Job.resolve r fs).1.map .log) := by
  rw [ExtractRequest.run]
  rcases hresolve : Job.resolve r fs with ⟨records, job⟩
  obtain rfl : job = .ok j := by rw [← hjob, hresolve]
  rfl

lemma run_of_resolve_error {e : CommandError} (hjob : (Job.resolve r fs).2 = .error e)
    (sur : Surroundings) :
    r.run sur fs = (Run.still fs (.error e) []).after ((Job.resolve r fs).1.map .log) := by
  rw [ExtractRequest.run]
  rcases hresolve : Job.resolve r fs with ⟨records, job⟩
  obtain rfl : job = .error e := by rw [← hjob, hresolve]
  rfl

/-- The end of a run whose merge is reported on. -/
lemma ends_finish (sur : Surroundings) (hfinds : Finds r fs j c) {report : MergeReport}
    (hmerge : (merge fs j c).result = .ok report) :
    let e : Extraction := ⟨c, plan j c, report.paths, some report⟩
    Ends r fs (j.finish sur (merge fs j c).files e).files
      (j.finish sur (merge fs j c).files e).exitCode := by
  intro e
  obtain ⟨-, -, hsource⟩ := source_of_resolve hfinds.job
  have hedits : (plan j c).edits.isEmpty = false := rfl
  cases htotal : report.isTotalFailure with
  | true =>
      have hdue : e.isDue = false := by simp [e, Extraction.isDue, htotal]
      simp only [Job.finish, Extraction.commit, hdue, Run.exitCode, Job.status]
      simpa using Ends.atMerge hfinds hmerge htotal
  | false =>
      have hdue : e.isDue = true := by simp [e, Extraction.isDue, htotal]
      rw [Job.finish, Extraction.commit, hdue, if_pos rfl, hsource]
      cases hplan : (plan j c).apply j.text with
      | error err =>
          rw [Source.apply_of_plan_error _ hedits hplan]
          exact .atPlan hfinds hmerge hplan
      | ok t =>
          rcases hwrite : (merge fs j c).files.writeAtomically j.file t with ⟨out, err | ⟨⟩⟩
          · rw [Source.apply_of_write_error hedits hplan hwrite]
            exact .atWrite hfinds hmerge hplan hwrite
          · have hdone := Ends.done hfinds hmerge htotal hplan hwrite
            rw [Source.apply_of_write hedits hplan hwrite]
            simp only [Run.exitCode, Job.status, e, Option.any_some, Bool.and_true]
            cases hcomplete : report.isComplete <;> rw [hcomplete] at hdone <;> exact hdone

/-- An extraction passes the cursor over, stops at the directory of the documents, or is finished
after the merge is reported on. -/
lemma extract_cases (j : Job) (fs : FileSystem) : ∃ records : List LogRecord,
    (∃ skip, Candidate.at j.text j.cursor = .error skip ∧ ∀ sur, j.extract sur fs =
      .after (records.map .log) (.still fs (.ok .failure) [j.skipped sur.colours skip])) ∨
    (∃ c e, Candidate.at j.text j.cursor = .ok c ∧ (merge fs j c).result = .error e ∧
      ∀ sur, j.extract sur fs =
        .after (records.map .log) (.still (merge fs j c).files (.error (.directory e)) [])) ∨
    ∃ c report, Candidate.at j.text j.cursor = .ok c ∧ (merge fs j c).result = .ok report ∧
      ∀ sur, j.extract sur fs = .after (records.map .log)
        (j.finish sur (merge fs j c).files ⟨c, plan j c, report.paths, some report⟩) := by
  refine ⟨(Extraction.begin j.store fs j.text j.cursor).records, ?_⟩
  cases hcandidate : Candidate.at j.text j.cursor with
  | error skip =>
      exact .inl ⟨skip, rfl, fun sur => by simp only [Job.extract, Extraction.begin, hcandidate]⟩
  | ok c =>
      cases hmerge : (merge fs j c).result with
      | error e =>
          refine .inr (.inl ⟨c, e, rfl, hmerge, fun sur => ?_⟩)
          rw [merge] at hmerge ⊢
          simp only [Job.extract, Extraction.begin, hcandidate, hmerge, Except.map]
      | ok report =>
          refine .inr (.inr ⟨c, report, rfl, hmerge, fun sur => ?_⟩)
          rw [merge] at hmerge ⊢
          simp only [Job.extract, Extraction.begin, hcandidate, hmerge, Except.map, plan]

lemma ends_extract (sur : Surroundings) (hjob : (Job.resolve r fs).2 = .ok j) :
    Ends r fs (j.extract sur fs).files (j.extract sur fs).exitCode := by
  obtain ⟨records, ⟨skip, -, hextract⟩ | ⟨c, e, hcandidate, hmerge, hextract⟩ |
    ⟨c, report, hcandidate, hmerge, hextract⟩⟩ := extract_cases j fs
  · rw [hextract]
    exact .early (Nat.succ_ne_zero 0)
  · rw [hextract]
    exact .atDirectory ⟨hjob, hcandidate⟩ hmerge
  · rw [hextract]
    exact ends_finish sur ⟨hjob, hcandidate⟩ hmerge

theorem ends_of_run (sur : Surroundings) (fs : FileSystem) (hdry : r.dryRun = false) :
    Ends r fs (r.run sur fs).files (r.run sur fs).exitCode := by
  cases hjob : (Job.resolve r fs).2 with
  | error e =>
      rw [run_of_resolve_error hjob]
      exact .early (Nat.succ_ne_zero 1)
  | ok j =>
      have hrun : Ends r fs (j.run sur r.dryRun fs).files (j.run sur r.dryRun fs).exitCode := by
        rw [Job.run, hdry]
        cases j.isOffered with
        | false => exact .early (Nat.succ_ne_zero 0)
        | true => exact ends_extract sur hjob
      rw [run_of_resolve hjob]
      exact hrun

/-! ### The source file -/

variable {p : Place} {b : ByteArray} {m : Nat}

/-- The file of a job, by its place. -/
lemma file_of_resolve (hfs : fs.WellFormed) (hjob : (Job.resolve r fs).2 = .ok j)
    (hsource : fs.resolve true r.file = .ok ⟨p, some (.file b m)⟩) :
    (∃ n d, p = n :: d) ∧ fs.node? p = some (.file b m) ∧ j.file = .ofPlace p ∧
      textOf? b = some j.text := by
  obtain ⟨hcanonical, htext, -⟩ := source_of_resolve hjob
  have hnode : fs.node? p = some (.file b m) := node?_of_resolve hsource (by simp)
  have hfile : j.file = .ofPlace p := by
    rw [canonical, hsource] at hcanonical
    exact (Except.ok.inj hcanonical).symm
  cases p with
  | nil => cases hnode
  | cons n d =>
      obtain ⟨hlast, hslash⟩ := hfs.lastPlace_ofPlace hnode (fun _ h => h) .busy
      rw [hnode] at hlast
      have hresolve := resolve_of_lastPlace hlast hslash (.inr ⟨b, m, rfl⟩)
      refine ⟨⟨n, d, rfl⟩, hnode, hfile, ?_⟩
      rw [hfile, readText_eq hresolve] at htext
      cases ht : textOf? b with
      | none => simp [ht] at htext
      | some t =>
          rw [ht] at htext
          exact congrArg some (Except.ok.inj htext)

/-- The source file of a run is none of the files that the documents are written to. -/
def AvoidsSource (fs : FileSystem) (j : Job) (p : Place) : Prop :=
  ∀ t ∈ (j.store.targets (j.store.ready fs)).1, ∀ f,
    (j.store.ready fs).destination t = some f → f.place ≠ p

instance (fs : FileSystem) (j : Job) (p : Place) : Decidable (AvoidsSource fs j p) := by
  unfold AvoidsSource
  infer_instance

/-- A file is as it was after the merge of a run, or a document was written to it; directories
stay. -/
lemma file_of_merge (hfs : fs.WellFormed) (hnode : fs.node? p = some (.file b m))
    {report : MergeReport} (hmerge : (merge fs j c).result = .ok report) :
    ((merge fs j c).files.node? p = some (.file b m) ∨
      ∃ t ∈ (j.store.targets (j.store.ready fs)).1, ∃ f b' m',
        (j.store.ready fs).destination t = some f ∧ f.place = p ∧
          (merge fs j c).files.node? p = some (.file b' m')) ∧
      ∀ q, fs.node? q = some .directory → (merge fs j c).files.node? q = some .directory := by
  obtain ⟨results, -, hpaths, -, hmerged⟩ := Store.merge_spec hfs hmerge
  have hready := j.store.ready_grows fs
  have hthen : (j.store.ready fs).node? p = some (.file b m) := hready.node?_eq hnode
  refine ⟨?_, fun q hq => hmerged.directory q (hready.node?_eq hq)⟩
  rcases hmerged.node? p with (hsame | ⟨hnone, -⟩) | ⟨result, hresult, a, f, hok, hf, rfl⟩
  · exact .inl (hsame.trans hthen)
  · rw [hthen] at hnone
    cases hnone
  · obtain ⟨doc, htook⟩ := hmerged.took hresult hok hf
    obtain ⟨mode, hmode⟩ := htook.node?
    exact .inr ⟨result.1, hpaths ▸ List.mem_map_of_mem hresult, f, _, mode, hf, rfl, hmode⟩

/-- The merge of a run leaves the source file as it was. -/
lemma source_of_merge (hfs : fs.WellFormed) (havoids : AvoidsSource fs j p)
    (hnode : fs.node? p = some (.file b m)) {report : MergeReport}
    (hmerge : (merge fs j c).result = .ok report) :
    (merge fs j c).files.node? p = some (.file b m) ∧
      ∀ q, fs.node? q = some .directory → (merge fs j c).files.node? q = some .directory := by
  obtain ⟨hsame | ⟨t, ht, f, -, -, hf, hplace, -⟩, hkept⟩ := file_of_merge hfs hnode hmerge
  · exact ⟨hsame, hkept⟩
  · exact absurd hplace (havoids t ht f hf)

/-- After a run the file of a document, which is the entry of its path, gives a key this text; the
path opens as the document, unless it goes through its entry on the way. -/
def Stores (ready after : FileSystem) (t : Path) (k : Key) (v : Text) : Prop :=
  ∃ f bytes mode doc, ready.destination t = some f ∧
    after.node? f.place = some (.file bytes mode) ∧ Document.ofBytes t bytes = .ok doc ∧
    doc.get? k.text = some v ∧ (¬ Store.RunsThroughEntry ready t → Document.open after t = .ok doc)

/-- A target that took the key holds it still after a file at another place is written. -/
lemma stores_of_took {ready after : FileSystem} {k : Key} {v : Text} {t : Path} {doc : Document}
    {f : Found} {bytes : ByteArray} (h : Store.Took ready out k v t doc f) (hplace : f.place ≠ p)
    (hnode : out.node? p = some (.file b m)) (hcurrent : after.current = out.current)
    (hafter : ∀ q, after.node? q = if q = p then some (.file bytes m) else out.node? q) :
    Stores ready after t k v := by
  obtain ⟨mode, hmode⟩ := h.node?
  have hkept : after.node? f.place = out.node? f.place := (hafter _).trans (if_neg hplace)
  have hsame : ∀ q node, (∀ b m, node ≠ .file b m) → out.node? q = some node →
      after.node? q = some node := by
    intro q node hfile hq
    rw [hafter, if_neg, hq]
    rintro rfl
    rw [hnode] at hq
    exact hfile b m (Option.some_injective _ hq).symm
  have hset := h.path ▸ Document.ofBytes_set h.fits k v
  refine ⟨f, _, mode, (doc.set k v).reread, h.destination, hkept.trans hmode, hset,
    Document.get?_reread_set doc k v, fun hruns => ?_⟩
  obtain ⟨mode', hresolve⟩ := h.resolve hruns
  have hthen := resolve_transfer hcurrent (fun q => hsame q _ (by simp))
    (fun q target => hsame q _ (by simp)) hresolve (.inr hkept)
  rw [Document.open_eq hthen, hset]

lemma Finds.unique {j' : Job} {c' : Candidate} (h : Finds r fs j c) (h' : Finds r fs j' c') :
    j = j' ∧ c = c' := by
  obtain rfl : j = j' := Except.ok.inj (h.job.symm.trans h'.job)
  exact ⟨rfl, Except.ok.inj (h.candidate.symm.trans h'.candidate)⟩

/-- The end of a run, for the source file. -/
lemma source_of_ends {after : FileSystem} {code : Nat} (hends : Ends r fs after code)
    (hfs : fs.WellFormed) (hsource : fs.resolve true r.file = .ok ⟨p, some (.file b m)⟩)
    (havoids : ∀ j, (Job.resolve r fs).2 = .ok j → AvoidsSource fs j p) :
    after.node? p = some (.file b m) ∨
      ∃ j c report t, code ≠ 2 ∧ Finds r fs j c ∧ (merge fs j c).result = .ok report ∧
        report.isTotalFailure = false ∧ textOf? b = some j.text ∧
        (plan j c).apply j.text = .ok t ∧ after.node? p = some (.file (bytesOf t) m) ∧
        ∃ d ∈ (j.store.targets (j.store.ready fs)).1,
          Stores (j.store.ready fs) after d c.key c.literal.content := by
  have hnode : fs.node? p = some (.file b m) := node?_of_resolve hsource (by simp)
  cases hends with
  | early _ => exact .inl hnode
  | @atDirectory j c e hfinds hmerge =>
      rw [merge] at hmerge
      rw [merge, Store.files_of_merge_error hmerge]
      exact .inl ((j.store.ready_grows fs).node?_eq hnode)
  | atMerge hfinds hmerge _ =>
      exact .inl (source_of_merge hfs (havoids _ hfinds.job) hnode hmerge).1
  | atPlan hfinds hmerge _ =>
      exact .inl (source_of_merge hfs (havoids _ hfinds.job) hnode hmerge).1
  | atWrite hfinds hmerge _ hwrite =>
      obtain ⟨hthen, hkept⟩ :=
        source_of_merge hfs (havoids _ hfinds.job) hnode hmerge
      obtain ⟨⟨n, d, rfl⟩, -, hfile, -⟩ := file_of_resolve hfs hfinds.job hsource
      rw [hfile] at hwrite
      rw [eq_of_writeAtomically_error hfs hnode hkept hwrite]
      exact .inl hthen
  | @done j c report t _ hfinds hmerge htotal hplan hwrite =>
      obtain ⟨hthen, hkept⟩ :=
        source_of_merge hfs (havoids _ hfinds.job) hnode hmerge
      obtain ⟨⟨n, d, rfl⟩, -, hfile, htext⟩ := file_of_resolve hfs hfinds.job hsource
      rw [hfile] at hwrite
      obtain ⟨f, hputs⟩ := writeAtomically_ok hwrite
      obtain ⟨hcurrent, hafter⟩ := hputs.of_ofPlace hfs hnode hkept hthen
      have hcode : (if report.isComplete then 0 else 1) ≠ 2 := by split_ifs <;> decide
      refine .inr ⟨j, c, report, t, hcode, hfinds, hmerge, htotal, htext, hplan,
        (hafter _).trans (if_pos rfl), ?_⟩
      obtain ⟨results, rfl, hpaths, -, hmerged⟩ := Store.merge_spec hfs hmerge
      obtain ⟨result, hresult, hok⟩ : ∃ result ∈ results, ¬ ∃ e, result.2 = .error e := by
        by_contra hcon
        push Not at hcon
        rw [Store.isTotalFailure_report_iff.mpr hcon] at htotal
        cases htotal
      have htarget : result.1 ∈ (j.store.targets (j.store.ready fs)).1 :=
        hpaths ▸ List.mem_map_of_mem hresult
      rcases hmerged.outcome result hresult with ⟨e, he, -⟩ | ⟨doc, g, -, htook⟩
      · exact absurd ⟨e, he⟩ hok
      · exact ⟨result.1, htarget, stores_of_took htook
          (havoids j hfinds.job _ htarget g htook.destination) hthen hcurrent hafter⟩

/-- After a run the source file is as it was, or it has the edits of the plan; it has them only if a
document holds the key; and it is as it was if the run ends in an error or no document took the
key. -/
theorem source_of_run (r : ExtractRequest) (sur : Surroundings) (fs : FileSystem)
    (hfs : fs.WellFormed) (hdry : r.dryRun = false) {p : Place} {b : ByteArray} {m : Nat}
    (hsource : fs.resolve true r.file = .ok ⟨p, some (.file b m)⟩)
    (havoids : ∀ j, (Job.resolve r fs).2 = .ok j → AvoidsSource fs j p) :
    ((r.run sur fs).files.node? p = some (.file b m) ∨
      ∃ j c t, Finds r fs j c ∧ textOf? b = some j.text ∧ (plan j c).apply j.text = .ok t ∧
        (r.run sur fs).files.node? p = some (.file (bytesOf t) m) ∧
        ∃ d ∈ (j.store.targets (j.store.ready fs)).1,
          Stores (j.store.ready fs) (r.run sur fs).files d c.key c.literal.content) ∧
    ((r.run sur fs).exitCode = 2 → (r.run sur fs).files.node? p = some (.file b m)) ∧
    ∀ j c report, Finds r fs j c → (merge fs j c).result = .ok report →
      report.isTotalFailure = true → (r.run sur fs).files.node? p = some (.file b m) := by
  rcases source_of_ends (ends_of_run sur fs hdry) hfs hsource havoids with
    hsame | ⟨j, c, report, t, hcode, hfinds, hmerge, htotal, hedited⟩
  · exact ⟨.inl hsame, fun _ => hsame, fun _ _ _ _ _ _ => hsame⟩
  · refine ⟨.inr ⟨j, c, t, hfinds, hedited⟩, fun herror => absurd herror hcode, ?_⟩
    intro j' c' report' hfinds' hmerge' htotal'
    obtain ⟨rfl, rfl⟩ := hfinds.unique hfinds'
    rw [hmerge] at hmerge'
    cases hmerge'
    rw [htotal] at htotal'
    cases htotal'

/-- A request for the literal of the file `lib/main.dart` of a project. -/
def ofMain (locale : Option Text) : ExtractRequest where
  file := ⟨"lib/main.dart".toList⟩
  target := ⟨some 6, none, none, none⟩
  directory := none
  locale := locale
  trigger := none
  dryRun := false
  noHook := true
  verbose := false

/-- A project with this file and more in its directory. -/
def withMain (entries : List (Place × Node)) : FileSystem where
  entries :=
    [(["pubspec.yaml".toList], .file .empty 0o644), (["lib".toList], .directory),
      (["main.dart".toList, "lib".toList], .file (bytesOf "Text('Hi')".toList) 0o644)] ++ entries
  current := []

/-- In a project without documents the literal of the file is replaced, and the default document
holds its key. -/
theorem source_of_run_withMain :
    ∃ j c t, Finds (ofMain none) (withMain []) j c ∧ (plan j c).apply j.text = .ok t ∧
      ((ofMain none).run ⟨false, .notStarted ""⟩ (withMain [])).files.node?
        ["main.dart".toList, "lib".toList] = some (.file (bytesOf t) 0o644) ∧
      ∃ d ∈ (j.store.targets (j.store.ready (withMain []))).1,
        Stores (j.store.ready (withMain []))
          ((ofMain none).run ⟨false, .notStarted ""⟩ (withMain [])).files d c.key
          c.literal.content := by
  have hsource : (withMain []).resolve true (ofMain none).file =
      .ok ⟨["main.dart".toList, "lib".toList],
        some (.file (bytesOf "Text('Hi')".toList) 0o644)⟩ := by decide +kernel
  have hedited : ((ofMain none).run ⟨false, .notStarted ""⟩ (withMain [])).files.node?
      ["main.dart".toList, "lib".toList] ≠
        some (.file (bytesOf "Text('Hi')".toList) 0o644) := by decide +kernel
  obtain ⟨hsame | ⟨j, c, t, hfinds, -, hplan, hnode, hstores⟩, -, -⟩ :=
    source_of_run (ofMain none) ⟨false, .notStarted ""⟩ (withMain []) (by decide +kernel) rfl
      hsource (by decide +kernel)
  · exact absurd hsame hedited
  · exact ⟨j, c, t, hfinds, hplan, hnode, hstores⟩

/-- A project with a link to nothing. -/
def withLink : FileSystem := withMain [(["k.arb".toList, "lib".toList], .link ⟨"d".toList⟩)]

/-- A request whose default document is this link, by a path that runs through the link. -/
def throughLink : ExtractRequest := ofMain (some "x/../../d/../k.arb/../k".toList)

/-- The documents of a run hold whole numbers only. -/
def HasWholeTargets (fs : FileSystem) (j : Job) : Prop :=
  ∀ t ∈ (j.store.targets (j.store.ready fs)).1, ∀ doc,
    Document.open (j.store.ready fs) t = .ok doc → doc.IsWhole

instance (fs : FileSystem) (j : Job) : Decidable (HasWholeTargets fs j) := by
  unfold HasWholeTargets
  infer_instance

/-- No document needs to open under the path that it was written by: where that path runs through
the link that is its own entry, the write puts a file in the place of the link. -/
theorem not_forall_holds_of_run :
    ¬ ∀ (r : ExtractRequest) (sur : Surroundings) (fs : FileSystem), fs.WellFormed →
      r.dryRun = false → ∀ p b m, fs.resolve true r.file = .ok ⟨p, some (.file b m)⟩ →
      (∀ j, (Job.resolve r fs).2 = .ok j → HasWholeTargets fs j) →
      (∀ j, (Job.resolve r fs).2 = .ok j → AvoidsSource fs j p) →
      (r.run sur fs).files.node? p = some (.file b m) ∨
        ∃ j c, Finds r fs j c ∧ ∃ d, (d ∈ (j.store.targets (j.store.ready fs)).1 ∨
            d ∈ (j.store.targets (r.run sur fs).files).1) ∧
          Document.Holds (r.run sur fs).files d c.key c.literal.content := by
  intro h
  have hsource : withLink.resolve true throughLink.file =
      .ok ⟨["main.dart".toList, "lib".toList],
        some (.file (bytesOf "Text('Hi')".toList) 0o644)⟩ := by decide +kernel
  have hedited : (throughLink.run ⟨false, .notStarted ""⟩ withLink).files.node?
      ["main.dart".toList, "lib".toList] ≠
        some (.file (bytesOf "Text('Hi')".toList) 0o644) := by decide +kernel
  have hnone : ∀ j, (Job.resolve throughLink withLink).2 = .ok j →
      ∀ c, Candidate.at j.text j.cursor = .ok c →
      ∀ d ∈ (j.store.targets (j.store.ready withLink)).1 ++
        (j.store.targets (throughLink.run ⟨false, .notStarted ""⟩ withLink).files).1,
      ¬ Document.Holds (throughLink.run ⟨false, .notStarted ""⟩ withLink).files d c.key
        c.literal.content := by decide +kernel
  rcases h throughLink ⟨false, .notStarted ""⟩ withLink (by decide +kernel) rfl _ _ _ hsource
    (by decide +kernel) (by decide +kernel) with hsame | ⟨j, c, hfinds, d, hd, hholds⟩
  · exact hedited hsame
  · exact hnone j hfinds.job c hfinds.candidate d (List.mem_append.mpr hd) hholds

/-! ### The documents -/

/-- The source of a run is a file. -/
lemma exists_source (hfs : fs.WellFormed) (hjob : (Job.resolve r fs).2 = .ok j) :
    ∃ p b m, fs.resolve true r.file = .ok ⟨p, some (.file b m)⟩ := by
  obtain ⟨hcanonical, htext, -⟩ := source_of_resolve hjob
  rw [canonical] at hcanonical
  split at hcanonical
  · cases hcanonical
  · cases hcanonical
  · next place node hresolve =>
      have hfile : Path.ofPlace place = j.file := Except.ok.inj hcanonical
      rw [← hfile] at htext
      obtain ⟨q, b, m, hq, -⟩ := exists_of_readText htext
      obtain ⟨hslash, e, he, hentry⟩ := lastPlace_of_resolve hq .busy
      have hwalk := (resolve_eq_ok_iff.mp hresolve).2.2
      have hnode : fs.node? place = some node := hfs.node?_of_walk hwalk (hfs.node?_start r.file)
      cases place with
      | nil => exact absurd rfl hslash
      | cons n d =>
          have hlast := (hfs.lastPlace_ofPlace hnode (fun _ h => h) .busy).1
          rw [he] at hlast
          obtain rfl : e = n :: d := congrArg Found.place (Except.ok.inj hlast)
          rcases hentry with ⟨-, hfile'⟩ | ⟨target, hlink, -⟩
          · rw [hnode] at hfile'
            exact ⟨_, b, m, hfile' ▸ hresolve⟩
          · rw [hnode] at hlink
            exact absurd hlink (hwalk.node?_ne_link target)

/-- After a run that did all that was asked for, the documents that are listed open with the key,
just if those that lead to the source file are such documents as it is edited. This is so unless
directories were made for the default document; then others lead to files as they were. -/
theorem documents_of_run (r : ExtractRequest) (sur : Surroundings) (fs : FileSystem)
    (hfs : fs.WellFormed) (hdry : r.dryRun = false) (hsuccess : (r.run sur fs).exitCode = 0) :
    ∃ j c t p, Finds r fs j c ∧ (plan j c).apply j.text = .ok t ∧
      (∃ b m, fs.resolve true r.file = .ok ⟨p, some (.file b m)⟩) ∧
      (∃ m, (r.run sur fs).files.node? p = some (.file (bytesOf t) m)) ∧
      (∀ d ∈ j.store.documents (r.run sur fs).files,
        ∃ q b m, (r.run sur fs).files.resolve true d = .ok ⟨q, some (.file b m)⟩ ∧
          (q ≠ p → Document.Holds (r.run sur fs).files d c.key c.literal.content ∨
            (j.store.targets (j.store.ready fs)).2 = true ∧ '/' ∈ j.store.defaultName ∧
              fs.node? q = some (.file b m))) ∧
      (((j.store.targets (j.store.ready fs)).2 = true → '/' ∉ j.store.defaultName) →
        ((∀ d ∈ j.store.documents (r.run sur fs).files,
            Document.Holds (r.run sur fs).files d c.key c.literal.content) ↔
          ∀ d ∈ j.store.documents (r.run sur fs).files, ∀ n,
            (r.run sur fs).files.resolve true d = .ok ⟨p, n⟩ →
              ∃ doc, Document.ofBytes d (bytesOf t) = .ok doc ∧
                doc.get? c.key.text = some c.literal.content)) := by
  have hends : Ends r fs (r.run sur fs).files (r.run sur fs).exitCode := ends_of_run sur fs hdry
  generalize (r.run sur fs).files = after at hends ⊢
  rw [hsuccess] at hends
  generalize hcode : 0 = code at hends
  cases hends with
  | early h => exact absurd hcode.symm h
  | atDirectory _ _ => cases hcode
  | atMerge _ _ _ => cases hcode
  | atPlan _ _ _ => cases hcode
  | atWrite _ _ _ _ => cases hcode
  | @done j c report t _ hfinds hmerge htotal hplan hwrite =>
      have hcomplete : report.isComplete = true := by
        by_contra hcon
        rw [if_neg hcon] at hcode
        cases hcode
      obtain ⟨p, b, m, hsource⟩ := exists_source hfs hfinds.job
      obtain ⟨⟨n, d, rfl⟩, hnode, hfile, -⟩ := file_of_resolve hfs hfinds.job hsource
      obtain ⟨hmerged, hkept⟩ := file_of_merge hfs hnode hmerge
      obtain ⟨b', m', hthen⟩ : ∃ b m, (merge fs j c).files.node? (n :: d) = some (.file b m) := by
        rcases hmerged with hsame | ⟨t, -, f, b', m', -, -, hwritten⟩
        · exact ⟨b, m, hsame⟩
        · exact ⟨b', m', hwritten⟩
      rw [hfile] at hwrite
      obtain ⟨f, hputs⟩ := writeAtomically_ok hwrite
      obtain ⟨hcurrent, hafter⟩ := hputs.of_ofPlace hfs hnode hkept hthen
      have hhere : after.node? (n :: d) = some (.file (bytesOf t) m') :=
        (hafter _).trans (if_pos rfl)
      have hrewrites : Store.Rewrites (merge fs j c).files (n :: d) after :=
        ⟨hcurrent, ⟨_, m', hhere⟩, fun q hq => (hafter q).trans (if_neg hq)⟩
      have hname : j.store.defaultName ≠ [] := by simp [Job.store, Config.store, Store.of]
      have hrelisted : ∀ d' ∈ j.store.documents after, _ := fun d' hd' =>
        Store.relisted hfs hmerge hcomplete hname hnode hrewrites hd'
      refine ⟨j, c, t, n :: d, hfinds, hplan, ⟨b, m, hsource⟩, ⟨m', hhere⟩, hrelisted,
        fun hslash => Store.holds_iff hhere fun d' hd' => ?_⟩
      obtain ⟨q, b, m, hq, hother⟩ := hrelisted d' hd'
      refine ⟨q, b, m, hq, fun hne => (hother hne).resolve_right ?_⟩
      rintro ⟨hdefault, hmem, -⟩
      exact hslash hdefault hmem

/-- In a project without documents the run does all that was asked for, and the documents that are
listed then hold the key. -/
theorem documents_of_run_withMain :
    ((ofMain none).run ⟨false, .notStarted ""⟩ (withMain [])).exitCode = 0 ∧
      ∃ j c, Finds (ofMain none) (withMain []) j c ∧
        ∀ d ∈ j.store.documents ((ofMain none).run ⟨false, .notStarted ""⟩ (withMain [])).files,
          Document.Holds ((ofMain none).run ⟨false, .notStarted ""⟩ (withMain [])).files d c.key
            c.literal.content := by
  have hexit : ((ofMain none).run ⟨false, .notStarted ""⟩ (withMain [])).exitCode = 0 := by
    decide +kernel
  have hsource : (withMain []).resolve true (ofMain none).file =
      .ok ⟨["main.dart".toList, "lib".toList],
        some (.file (bytesOf "Text('Hi')".toList) 0o644)⟩ := by decide +kernel
  have hslash : ∀ j, (Job.resolve (ofMain none) (withMain [])).2 = .ok j →
      '/' ∉ j.store.defaultName := by decide +kernel
  have hapart : ∀ j, (Job.resolve (ofMain none) (withMain [])).2 = .ok j →
      ∀ d ∈ j.store.documents ((ofMain none).run ⟨false, .notStarted ""⟩ (withMain [])).files,
        ∀ f,
          ((ofMain none).run ⟨false, .notStarted ""⟩ (withMain [])).files.resolve true d = .ok f →
            f.place ≠ ["main.dart".toList, "lib".toList] := by decide +kernel
  obtain ⟨j, c, t, p, hfinds, -, ⟨b, m, hp⟩, -, -, hiff⟩ := documents_of_run (ofMain none)
    ⟨false, .notStarted ""⟩ (withMain []) (by decide +kernel) rfl hexit
  obtain rfl : ["main.dart".toList, "lib".toList] = p :=
    congrArg Found.place (Except.ok.inj (hsource.symm.trans hp))
  refine ⟨hexit, j, c, hfinds, (hiff fun _ => hslash j hfinds.job).mpr fun d hd n hn => ?_⟩
  exact absurd rfl (hapart j hfinds.job d hd _ hn)

end Externalize.ExtractRequest
