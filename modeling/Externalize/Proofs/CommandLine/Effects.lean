import Externalize.Proofs.CommandLine.Extracting

/-
What the run of an extraction does besides its edits, and when it does nothing.

* `ExtractRequest.still_of_run`: a dry run, and a run that passes its cursor over, change no file
  and start no program.
* `ExtractRequest.HookLast`: the hook comes last, if it comes at all.
* `ExtractRequest.run_congr_hook`: what becomes of the hook shows only in the note at the end.
-/
namespace Externalize

namespace Run

variable {run : Run} {fs : FileSystem}

/-- A run says why nothing is extracted. -/
def Declines (run : Run) : Prop := ∃ line, Output.err line ∈ run.outputs

/-- A run ends without an extraction: it says why, as a failure, changes no file and starts no
program. -/
structure EndsStill (fs : FileSystem) (run : Run) : Prop where
  declines : run.Declines
  result : run.result = .ok .failure
  files : run.files = fs
  starts : run.starts = []

lemma declines_after_log {records : List LogRecord} :
    (run.after (records.map .log)).Declines ↔ run.Declines := by
  simp [Declines, after]

lemma EndsStill.after_log (h : EndsStill fs run) (records : List LogRecord) :
    EndsStill fs (run.after (records.map .log)) where
  declines := declines_after_log.mpr h.declines
  result := h.result
  files := h.files
  starts := h.starts

end Run

namespace ExtractRequest

open FileSystem

variable {r : ExtractRequest} {fs : FileSystem} {j : Job} {c : Candidate}

/-! ### Runs that change nothing -/

/-- A job passes its cursor over: no extraction is offered there, or nothing there has a key. -/
def SkipsCursor (j : Job) : Prop :=
  j.isOffered = false ∨ ∃ skip, Candidate.at j.text j.cursor = .error skip

/-- A run passes its cursor over. -/
def PassesOver (r : ExtractRequest) (fs : FileSystem) : Prop :=
  ∃ j, (Job.resolve r fs).2 = .ok j ∧ SkipsCursor j

lemma run_of_isOffered (sur : Surroundings) (dryRun : Bool) (fs : FileSystem)
    (h : j.isOffered = true) :
    j.run sur dryRun fs = if dryRun then j.preview sur.colours fs else j.extract sur fs := by
  simp [Job.run, h]

lemma endsStill_skipped (j : Job) (colours : Bool) (fs : FileSystem) (skip : Skip) :
    Run.EndsStill fs (.still fs (.ok .failure) [j.skipped colours skip]) :=
  ⟨⟨_, List.mem_singleton_self _⟩, rfl, rfl, rfl⟩

lemma endsStill_refuse (j : Job) (colours : Bool) (fs : FileSystem) :
    Run.EndsStill fs (j.refuse colours fs) := by
  refine ⟨?_, rfl, rfl, rfl⟩
  rw [Job.refuse]
  split
  · exact ⟨_, List.mem_singleton_self _⟩
  · exact ⟨_, List.mem_append_right _ (List.mem_singleton_self _)⟩

lemma endsStill_of_skipsCursor (sur : Surroundings) (dryRun : Bool) (fs : FileSystem)
    (h : SkipsCursor j) : Run.EndsStill fs (j.run sur dryRun fs) := by
  cases hoffered : j.isOffered with
  | false =>
      rw [Job.run, hoffered]
      exact endsStill_refuse j sur.colours fs
  | true =>
      obtain ⟨skip, hskip⟩ := h.resolve_left (by simp [hoffered])
      rw [run_of_isOffered sur dryRun fs hoffered]
      cases dryRun with
      | true =>
          rw [if_pos rfl, Job.preview, Extraction.preview, hskip]
          exact (endsStill_skipped j sur.colours fs skip).after_log _
      | false =>
          rw [if_neg Bool.false_ne_true]
          obtain ⟨records, ⟨skip', -, hextract⟩ | ⟨c, -, hc, -⟩ | ⟨c, -, hc, -⟩⟩ :=
            extract_cases j fs
          · rw [hextract]
            exact (endsStill_skipped j sur.colours fs skip').after_log records
          · cases hskip.symm.trans hc
          · cases hskip.symm.trans hc

lemma not_declines_finish (j : Job) (sur : Surroundings) (fs : FileSystem) (e : Extraction) :
    ¬ (j.finish sur fs e).Declines := by
  rintro ⟨line, hline⟩
  simp only [Job.finish, List.mem_append, List.mem_map, reduceCtorEq, and_false, exists_false,
    false_or] at hline
  split at hline
  · cases hline
  · simp at hline

lemma not_declines_of_not_skipsCursor (sur : Surroundings) (dryRun : Bool) (fs : FileSystem)
    (h : ¬ SkipsCursor j) : ¬ (j.run sur dryRun fs).Declines := by
  obtain ⟨hoffered, hcandidate⟩ := not_or.mp h
  rw [Bool.not_eq_false] at hoffered
  rw [run_of_isOffered sur dryRun fs hoffered]
  cases dryRun with
  | true =>
      rw [if_pos rfl, Job.preview, Run.declines_after_log, Extraction.preview]
      cases hc : Candidate.at j.text j.cursor with
      | error skip => exact absurd ⟨skip, hc⟩ hcandidate
      | ok c => simp [Run.Declines, Run.still]
  | false =>
      rw [if_neg Bool.false_ne_true]
      obtain ⟨records, ⟨skip, hskip, -⟩ | ⟨c, e, -, -, hextract⟩ | ⟨c, report, -, -, hextract⟩⟩ :=
        extract_cases j fs
      · exact absurd ⟨skip, hskip⟩ hcandidate
      · rw [hextract, Run.declines_after_log]
        simp [Run.Declines, Run.still]
      · rw [hextract, Run.declines_after_log]
        exact not_declines_finish j sur _ _

lemma declines_run_iff (sur : Surroundings) (dryRun : Bool) (fs : FileSystem) :
    (j.run sur dryRun fs).Declines ↔ SkipsCursor j := by
  refine ⟨fun h => ?_, fun h => (endsStill_of_skipsCursor sur dryRun fs h).declines⟩
  by_contra hskips
  exact not_declines_of_not_skipsCursor sur dryRun fs hskips h

lemma still_of_dryRun (j : Job) (sur : Surroundings) (fs : FileSystem) :
    (j.run sur true fs).files = fs ∧ (j.run sur true fs).starts = [] := by
  rw [Job.run]
  cases j.isOffered <;> simp

/-- A run says why nothing is extracted just if it passes its cursor over; then it ends as a
failure. After that, as after a dry run, all files are as they were, and no program was started. -/
theorem still_of_run (r : ExtractRequest) (sur : Surroundings) (fs : FileSystem) :
    ((r.run sur fs).Declines ↔ PassesOver r fs) ∧
      (PassesOver r fs → (r.run sur fs).result = .ok .failure) ∧
      (r.dryRun = true ∨ PassesOver r fs →
        (r.run sur fs).files = fs ∧ (r.run sur fs).starts = []) := by
  cases hjob : (Job.resolve r fs).2 with
  | error e =>
      have hpasses : ¬ PassesOver r fs := by
        rintro ⟨j, hj, -⟩
        cases hjob.symm.trans hj
      rw [run_of_resolve_error hjob, Run.declines_after_log]
      refine ⟨iff_of_false ?_ hpasses, fun h => absurd h hpasses, fun _ => ⟨rfl, rfl⟩⟩
      rintro ⟨line, hline⟩
      cases hline
  | ok j =>
      have hpasses : PassesOver r fs ↔ SkipsCursor j := by simp [PassesOver, hjob]
      have hstill : SkipsCursor j → Run.EndsStill fs (r.run sur fs) := by
        intro h
        rw [run_of_resolve hjob]
        exact (endsStill_of_skipsCursor sur r.dryRun fs h).after_log _
      refine ⟨?_, fun h => (hstill (hpasses.mp h)).result, ?_⟩
      · rw [hpasses, run_of_resolve hjob, Run.declines_after_log, declines_run_iff]
      · rintro (hdry | h)
        · rw [run_of_resolve hjob, hdry]
          exact still_of_dryRun j sur fs
        · exact ⟨(hstill (hpasses.mp h)).files, (hstill (hpasses.mp h)).starts⟩

/-- A request for the literal at an offset of the file `lib/main.dart`, with the hook. -/
def ofMainAt (offset : Nat) (dryRun : Bool) : ExtractRequest :=
  { ofMain none with target := ⟨some offset, none, none, none⟩, dryRun := dryRun, noHook := false }

/-- A dry run changes nothing at a literal, and no run does before one. -/
theorem still_of_run_withMain :
    ((ofMainAt 6 true).run ⟨false, .notStarted ""⟩ (withMain [])).result = .ok .success ∧
      ((ofMainAt 6 true).run ⟨false, .notStarted ""⟩ (withMain [])).files = withMain [] ∧
      PassesOver (ofMainAt 0 false) (withMain []) ∧
      ((ofMainAt 0 false).run ⟨false, .notStarted ""⟩ (withMain [])).result = .ok .failure ∧
      ((ofMainAt 0 false).run ⟨false, .notStarted ""⟩ (withMain [])).files = withMain [] := by
  obtain ⟨-, -, hdry⟩ := still_of_run (ofMainAt 6 true) ⟨false, .notStarted ""⟩ (withMain [])
  obtain ⟨-, hfailure, hover⟩ :=
    still_of_run (ofMainAt 0 false) ⟨false, .notStarted ""⟩ (withMain [])
  have hpasses : PassesOver (ofMainAt 0 false) (withMain []) := by
    obtain ⟨j, hjob, hoffered⟩ : ∃ j, (Job.resolve (ofMainAt 0 false) (withMain [])).2 = .ok j ∧
        j.isOffered = false := by decide +kernel
    exact ⟨j, hjob, .inl hoffered⟩
  exact ⟨by decide +kernel, (hdry (.inl rfl)).1, hpasses, hfailure hpasses,
    (hover (.inr hpasses)).1⟩

/-! ### The hook -/

/-- What is printed of the hook at the end of a report. -/
def closing (x : Report) (h : ProcessResult) : Text :=
  (x.hookNote (some (.ofProcess h))).flatMap (· ++ ['\n'])

/-- The runs of a job that differ in what becomes of the hook, `run h` being the one in which its
program ends as `h`. They do not start it, and are the same; or they start it once, in the root of
the project, after the source is written, and what becomes of it changes only the end of their
output. -/
inductive HookLast (j : Job) (colours : Bool) (fs : FileSystem) (run : ProcessResult → Run) : Prop
  | unused (hstarts : ∀ h, (run h).starts = []) (hsame : ∀ h h', run h = run h')
  | started {c : Candidate} {t : Text} {out : FileSystem} {status : ExitStatus}
      (shown : Text → Text) (hcandidate : Candidate.at j.text j.cursor = .ok c)
      (hwanted : j.config.runHook = true) (hplan : (plan j c).apply j.text = .ok t)
      (hwrite : (merge fs j c).files.writeAtomically j.file t = (out, .ok ()))
      (hfiles : ∀ h, (run h).files = out) (hresult : ∀ h, (run h).result = .ok status)
      (hstarts : ∀ h, (run h).starts = [⟨⟨Hook.program, Hook.arguments, j.root⟩, out⟩])
      (hstdout : ∀ h help, (run h).stdout help = shown help ++ closing (j.report colours) h)

variable {colours : Bool} {run : ProcessResult → Run}

/-- What is printed before a run comes first. -/
lemma HookLast.after (h : HookLast j colours fs run) (outputs : List Output) :
    HookLast j colours fs fun h => (run h).after outputs := by
  cases h with
  | unused hstarts hsame => exact .unused hstarts fun h h' => by rw [hsame h h']
  | started shown hcandidate hwanted hplan hwrite hfiles hresult hstarts hstdout =>
      refine .started (fun help => (Run.still fs (.ok .success) outputs).stdout help ++ shown help)
        hcandidate hwanted hplan hwrite hfiles hresult hstarts fun h help => ?_
      rw [List.append_assoc, ← hstdout]
      simp [Run.stdout, Run.after, Run.still]

/-- A commit does not start the hook, or starts it after the edits are applied. -/
lemma commit_cases (e : Extraction) (fs : FileSystem) (s : Source) :
    (∃ out result records, ∀ hook, e.commit hook fs s = ⟨out, result, false, none, [], records⟩) ∨
      ∃ out s', s.apply fs e.plan = (out, .ok s') ∧ ∀ hook, e.commit hook fs s =
        ⟨out, .ok s', true, hook.map fun h => Hook.run h.result h.root,
          (hook.map fun h => Hook.run h.result h.root).toList.map fun r => ⟨r.call, out⟩,
          ((hook.map fun h => Hook.run h.result h.root).map (·.records)).getD []⟩ := by
  cases hdue : e.isDue with
  | false => exact .inl ⟨fs, .ok s, _, fun hook => by simp only [Extraction.commit, hdue]; rfl⟩
  | true =>
      rcases happly : s.apply fs e.plan with ⟨out, err | s'⟩
      · exact .inl ⟨out, .error err, [], fun hook => by simp [Extraction.commit, hdue, happly]⟩
      · exact .inr ⟨out, s', rfl, fun hook => by simp [Extraction.commit, hdue, happly]⟩

/-- The note on the hook is the end of a report. -/
lemma extracted_eq_append (x : Report) {e : Extraction} {report : MergeReport}
    (h : e.merge = some report) (edited : Bool) (hook : Option HookOutcome) :
    x.extracted e edited hook = x.extracted e edited none ++ x.hookNote hook := by
  simp [Report.extracted, h, Report.hookNote]

lemma hookLast_finish (colours : Bool) (hcandidate : Candidate.at j.text j.cursor = .ok c)
    (hsource : j.source = .file j.file j.text) (report : MergeReport) :
    HookLast j colours fs fun h =>
      j.finish ⟨colours, h⟩ (merge fs j c).files ⟨c, plan j c, report.paths, some report⟩ := by
  set e : Extraction := ⟨c, plan j c, report.paths, some report⟩
  rcases commit_cases e (merge fs j c).files j.source with
    ⟨out, result, records, hcommit⟩ | ⟨out, s, happly, hcommit⟩
  · exact .unused (fun h => by simp [Job.finish, hcommit]) fun h h' => by simp [Job.finish, hcommit]
  · cases hwanted : j.config.runHook with
    | false =>
        exact .unused (fun h => by simp [Job.finish, hcommit, hwanted]) fun h h' => by
          simp [Job.finish, hcommit, hwanted]
    | true =>
        have hfinish : ∀ h, j.finish ⟨colours, h⟩ (merge fs j c).files e =
            ⟨out, .ok (Job.status e true), (Hook.run h j.root).records.map .log ++
              ((j.report colours).extracted e true none ++
                (j.report colours).hookNote (some (.ofProcess h))).map .out,
              [⟨⟨Hook.program, Hook.arguments, j.root⟩, out⟩]⟩ := by
          intro h
          rw [← extracted_eq_append (j.report colours) (rfl : e.merge = some report)]
          simp only [Job.finish, hcommit, hwanted, if_true]
          rfl
        rw [hsource] at happly
        obtain ⟨t, hplan, hwrite⟩ := Source.exists_write_of_apply rfl happly
        simp only [hfinish]
        refine .started (fun _ => ((j.report colours).extracted e true none).flatMap (· ++ ['\n']))
          hcandidate hwanted hplan hwrite (fun _ => rfl) (fun _ => rfl) (fun _ => rfl)
          fun h help => ?_
        -- the records of the hook, which come before the report, are not part of the output
        simp [Run.stdout, closing, List.flatMap_map]

lemma hookLast_extract (colours : Bool) (hsource : j.source = .file j.file j.text) :
    HookLast j colours fs fun h => j.extract ⟨colours, h⟩ fs := by
  obtain ⟨records, ⟨skip, -, hextract⟩ | ⟨c, e, -, -, hextract⟩ | ⟨c, report, hc, -, hextract⟩⟩ :=
    extract_cases j fs
  · simp only [hextract]
    exact .unused (fun _ => rfl) fun _ _ => rfl
  · simp only [hextract]
    exact .unused (fun _ => rfl) fun _ _ => rfl
  · simp only [hextract]
    exact (hookLast_finish colours hc hsource report).after _

lemma hookLast_run (colours : Bool) (dryRun : Bool) (hsource : j.source = .file j.file j.text) :
    HookLast j colours fs fun h => j.run ⟨colours, h⟩ dryRun fs := by
  simp only [Job.run]
  split_ifs
  · exact .unused (fun _ => by simp) fun _ _ => rfl
  · exact .unused (fun _ => by simp) fun _ _ => rfl
  · exact hookLast_extract colours hsource

lemma hookLast_of_resolve (colours : Bool) (hjob : (Job.resolve r fs).2 = .ok j) :
    HookLast j colours fs fun h => r.run ⟨colours, h⟩ fs := by
  simp only [run_of_resolve hjob]
  exact (hookLast_run colours r.dryRun (source_of_resolve hjob).2.2).after _

/-- A run starts the hook, and nothing else: in the root of the project of the file, when the hook
is enabled and the request leaves nothing out. The hook finds the files as they are once the source
is written with its edits, and the run changes none of them after that. -/
structure StartsHook (r : ExtractRequest) (fs : FileSystem) (j : Job) (c : Candidate) (t : Text)
    (run : Run) : Prop where
  finds : Finds r fs j c
  starts : run.starts = [⟨⟨Hook.program, Hook.arguments, j.root⟩, run.files⟩]
  root : ∃ loaded, Config.load fs (j.file.parent?.getD ⟨['.']⟩) = .ok loaded ∧
    j.root = loaded.root
  enabled : j.config.runHook = true ∧ r.noHook = false ∧ r.dryRun = false
  edits : (plan j c).apply j.text = .ok t
  write : (merge fs j c).files.writeAtomically j.file t = (run.files, .ok ())

/-- **What becomes of the hook shows only in the note at the end.** Two runs that differ in it end
alike, leave the same files and start the same program, if any; if they start none, they print the
same. -/
theorem run_congr_hook (r : ExtractRequest) (colours : Bool) (fs : FileSystem)
    (h h' : ProcessResult) (help : Text) :
    (r.run ⟨colours, h⟩ fs).result = (r.run ⟨colours, h'⟩ fs).result ∧
      (r.run ⟨colours, h⟩ fs).files = (r.run ⟨colours, h'⟩ fs).files ∧
      (r.run ⟨colours, h⟩ fs).starts = (r.run ⟨colours, h'⟩ fs).starts ∧
      ((r.run ⟨colours, h⟩ fs).starts = [] ∧
          (r.run ⟨colours, h⟩ fs).stdout help = (r.run ⟨colours, h'⟩ fs).stdout help ∨
        ∃ j c t shown, StartsHook r fs j c t (r.run ⟨colours, h⟩ fs) ∧
          (r.run ⟨colours, h⟩ fs).stdout help = shown ++ closing (j.report colours) h ∧
          (r.run ⟨colours, h'⟩ fs).stdout help = shown ++ closing (j.report colours) h') := by
  cases hjob : (Job.resolve r fs).2 with
  | error e =>
      rw [run_of_resolve_error hjob, run_of_resolve_error hjob]
      exact ⟨rfl, rfl, rfl, .inl ⟨rfl, rfl⟩⟩
  | ok j =>
      cases hookLast_of_resolve colours hjob with
      | unused hstarts hsame =>
          rw [hsame h h']
          exact ⟨rfl, rfl, rfl, .inl ⟨hstarts h', rfl⟩⟩
      | @started c t out status shown hcandidate hwanted hplan hwrite hfiles hresult
          hstarts hstdout =>
          have hdry : r.dryRun = false := by
            by_contra hcon
            rw [Bool.not_eq_false] at hcon
            have hnone : (r.run ⟨colours, h⟩ fs).starts = [] := by
              rw [run_of_resolve hjob, hcon]
              exact (still_of_dryRun j ⟨colours, h⟩ fs).2
            rw [hstarts] at hnone
            cases hnone
          obtain ⟨-, -, -, loaded, hloaded, hroot, hconfig⟩ := exists_of_resolve hjob
          have hhook : r.noHook = false := by
            rw [hconfig, override] at hwanted
            simpa using (Bool.and_eq_true_iff.mp hwanted).2
          refine ⟨(hresult h).trans (hresult h').symm, (hfiles h).trans (hfiles h').symm,
            (hstarts h).trans (hstarts h').symm, .inr ⟨j, c, t, shown help, ?_, hstdout h help,
              hstdout h' help⟩⟩
          exact ⟨⟨hjob, hcandidate⟩, by rw [hstarts, hfiles], ⟨loaded, hloaded, hroot⟩,
            ⟨hwanted, hhook, hdry⟩, hplan, by rw [hfiles, hwrite]⟩

/-- In a project in which the hook is enabled, the run that extracts a literal starts it, and its
success is told of. -/
theorem run_congr_hook_withMain : ∃ j c t shown,
    StartsHook (ofMainAt 6 false) (withMain []) j c t
      ((ofMainAt 6 false).run ⟨false, .finished (some 0) [] []⟩ (withMain [])) ∧
    ((ofMainAt 6 false).run ⟨false, .finished (some 0) [] []⟩ (withMain [])).stdout [] =
      shown ++ "  `flutter pub get` succeeded\n".toList ∧
    ((ofMainAt 6 false).run ⟨false, .finished none [] []⟩ (withMain [])).stdout [] = shown := by
  have hany : ((ofMainAt 6 false).run ⟨false, .finished (some 0) [] []⟩ (withMain [])).starts ≠
      [] := by decide +kernel
  obtain ⟨-, -, -, ⟨hnone, -⟩ | ⟨j, c, t, shown, hstarts, hsucceeded, hfailed⟩⟩ :=
    run_congr_hook (ofMainAt 6 false) false (withMain []) (.finished (some 0) [] [])
      (.finished none [] []) []
  · exact absurd hnone hany
  · refine ⟨j, c, t, shown, hstarts, hsucceeded, ?_⟩
    rw [hfailed]
    exact List.append_nil shown

end ExtractRequest

end Externalize
