import Externalize.Proofs.Resource.Settling

/-
What merges one after the other report and do.

* `Store.Overwrites`: of two merges of one key the last one counts, and a merge that is made again
  finds all documents unchanged.
* `Store.Starts.merges`, `Store.Fails.merges`: merges that go as if all targets had been files from
  the beginning, and merges that all fail to make the default document.
* `Store.accumulates_of_merges`: all merges have the same targets; a document that fails in the
  first one fails in all, and reads as it did; each other document holds its own keys and those that
  were merged.
-/
namespace Externalize.Store

open FileSystem

variable {s : Store} {fs base out : FileSystem} {p t : Path} {k : Key} {v : Text}
  {place : Path → Place} {ms : List (Key × Text)} {reports : List MergeReport}
  {report : MergeReport}

/-! ### A key that is merged again -/

/-- Of two merges of one key the last one counts, so that nothing changes if the text is the same;
and then the second one finds all documents unchanged. -/
structure Overwrites (s : Store) (fs : FileSystem) (k : Key) (v : Text) : Prop where
  last : ∀ v' q, (s.merge (s.merge fs k v).files k v').files.node? q =
    (s.merge fs k v').files.node? q
  again : ∃ report, (s.merge (s.merge fs k v).files k v).result = .ok report ∧
    ∀ w ∈ report.written, w.action = .unchanged

lemma Settled.overwrites (h : s.Settled fs place) (k : Key) (v : Text) : s.Overwrites fs k v :=
  ⟨fun v' => h.merge_merge k v v', h.merge_again k v⟩

lemma Starts.overwrites (h : s.Starts fs base place) (k : Key) (v : Text) :
    s.Overwrites fs k v where
  last v' q := by
    rw [(h.merge k v).1, (h.merge k v').1]
    exact h.settled.merge_merge k v v' q
  again := by
    rw [(h.merge k v).1]
    exact h.settled.merge_again k v

lemma Fails.overwrites (h : s.Fails fs base) (hbase : s.Fails base base) (k : Key) (v : Text) :
    s.Overwrites fs k v where
  last v' q := by rw [(h.merge k v).1, (hbase.merge k v').1, (h.merge k v').1]
  again := by
    rw [(h.merge k v).1]
    obtain ⟨-, e, hresult⟩ := hbase.merge k v
    refine ⟨_, hresult, fun w hw => ?_⟩
    cases congrArg Prod.snd (List.mem_singleton.mp (mem_written_report.mp hw))

/-! ### Merges that go well, and merges that fail -/

/-- Merges that all fail to make the default document. -/
theorem Fails.merges (h : s.Fails fs base) (hbase : s.Fails base base)
    (hrun : Merges s fs ms reports out) :
    (out = fs ∨ out = base) ∧
      ∀ r ∈ reports, ∃ e, r = Store.report true [(s.defaultDocument, .error e)] := by
  induction hrun with
  | none fs => exact ⟨.inl rfl, fun _ hr => absurd hr List.not_mem_nil⟩
  | @next fs out k v _ report _ hreport _ ih =>
      obtain ⟨hfiles, e, hresult⟩ := h.merge k v
      cases hresult.symm.trans hreport
      rw [hfiles] at ih
      obtain ⟨hout, hreports⟩ := ih hbase
      refine ⟨.inr (hout.elim id id), fun r hr => ?_⟩
      rcases List.mem_cons.mp hr with rfl | hr
      · exact ⟨e, rfl⟩
      · exact hreports r hr

/-- What a target holds after merges, if it was a file from the beginning. -/
lemma Starts.node?_of_merges (h : s.Starts fs base place)
    (hfiles : ∀ t ∈ (s.targets base).1, ∀ b m, base.node? (place t) = some (.file b m) →
      out.node? (place t) = some (.file (mergedAll base.volume (place t) ms t b) m))
    (ht : t ∈ (s.targets fs).1) {b : ByteArray} {m : Nat}
    (hb : base.node? (place t) = some (.file b m)) :
    out.node? (place t) = some (.file (mergedAll base.volume (place t) ms t b) m) := by
  rcases h.same with hsame | ⟨hdefault, -, -, t', hdocuments, hplace⟩
  · exact hfiles t (hsame ▸ ht) b m hb
  · rw [targets_of_documents (documents_of_targets hdefault), List.mem_singleton] at ht
    subst ht
    have ht' : t' ∈ (s.targets base).1 := by
      rw [targets, hdocuments]
      exact List.mem_singleton_self t'
    rw [mergedAll_congr ms _ t', ← hplace]
    exact hfiles t' ht' b m (hplace ▸ hb)

/-- The reports on merges, and what becomes of a target that was a file from the beginning. -/
theorem Starts.merges (h : s.Starts fs base place) (hreport : (s.merge fs k v).result = .ok report)
    (hrest : Merges s (s.merge fs k v).files ms reports out) :
    s.Settled out place ∧ Refills base out ∧
      (∀ t ∈ (s.targets fs).1, ∀ b m, base.node? (place t) = some (.file b m) →
        out.node? (place t) =
          some (.file (mergedAll base.volume (place t) ((k, v) :: ms) t b) m)) ∧
      report = Store.report (s.targets fs).2
        ((s.targets fs).1.map fun t => (t, outcome base (place t) k v t)) ∧
      ∀ r ∈ reports, r.paths.Perm (s.targets base).1 ∧ ∀ t ∈ (s.targets base).1, ∀ e,
        writable base t (place t) = .error e → ∃ w ∈ r.failed, w.path = t := by
  obtain ⟨hfiles, hresult⟩ := h.merge k v
  rw [hfiles] at hrest
  obtain ⟨hout, hrefills, hmerged, hreports⟩ :=
    h.settled.merges (.next (h.settled.merge k v).1 hrest)
  refine ⟨hout, hrefills, fun t ht b m hb => h.node?_of_merges hmerged ht hb,
    Except.ok.inj (hreport.symm.trans hresult), fun r hr => hreports r (List.mem_cons_of_mem _ hr)⟩

/-- The targets of a later merge are those of the first one, or the new default document under
another path. -/
lemma Starts.paths_perm (h : s.Starts fs base place) (hout : s.Settled out place)
    (hrefills : Refills base out) (hpaths : report.paths.Perm (s.targets base).1) :
    report.paths.Perm (s.targets fs).1 ∨ (s.targets fs).2 = true ∧ '/' ∈ s.defaultName ∧
      ∃ t f, report.paths = [t] ∧ s.documents out = [t] ∧
        out.destination t = some f ∧ out.destination s.defaultDocument = some f := by
  rcases h.same with hsame | ⟨hdefault, hslash, -, t, hdocuments, hplace⟩
  · exact .inl (hsame ▸ hpaths)
  · rw [targets, hdocuments] at hpaths
    have hlisted : s.documents out = [t] := (documents_of_refills hrefills).trans hdocuments
    have ht : t ∈ (s.targets out).1 := by
      rw [targets, hlisted]
      exact List.mem_singleton_self t
    have hmem : s.defaultDocument ∈ (s.targets fs).1 := by
      rw [targets_of_documents (documents_of_targets hdefault)]
      exact List.mem_singleton_self _
    obtain ⟨b, m, hfile⟩ := hout.files.file t ht
    obtain ⟨b', m', hfile'⟩ := (h.files.refills hrefills).file _ hmem
    have hnode := hfile'.node?_eq
    rw [← hplace, hfile.node?_eq] at hnode
    refine .inr ⟨hdefault, hslash, t, _, List.perm_singleton.mp hpaths, hlisted,
      hfile.destination_eq, ?_⟩
    rw [hfile'.destination_eq, hnode, hplace]

/-- A target that fails in the first merge is a target of the others. -/
lemma Starts.mem_targets_of_error (h : s.Starts fs base place) (ht : t ∈ (s.targets fs).1)
    {e : DocumentError} (he : writable base t (place t) = .error e) : t ∈ (s.targets base).1 := by
  rcases h.same with hsame | ⟨hdefault, -, ⟨d, hd⟩, -⟩
  · exact hsame ▸ ht
  · rw [targets_of_documents (documents_of_targets hdefault), List.mem_singleton] at ht
    subst ht
    cases hd.symm.trans he

section

variable (h : s.Starts fs base place) (hrefills : Refills base out)
  (hmerged : ∀ t ∈ (s.targets fs).1, ∀ b m, base.node? (place t) = some (.file b m) →
    out.node? (place t) = some (.file (mergedAll base.volume (place t) ms t b) m))
include h hrefills hmerged

/-- A target that cannot be opened or written reads as it did. -/
lemma Starts.read_of_error (ht : t ∈ (s.targets fs).1) {e : DocumentError}
    (he : writable base t (place t) = .error e) {b : ByteArray} (hread : fs.read t = .ok b) :
    out.read t = .ok b := by
  obtain ⟨b', m, hfile⟩ := h.files.file t ht
  have hnode := hmerged t ht b' m hfile.node?_eq
  have hbase := h.read t ht b hread
  rw [read_eq hfile.resolve_eq] at hbase
  obtain rfl := Except.ok.inj hbase
  rw [writable_of_hasFile hfile] at he
  rw [mergedAll_of_error he] at hnode
  exact read_eq (hfile.keep hrefills.keepsWays hnode).resolve_eq

/-- A target that can be opened and written has all keys set in the end. -/
lemma Starts.open_of_ok (ht : t ∈ (s.targets fs).1) {doc : Document}
    (hdoc : writable base t (place t) = .ok doc) (hwhole : doc.IsWhole) :
    Document.open out t = .ok (doc.setAll ms) := by
  obtain ⟨b, m, hfile⟩ := h.files.file t ht
  rw [writable_of_hasFile hfile] at hdoc
  rw [open_of_hasFile (hfile.keep hrefills.keepsWays (hmerged t ht b m hfile.node?_eq))]
  exact (granted_eq_ok_iff.mp (granted_mergedAll hdoc hwhole)).1

end

/-! ### What merges do together -/

/-- What merges one after the other report, and what is left of them. -/
structure Accumulates (s : Store) (fs : FileSystem) (ms : List (Key × Text))
    (reports : List MergeReport) (out : FileSystem) : Prop where
  /-- All merges have the targets of the first one, but for a default document whose name has a
  slash: that one may be listed under another path. -/
  targets : ∀ r ∈ reports, r.paths.Perm (s.targets (s.ready fs)).1 ∨
    (s.targets (s.ready fs)).2 = true ∧ '/' ∈ s.defaultName ∧
      ∃ t f, r.paths = [t] ∧ s.documents out = [t] ∧
        out.destination t = some f ∧ out.destination s.defaultDocument = some f
  first : ∀ first ∈ reports.head?, first.paths.Perm (s.targets (s.ready fs)).1
  /-- A target that fails in the first merge fails in all, and reads as it did. -/
  failed : ∀ first ∈ reports.head?, ∀ w ∈ first.failed,
    (∀ r ∈ reports, ∃ w' ∈ r.failed, w'.path = w.path) ∧
      ∀ b, fs.read w.path = .ok b → out.read w.path = .ok b
  /-- Each other target holds its own members, with all keys set. -/
  written : ∀ first ∈ reports.head?, ∀ w ∈ first.written, ∃ doc after,
    Document.open (s.ready fs) w.path = .ok doc ∧ Document.open out w.path = .ok after ∧
      doc.AllSet ms after
  overwrites : ∀ k v report, (s.merge out k v).result = .ok report → s.Overwrites out k v

/-- Merges that go as if all targets had been files from the beginning. -/
lemma Starts.accumulates (h : s.Starts (s.ready fs) base place)
    (hplain : s.PlainTargets (s.ready fs))
    (hreport : (s.merge (s.ready fs) k v).result = .ok report)
    (hrest : Merges s (s.merge (s.ready fs) k v).files ms reports out) :
    s.Accumulates fs ((k, v) :: ms) (report :: reports) out := by
  obtain ⟨hout, hrefills, hmerged, hfirst, hreports⟩ := h.merges hreport hrest
  have hpaths : report.paths.Perm (s.targets (s.ready fs)).1 := by
    rw [hfirst]
    exact paths_report_map _ _ _
  refine ⟨fun r hr => ?_, fun first hmem => ?_, fun first hmem w hw => ?_,
    fun first hmem w hw => ?_, fun k v _ _ => hout.overwrites k v⟩
  · rcases List.mem_cons.mp hr with rfl | hr
    · exact .inl hpaths
    · exact h.paths_perm hout hrefills (hreports r hr).1
  · cases hmem
    exact hpaths
  · cases hmem
    have hwfirst := hw
    rw [hfirst] at hw
    obtain ⟨t, ht, heq⟩ := List.mem_map.mp (mem_failed_report.mp hw)
    obtain ⟨rfl, herror⟩ := Prod.mk.inj heq
    have hbase := outcome_eq_error_iff.mp herror
    refine ⟨fun r hr => ?_, fun b hread => ?_⟩
    · rcases List.mem_cons.mp hr with rfl | hr
      · exact ⟨w, hwfirst, rfl⟩
      · exact (hreports r hr).2 _ (h.mem_targets_of_error ht hbase) _ hbase
    · obtain ⟨q, m, hq⟩ := exists_of_read hread
      exact h.read_of_error hrefills hmerged ht hbase (read_eq ((s.ready_grows fs).resolve_eq hq))
  · cases hmem
    rw [hfirst] at hw
    obtain ⟨t, ht, heq⟩ := List.mem_map.mp (mem_written_report.mp hw)
    obtain ⟨rfl, hok⟩ := Prod.mk.inj heq
    obtain ⟨doc, hdoc, -⟩ := outcome_eq_ok_iff.mp hok
    have hopen := (h.opened _ ht).symm.trans (granted_eq_ok_iff.mp hdoc).1
    exact ⟨doc, _, hopen, h.open_of_ok hrefills hmerged ht hdoc (hplain.whole _ ht doc hopen),
      doc.allSet_setAll _⟩

/-- Merges that all fail to make the default document. -/
lemma Fails.accumulates (h : s.Fails (s.ready fs) base) (hbase : s.Fails base base)
    (hgrows : Grows (s.ready fs) base)
    (hrun : Merges s (s.ready fs) ms reports out) : s.Accumulates fs ms reports out := by
  obtain ⟨hout, hreports⟩ := h.merges hbase hrun
  have hgrows' : Grows fs out := by
    rcases hout with rfl | rfl
    · exact s.ready_grows fs
    · exact (s.ready_grows fs).trans hgrows
  have hfirst : ∀ first ∈ reports.head?, ∃ e,
      first = Store.report true [(s.defaultDocument, .error e)] := fun first hmem =>
    hreports first (List.mem_of_head? hmem)
  have hpaths : ∀ e, (Store.report true [(s.defaultDocument, .error e)]).paths.Perm
      (s.targets (s.ready fs)).1 := by
    intro e
    rw [targets_of_documents h.documents]
    exact paths_report_perm
  refine ⟨fun r hr => ?_, fun first hmem => ?_,
    fun first hmem w hw => ⟨fun r hr => ?_, fun b hread => ?_⟩,
    fun first hmem w hw => ?_, fun k v _ _ => ?_⟩
  · obtain ⟨e, rfl⟩ := hreports r hr
    exact .inl (hpaths e)
  · obtain ⟨e, rfl⟩ := hfirst first hmem
    exact hpaths e
  · obtain ⟨e, rfl⟩ := hfirst first hmem
    obtain ⟨e', rfl⟩ := hreports r hr
    have hpath := congrArg Prod.fst (List.mem_singleton.mp (mem_failed_report.mp hw))
    exact ⟨⟨s.defaultDocument, e'⟩, mem_failed_report.mpr (List.mem_singleton_self _), hpath.symm⟩
  · obtain ⟨q, m, hq⟩ := exists_of_read hread
    exact read_eq (hgrows'.resolve_eq hq)
  · obtain ⟨e, rfl⟩ := hfirst first hmem
    cases congrArg Prod.snd (List.mem_singleton.mp (mem_written_report.mp hw))
  · rcases hout with rfl | rfl
    · exact h.overwrites hbase k v
    · exact hbase.overwrites hbase k v

/-- **Merges one after the other.** If the targets are no links and their numbers are whole, and no
link that led to nothing leads to a document once the default one is made, then all merges have the
same targets; a target that fails in the first merge fails in all, and reads as it did; each other
target holds its own keys, and then those that were merged, each with its last text; and of two
merges of one key the last one counts, so that a merge that is made again changes nothing. -/
theorem accumulates_of_merges (s : Store) (fs : FileSystem) (hfs : fs.WellFormed)
    (hplain : s.PlainTargets (s.ready fs))
    (hdangling : (s.targets (s.ready fs)).2 = true → ∀ p ∈ s.entries (s.ready fs),
      s.isDocument p = true → (s.ready fs).status p = .error .notFound →
        ∀ k v q b m, (s.merge fs k v).files.resolve true p ≠ .ok ⟨q, some (.file b m)⟩)
    {ms : List (Key × Text)} {reports : List MergeReport} {out : FileSystem}
    (hrun : Merges s fs ms reports out) : s.Accumulates fs ms reports out := by
  have hcases : ∀ k v {report}, (s.merge fs k v).result = .ok report →
      (∃ base place, s.Starts (s.ready fs) base place) ∨
        ∃ base, (s.ready fs).Grows base ∧ s.Fails (s.ready fs) base ∧ s.Fails base base := by
    intro k v report hreport
    obtain ⟨made, hmade⟩ := prepareDirectory_of_merge hreport
    refine starts_or_fails (k := k) (v := v) (s.ready_wellFormed hfs) (prepared_ready hmade) hplain
      fun hdefault p hp hdocument hstatus => ?_
    rw [← (merge_ready hmade k v).1]
    exact hdangling hdefault p hp hdocument hstatus k v
  cases hrun with
  | none =>
      refine ⟨fun _ hr => absurd hr List.not_mem_nil, nofun, nofun, nofun,
        fun k v report hreport => ?_⟩
      obtain ⟨made, hmade⟩ := prepareDirectory_of_merge hreport
      have hover : s.Overwrites (s.ready fs) k v := by
        rcases hcases k v hreport with ⟨base, place, hstarts⟩ | ⟨base, -, hfails, hbase⟩
        · exact hstarts.overwrites k v
        · exact hfails.overwrites hbase k v
      refine ⟨fun v' => ?_, ?_⟩ <;> simp only [(merge_ready hmade _ _).1]
      · exact hover.last v'
      · exact hover.again
  | @next _ _ k v ms report reports hreport hrest =>
      obtain ⟨made, hmade⟩ := prepareDirectory_of_merge hreport
      have hready := hreport
      rw [(merge_ready hmade k v).2] at hready
      rw [(merge_ready hmade k v).1] at hrest
      rcases hcases k v hreport with ⟨base, place, hstarts⟩ | ⟨base, hgrows, hfails, hbase⟩
      · exact hstarts.accumulates hplain hready hrest
      · exact hfails.accumulates hbase hgrows (.next hready hrest)

/-- A directory without documents. -/
def withReadme : FileSystem where
  entries :=
    [(["l10n".toList], .directory),
      (["README.md".toList, "l10n".toList], .file (bytesOf "arb".toList) 0o644)]
  current := []

/-- Merges that make a document, and set one of its keys twice. -/
def titles : List (Key × Text) :=
  [(⟨"title".toList, by decide⟩, "Hi".toList), (⟨"ok".toList, by decide⟩, "OK".toList),
    (⟨"title".toList, by decide⟩, "Bye".toList)]

/-- The first merge makes the default document, and the others go on with it. -/
theorem accumulates_of_merges_withReadme : ∃ reports out after,
    Merges ofHalfBroken withReadme titles reports out ∧
      (∀ r ∈ reports, r.paths = [⟨"l10n/app_en.arb".toList⟩]) ∧
      Document.open out ⟨"l10n/app_en.arb".toList⟩ = .ok after ∧
      after.members.keys = ["title".toList, "ok".toList] ∧
      after.members.lookup "title".toList = some (.string "Bye".toList) := by
  have hready : ofHalfBroken.ready withReadme = withReadme := by decide +kernel
  have htargets : (ofHalfBroken.targets withReadme).1 = [⟨"l10n/app_en.arb".toList⟩] := by
    decide +kernel
  have hnone : ∀ p ∈ ofHalfBroken.entries withReadme, ofHalfBroken.isDocument p = false := by
    decide +kernel
  obtain ⟨r, hr, hwritten, r', hr', r'', hr'', -⟩ : ∃ r,
      (ofHalfBroken.merge withReadme ⟨"title".toList, by decide⟩ "Hi".toList).result = .ok r ∧
      r.written = [⟨⟨"l10n/app_en.arb".toList⟩, .added⟩] ∧ ∃ r', (ofHalfBroken.merge
        (ofHalfBroken.merge withReadme ⟨"title".toList, by decide⟩ "Hi".toList).files
        ⟨"ok".toList, by decide⟩ "OK".toList).result = .ok r' ∧ ∃ r'', (ofHalfBroken.merge
        (ofHalfBroken.merge
          (ofHalfBroken.merge withReadme ⟨"title".toList, by decide⟩ "Hi".toList).files
          ⟨"ok".toList, by decide⟩ "OK".toList).files
        ⟨"title".toList, by decide⟩ "Bye".toList).result = .ok r'' ∧ True := by decide +kernel
  have hrun := Merges.next hr (.next hr' (.next hr'' (.none _)))
  have hspec := accumulates_of_merges ofHalfBroken withReadme (by decide +kernel)
    (by decide +kernel)
    (fun _ p hp hdocument => by
      rw [hready] at hp
      rw [hnone p hp] at hdocument
      cases hdocument) hrun
  obtain ⟨doc, after, hdoc, hopen, hall⟩ := hspec.written r rfl _ (by
    rw [hwritten]
    exact List.mem_singleton_self _)
  have hempty : ∀ d, Document.open (ofHalfBroken.ready withReadme) ⟨"l10n/app_en.arb".toList⟩ =
      .ok d → d.members.isEmpty = true := by decide +kernel
  refine ⟨_, _, after, hrun, fun r hr => ?_, hopen, ?_, hall.last (titles.take 2)
    ⟨"title".toList, by decide⟩ "Bye".toList [] rfl (by simp)⟩
  · rcases hspec.targets r hr with hperm | ⟨-, hslash, -⟩
    · rw [hready, htargets] at hperm
      exact List.perm_singleton.mp hperm
    · exact absurd hslash (by decide)
  · rw [hall.keys, List.isEmpty_iff.mp (hempty doc hdoc)]
    decide +kernel

/-- A directory with a link to the default document, which is not there. -/
def withLinkToDefault : FileSystem where
  entries :=
    [(["l10n".toList], .directory), (["l.arb".toList, "l10n".toList], .link ⟨"app_en.arb".toList⟩)]
  current := []

/-- A store whose default document is in the directory by a path that leaves it and comes back. -/
def ofDetour : Store := .of ⟨"l10n".toList⟩ "arb".toList "app".toList "x/../z".toList

/-- Two merges need not have the same targets: a link can lead to the default document once that is
made, and the default document can be listed under another path. -/
theorem not_forall_perm_of_merges :
    (¬ ∀ (s : Store) (fs : FileSystem), fs.WellFormed → s.PlainTargets (s.ready fs) →
      '/' ∉ s.defaultName → ∀ ms reports out, Merges s fs ms reports out →
        ∀ r ∈ reports, r.paths.Perm (s.targets (s.ready fs)).1) ∧
    ¬ ∀ (s : Store) (fs : FileSystem), fs.WellFormed → s.PlainTargets (s.ready fs) →
      (∀ p ∈ s.entries (s.ready fs), s.isDocument p = true →
        (s.ready fs).status p ≠ .error .notFound) → ∀ ms reports out, Merges s fs ms reports out →
          ∀ r ∈ reports, r.paths.Perm (s.targets (s.ready fs)).1 := by
  have hrun : ∀ (s : Store) (fs : FileSystem) (k : Key) (v : Text), (∃ r,
      (s.merge fs k v).result = .ok r ∧ ∃ r', (s.merge (s.merge fs k v).files k v).result = .ok r' ∧
        ¬ r'.paths.Perm (s.targets (s.ready fs)).1) →
      ¬ ∀ ms reports out, Merges s fs ms reports out →
        ∀ r ∈ reports, r.paths.Perm (s.targets (s.ready fs)).1 := by
    rintro s fs k v ⟨r, hr, r', hr', hperm⟩ hall
    exact hperm (hall _ _ _ (.next hr (.next hr' (.none _))) r' (by simp))
  constructor
  · intro h
    exact hrun ofHalfBroken withLinkToDefault ⟨"hi".toList, by decide⟩ "Hi".toList
      (by decide +kernel)
      (h _ _ (by decide +kernel) (by decide +kernel) (by decide))
  · intro h
    exact hrun ofDetour (.mk [] []) ⟨"hi".toList, by decide⟩ "Hi".toList (by decide +kernel)
      (h _ _ (by decide +kernel) (by decide +kernel) (by decide +kernel))

end Externalize.Store
