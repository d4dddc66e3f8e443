import Externalize.Proofs.Resource.Reports

/-
The documents after a merge that every target took part in, once one more file was written.

* `Store.holds_of_took`: a path that leads to a file that a target was written to opens as a
  document with the key.
* `Store.withDirectories_defaultDocument`: no directory is made for a default document that is named
  by a single name.
* `Store.relisted`, `Store.holds_iff`: a document that is listed then leads to such a file, to the
  file that was written last, or, if directories were made for the default document, to a file as it
  was.
-/
namespace Externalize.Store

open FileSystem

variable {s : Store} {fs ready out after : FileSystem} {k : Key} {v : Text} {p t : Path} {w : Place}
  {results : List (Path × Except DocumentError KeyAction)} {b bytes : ByteArray} {m mode : Nat}

/-- A file that is written last. -/
structure Rewrites (out : FileSystem) (w : Place) (after : FileSystem) : Prop where
  current : after.current = out.current
  here : ∃ b m, after.node? w = some (.file b m)
  node? : ∀ q ≠ w, after.node? q = out.node? q

/-- Directories and links are the same after a rewrite. -/
lemma Rewrites.node?_eq (h : Rewrites out w after) {q : Place} {n : Node}
    (hn : ∀ b m, n ≠ .file b m) (hq : after.node? q = some n) : out.node? q = some n := by
  rw [← h.node? q]
  · exact hq
  · rintro rfl
    obtain ⟨b, m, hfile⟩ := h.here
    rw [hfile] at hq
    exact hn b m (Option.some_injective _ hq).symm

/-- A path that leads to a file that a target was written to opens as a document with the key. -/
theorem holds_of_took {doc : Document} {f : Found} (htook : Took ready out k v p doc f)
    (hrewrites : Rewrites out w after) (hplace : f.place ≠ w)
    (hresolve : after.resolve true t = .ok ⟨f.place, some (.file b m)⟩) :
    Document.Holds after t k v := by
  obtain ⟨mode, hnode⟩ := htook.node?
  have hfile := node?_of_resolve hresolve (by simp)
  rw [hrewrites.node? _ hplace, hnode] at hfile
  obtain ⟨rfl, -⟩ : _ = b ∧ _ = m := by simpa using hfile
  have hset := Document.ofBytes_set htook.fits k v
  exact ⟨_, (Document.open_eq hresolve).trans (Document.ofBytes_of_ofBytes hset t),
    Document.get?_reread_set doc k v⟩

/-! ### Where no directories are made -/

/-- The directory of a path with a name joined to it is the one that the path leads to. -/
lemma directory_of_lastPlace_join {n : Name} {f : Found} {inUse : OsError} (hn : n ≠ [])
    (hslash : '/' ∉ n) (hp : p.text ≠ []) (h : fs.lastPlace (p.join ⟨n⟩) inUse = .ok f) :
    ∃ d, fs.directory p = .ok d ∧ f = ⟨n :: d, fs.node? (n :: d)⟩ := by
  obtain ⟨hnul, -, above, m, d, hplain, -, hwalk, rfl⟩ := lastPlace_eq_ok_iff.mp h
  rw [← Path.names_of_getLast? (Path.getLast?_join hn hslash), Path.names_join p hn hslash]
    at hplain
  obtain ⟨rfl, hname⟩ := List.append_inj' hplain rfl
  obtain rfl : n = m := List.head_eq_of_cons_eq hname
  rw [startOf, Path.isAbsolute_join hslash] at hwalk
  exact ⟨d, directory_eq_ok_iff.mpr (resolve_eq_ok_iff.mpr
    ⟨((Path.nul_notMem_join hslash hp).mp hnul).1, hp, walk_names_iff.mpr hwalk⟩), rfl⟩

/-- The directory is there when the targets are found, if it is there when more are made. -/
lemma directory_ready {d : Place} {made : List LogRecord}
    (hprepare : (s.prepareDirectory fs).2 = .ok made) (hgrows : Grows (s.ready fs) out)
    (hdir : out.directory s.directory = .ok d) : (s.ready fs).directory s.directory = .ok d :=
  (prepared_ready hprepare).directory_eq hgrows.keeps hdir

/-- No directory is made for a default document that is named by a single name. -/
theorem withDirectories_defaultDocument {made : List LogRecord} {f : Found}
    (hprepare : (s.prepareDirectory fs).2 = .ok made) (hdirectory : s.directory.text ≠ [])
    (hname : s.defaultName ≠ []) (hslash : '/' ∉ s.defaultName)
    (h : (s.ready fs).destination s.defaultDocument = some f) :
    (s.ready fs).withDirectories s.defaultDocument = s.ready fs := by
  have hlast := destination_eq_some_iff.mp h
  obtain ⟨d, hd, rfl⟩ := directory_of_lastPlace_join hname hslash hdirectory hlast
  have hready := directory_ready hprepare (withDirectories_grows _ _) hd
  obtain ⟨-, -, hnul, hentry⟩ := isName_of_lastPlace hlast
  exact withDirectories_of_lastPlace (lastPlace_join hentry hname hslash hnul hready .busy)
    (Path.getLast?_join hname hslash)

/-- Documents are targets. -/
lemma mem_targets_of_mem_documents (ht : t ∈ s.documents ready) : t ∈ (s.targets ready).1 := by
  rw [targets_of_ne_nil (List.ne_nil_of_mem ht)]
  exact ht

/-- No directory is made for a target, unless it is a default document whose name has a slash. -/
lemma withDirectories_of_mem_targets (hfs : fs.WellFormed) {made : List LogRecord} {f : Found}
    (hprepare : (s.prepareDirectory fs).2 = .ok made) (hdirectory : s.directory.text ≠ [])
    (hname : s.defaultName ≠ [])
    (hslash : (s.targets (s.ready fs)).2 = true → '/' ∉ s.defaultName)
    (ht : t ∈ (s.targets (s.ready fs)).1) (hf : (s.ready fs).destination t = some f) :
    (s.ready fs).withDirectories t = s.ready fs := by
  rcases s.targets_cases (s.ready_wellFormed hfs) with htargets | ⟨d, ns, htargets, -, hlisted⟩
  · rw [htargets] at ht hslash
    obtain rfl : t = s.defaultDocument := List.mem_singleton.mp ht
    exact withDirectories_defaultDocument hprepare hdirectory hname (hslash rfl) hf
  · rw [htargets] at ht
    obtain ⟨n, hn, rfl⟩ := List.mem_map.mp ht
    exact (hlisted n hn).withDirectories_eq

/-! ### Documents that are listed then -/

/-- A target that took the key, by its entry. -/
lemma Merged.took (hmerged : Merged ready out k v results)
    {r : Path × Except DocumentError KeyAction} {a : KeyAction} {f : Found} (hr : r ∈ results)
    (hok : r.2 = .ok a) (hf : ready.destination r.1 = some f) :
    ∃ doc, Took ready out k v r.1 doc f := by
  rcases hmerged.outcome r hr with ⟨e, he, -⟩ | ⟨doc, g, -, htook⟩
  · rw [hok] at he
    cases he
  · obtain rfl : f = g := Option.some_injective _ (hf.symm.trans htook.destination)
    exact ⟨doc, htook⟩

/-- A document whose entry a target was written to leads to that file. -/
lemma took_of_entry (hmerged : Merged ready out k v results) (hrewrites : Rewrites out w after)
    {d q : Place} {n : Name} (hd : after.directory s.directory = .ok d) (hname : IsName n)
    (hq : after.resolve true (s.directory.join ⟨n⟩) = .ok ⟨q, some (.file b m)⟩)
    {r : Path × Except DocumentError KeyAction} {a : KeyAction} {f : Found} (hr : r ∈ results)
    (hok : r.2 = .ok a) (hf : ready.destination r.1 = some f) (hplace : f.place = n :: d) :
    ∃ r ∈ results, ∃ doc f, Took ready out k v r.1 doc f ∧ f.place = q := by
  obtain ⟨doc, htook⟩ := hmerged.took hr hok hf
  obtain ⟨mode, hnode⟩ := htook.node?
  obtain ⟨bytes, mode', hthen⟩ : ∃ b m, after.node? (n :: d) = some (.file b m) := by
    rcases eq_or_ne (n :: d) w with rfl | hne
    · exact hrewrites.here
    · rw [hrewrites.node? _ hne, ← hplace]
      exact ⟨_, mode, hnode⟩
  have hlast := lastPlace_join hname.2.2.2 hname.1 hname.2.1 hname.2.2.1 hd .busy
  rw [hthen] at hlast
  have hresolve := resolve_of_lastPlace hlast (Path.getLast?_join hname.1 hname.2.1)
    (.inr ⟨bytes, mode', rfl⟩)
  rw [hq] at hresolve
  cases hresolve
  exact ⟨r, hr, doc, f, htook, hplace⟩

section

variable (hmerged : Merged ready out k v results) (hrewrites : Rewrites out w after)
  (hmade : ∀ r ∈ results, ready.withDirectories r.1 = ready)
include hmerged hrewrites hmade

/-- Directories and links are as they were before a merge that made no directories. -/
lemma node?_ready {q : Place} {n : Node} (hn : ∀ b m, n ≠ .file b m)
    (hq : after.node? q = some n) : ready.node? q = some n := by
  have hout := hrewrites.node?_eq hn hq
  rcases hmerged.node? q with (hsame | ⟨-, -, r, hr, hne⟩) | ⟨r, hr, a, f, hok, hf, rfl⟩
  · rw [← hsame, hout]
  · exact absurd (hmade r hr) hne
  · obtain ⟨doc, htook⟩ := hmerged.took hr hok hf
    obtain ⟨m, hfile⟩ := htook.node?
    rw [hfile] at hout
    exact absurd (Option.some_injective _ hout).symm (hn _ m)

/-- Paths lead where they did if what they lead to is no file, or the same file. -/
lemma resolve_ready {f : Found} (h : after.resolve true p = .ok f)
    (hf : f.node? = some .directory ∨ ready.node? f.place = after.node? f.place) :
    ready.resolve true p = .ok f :=
  resolve_transfer (hmerged.current.symm.trans hrewrites.current.symm)
    (fun _ => node?_ready hmerged hrewrites hmade (by simp))
    (fun _ _ => node?_ready hmerged hrewrites hmade (by simp)) h hf

/-- Where no directories were made, a document that is listed then leads to a file that a target was
written to, or to the file that was written last. -/
theorem took_of_documents (hready : ready.WellFormed) (hw : ready.node? w ≠ none)
    (hall : ∀ r ∈ results, ∃ a, r.2 = .ok a)
    (htargets : ∀ t ∈ s.documents ready, t ∈ results.map Prod.fst) {q : Place}
    (ht : t ∈ s.documents after) (hq : after.resolve true t = .ok ⟨q, some (.file b m)⟩)
    (hqw : q ≠ w) : ∃ r ∈ results, ∃ doc f, Took ready out k v r.1 doc f ∧ f.place = q := by
  obtain ⟨hdocument, d, n, hd, hn, rfl, -⟩ := mem_documents.mp ht
  have hfile : after.node? q = some (.file b m) := node?_of_resolve hq (by simp)
  have hdready := directory_eq_ok_iff.mpr
    (resolve_ready hmerged hrewrites hmade (directory_eq_ok_iff.mp hd) (.inl rfl))
  by_cases hnone : ready.node? (n :: d) = none
  · have hne : n :: d ≠ w := fun heq => hw (heq ▸ hnone)
    rw [hrewrites.node? _ hne] at hn
    rcases hmerged.node? (n :: d) with
      (hsame | ⟨-, -, r, hr, hdir⟩) | ⟨r, hr, a, f, hok, hf, hplace⟩
    · exact absurd (hsame.trans hnone) hn
    · exact absurd (hmade r hr) hdir
    · have hname : IsName n := by
        have hlast := destination_eq_some_iff.mp hf
        obtain ⟨place, node⟩ := f
        obtain rfl : place = n :: d := hplace
        exact isName_of_lastPlace hlast
      exact took_of_entry hmerged hrewrites hd hname hq hr hok hf hplace
  · obtain ⟨node, hnode⟩ := Option.ne_none_iff_exists'.mp hnone
    have hname : IsName n := hready.isName hnode List.mem_cons_self
    rcases hmerged.node? q with (hsame | ⟨-, hdir, -⟩) | ⟨r, hr, a, f, hok, hf, hplace⟩
    · have hqready : ready.resolve true (s.directory.join ⟨n⟩) = .ok ⟨q, some (.file b m)⟩ :=
        resolve_ready hmerged hrewrites hmade hq
          (.inr (hsame.symm.trans (hrewrites.node? q hqw).symm))
      have hmem : s.directory.join ⟨n⟩ ∈ s.documents ready :=
        mem_documents.mpr ⟨hdocument, d, n, hdready, hnone, rfl, q, b, m, hqready⟩
      obtain ⟨r, hr, hpath⟩ := List.mem_map.mp (htargets _ hmem)
      obtain ⟨a, hok⟩ := hall r hr
      have hlisted : Listed s ready d n := ⟨hdready, hname, q, b, m, hqready⟩
      exact took_of_entry hmerged hrewrites hd hname hq hr hok (hpath ▸ hlisted.destination_eq) rfl
    · rw [hrewrites.node? q hqw, hdir] at hfile
      cases hfile
    · obtain ⟨doc, htook⟩ := hmerged.took hr hok hf
      exact ⟨r, hr, doc, f, htook, hplace⟩

end

/-- After a merge that every target took part in, and one more file was written, each document that
is listed opens with the key, unless it leads to the file that was written last, or directories were
made for the default document, and it leads to a file as it was. -/
theorem relisted (hfs : fs.WellFormed) {report : MergeReport}
    (hmerge : (s.merge fs k v).result = .ok report)
    (hcomplete : report.isComplete = true) (hname : s.defaultName ≠ []) {b' : ByteArray} {m' : Nat}
    (hw : fs.node? w = some (.file b' m'))
    (hrewrites : Rewrites (s.merge fs k v).files w after) (ht : t ∈ s.documents after) :
    ∃ q b m, after.resolve true t = .ok ⟨q, some (.file b m)⟩ ∧
      (q ≠ w → Document.Holds after t k v ∨ (s.targets (s.ready fs)).2 = true ∧
        '/' ∈ s.defaultName ∧ fs.node? q = some (.file b m)) := by
  obtain ⟨results, rfl, hpaths, -, hmerged⟩ := merge_spec hfs hmerge
  obtain ⟨made, hprepare⟩ := prepareDirectory_of_merge hmerge
  have hgrows := s.ready_grows fs
  have hwf : (s.ready fs).WellFormed := s.ready_wellFormed hfs
  have hall := isComplete_report_iff.mp hcomplete
  obtain ⟨-, d, n, hd, -, -, q, b, m, hq⟩ := mem_documents.mp ht
  refine ⟨q, b, m, hq, fun hqw => ?_⟩
  have hfile : (s.merge fs k v).files.node? q = some (.file b m) := by
    rw [← hrewrites.node? q hqw]
    exact node?_of_resolve hq (by simp)
  have hholds : ∀ r ∈ results, ∀ doc f, Took (s.ready fs) (s.merge fs k v).files k v r.1 doc f →
      f.place = q → Document.Holds after t k v := by
    rintro r - doc f htook rfl
    exact holds_of_took htook hrewrites hqw hq
  by_cases hslash : (s.targets (s.ready fs)).2 = true ∧ '/' ∈ s.defaultName
  · rcases hmerged.node? q with (hsame | ⟨-, hdir, -⟩) | ⟨r, hr, a, f, hok, hf, hplace⟩
    · exact .inr ⟨hslash.1, hslash.2, hgrows.node?_of (hsame.symm.trans hfile) (by simp)⟩
    · rw [hfile] at hdir
      cases hdir
    · obtain ⟨doc, htook⟩ := hmerged.took hr hok hf
      exact .inl (hholds r hr doc f htook hplace)
  · have hdirectory := (resolve_eq_ok_iff.mp (directory_eq_ok_iff.mp hd)).2.1
    have hmade : ∀ r ∈ results, (s.ready fs).withDirectories r.1 = s.ready fs := by
      intro r hr
      obtain ⟨a, ha⟩ := hall r hr
      rcases hmerged.outcome r hr with ⟨e, he, -⟩ | ⟨doc, f, -, htook⟩
      · rw [ha] at he
        cases he
      · exact withDirectories_of_mem_targets hfs hprepare hdirectory hname
          (fun hdefault hmem => hslash ⟨hdefault, hmem⟩) (hpaths ▸ List.mem_map_of_mem hr)
          htook.destination
    have htargets : ∀ t ∈ s.documents (s.ready fs), t ∈ results.map Prod.fst := fun t' ht' =>
      hpaths ▸ mem_targets_of_mem_documents ht'
    have hwready : (s.ready fs).node? w ≠ none := by
      rw [hgrows.node?_eq hw]
      simp
    obtain ⟨r, hr, doc, f, htook, hplace⟩ :=
      took_of_documents hmerged hrewrites hmade hwf hwready hall htargets ht hq hqw
    exact .inl (hholds r hr doc f htook hplace)

/-- If each listed document that does not lead to the file that was written last opens with the key,
then all of them do just if those that lead to that file do. -/
theorem holds_iff (hhere : after.node? w = some (.file bytes mode)) {ts : List Path}
    (h : ∀ t ∈ ts, ∃ q b m, after.resolve true t = .ok ⟨q, some (.file b m)⟩ ∧
      (q ≠ w → Document.Holds after t k v)) :
    (∀ t ∈ ts, Document.Holds after t k v) ↔
      ∀ t ∈ ts, ∀ n, after.resolve true t = .ok ⟨w, n⟩ →
        ∃ doc, Document.ofBytes t bytes = .ok doc ∧ doc.get? k.text = some v := by
  have hopen : ∀ {t b m}, after.resolve true t = .ok ⟨w, some (.file b m)⟩ →
      Document.open after t = Document.ofBytes t bytes := by
    intro t b m hfile
    have hnode := node?_of_resolve hfile (by simp)
    rw [hhere] at hnode
    cases hnode
    exact Document.open_eq hfile
  constructor
  · intro hall t ht n hn
    obtain ⟨q, b, m, hq, -⟩ := h t ht
    obtain ⟨doc, hdoc, hkey⟩ := hall t ht
    obtain ⟨rfl, rfl⟩ : q = w ∧ some (.file b m) = n := by
      rw [hn] at hq
      cases hq
      exact ⟨rfl, rfl⟩
    exact ⟨doc, (hopen hn).symm.trans hdoc, hkey⟩
  · intro hcond t ht
    obtain ⟨q, b, m, hq, hother⟩ := h t ht
    rcases eq_or_ne q w with rfl | hne
    · obtain ⟨doc, hdoc, hkey⟩ := hcond t ht _ hq
      exact ⟨doc, (hopen hq).trans hdoc, hkey⟩
    · exact hother hne

end Externalize.Store
