import Externalize.Proofs.Resource.Refilling

/-
Merges one after the other.

* `Store.mergedBytes_again`: of two merges of one key the last one counts.
* `Store.Settled`: all targets are files; `Store.Settled.merge` says what a merge does then, and
  that they are files of the same places after it.
* `Store.Merges`: merges of one store that are all reported on; `Store.Settled.merges` says what
  they do.
-/
namespace Externalize.Store

open FileSystem

variable {s : Store} {fs fs' out out' : FileSystem} {p t : Path} {q : Place} {k : Key} {v v' : Text}
  {b : ByteArray} {m : Nat} {ts : List Path} {place : Path → Place} {ms : List (Key × Text)}
  {d : Document} {vol : Volume}

/-! ### What is in the file of a document -/

/-- The document of a file after a merge into it. -/
lemma granted_mergedBytes (h : granted vol p q (Document.ofBytes p b) = .ok d) (hwhole : d.IsWhole)
    (k : Key) (v : Text) :
    granted vol p q (Document.ofBytes p (mergedBytes vol q k v p b)) = .ok (d.set k v) := by
  obtain ⟨hdoc, hfault⟩ := granted_eq_ok_iff.mp h
  obtain ⟨hpath, -⟩ := Document.ofBytes_eq_ok_iff.mp hdoc
  have hset := Document.ofBytes_set (Document.fits_of_ofBytes hdoc) k v
  rw [Document.reread_of_isWhole (Document.isWhole_set hwhole k v), hpath] at hset
  rw [granted_of_none hfault, mergedBytes_of_ok h, hset]

/-- Of two merges of one key the last one counts. -/
theorem mergedBytes_again (hwhole : ∀ d, Document.ofBytes p b = .ok d → d.IsWhole) (k : Key)
    (v v' : Text) :
    mergedBytes vol q k v' p (mergedBytes vol q k v p b) = mergedBytes vol q k v' p b := by
  cases h : granted vol p q (Document.ofBytes p b) with
  | error e => rw [mergedBytes_of_error h]
  | ok d =>
      have hd := hwhole d (granted_eq_ok_iff.mp h).1
      rw [mergedBytes_of_ok (granted_mergedBytes h hd k v), Document.set_set, mergedBytes_of_ok h]

/-- A document with whole numbers has whole numbers after a merge. -/
lemma isWhole_of_mergedBytes (hwhole : ∀ d, Document.ofBytes p b = .ok d → d.IsWhole)
    (h : Document.ofBytes p (mergedBytes vol q k v p b) = .ok d) : d.IsWhole := by
  cases hbefore : granted vol p q (Document.ofBytes p b) with
  | error e =>
      rw [mergedBytes_of_error hbefore] at h
      exact hwhole d h
  | ok before =>
      obtain ⟨hdoc, -⟩ := granted_eq_ok_iff.mp hbefore
      have hthen := granted_mergedBytes hbefore (hwhole before hdoc) k v
      cases h.symm.trans (granted_eq_ok_iff.mp hthen).1
      exact Document.isWhole_set (hwhole before hdoc) k v

/-- What is in the file of a document does not depend on its path. -/
lemma mergedBytes_congr (k : Key) (v : Text) (p p' : Path) (b : ByteArray) :
    mergedBytes vol q k v p b = mergedBytes vol q k v p' b := by
  have hgranted : ∀ {p p' : Path} {d : Document}, granted vol p q (Document.ofBytes p b) = .ok d →
      granted vol p' q (Document.ofBytes p' b) = .ok { d with path := p' } := by
    intro p p' d h
    obtain ⟨hdoc, hfault⟩ := granted_eq_ok_iff.mp h
    exact granted_eq_ok_iff.mpr
      ⟨Document.ofBytes_of_ofBytes hdoc p', Volume.writeError?_eq_none_congr hfault p'⟩
  cases h : granted vol p q (Document.ofBytes p b) with
  | ok d =>
      rw [mergedBytes_of_ok h, mergedBytes_of_ok (hgranted h)]
      rfl
  | error e =>
      cases h' : granted vol p' q (Document.ofBytes p' b) with
      | error e' => rw [mergedBytes_of_error h, mergedBytes_of_error h']
      | ok d => cases h.symm.trans (hgranted h')

/-- What is in the file of a document after merges one after the other. -/
def mergedAll (vol : Volume) (q : Place) (ms : List (Key × Text)) (p : Path) (b : ByteArray) :
    ByteArray :=
  ms.foldl (fun b m => mergedBytes vol q m.1 m.2 p b) b

lemma mergedAll_congr (ms : List (Key × Text)) (p p' : Path) (b : ByteArray) :
    mergedAll vol q ms p b = mergedAll vol q ms p' b := by
  simp only [mergedAll, mergedBytes_congr _ _ p p']

lemma mergedAll_of_error {e : DocumentError}
    (h : granted vol p q (Document.ofBytes p b) = .error e) : mergedAll vol q ms p b = b := by
  induction ms with
  | nil => rfl
  | cons m ms ih => rw [mergedAll, List.foldl_cons, mergedBytes_of_error h, ← mergedAll, ih]

/-- The document of a file after merges into it, one after the other. -/
theorem granted_mergedAll (h : granted vol p q (Document.ofBytes p b) = .ok d)
    (hwhole : d.IsWhole) :
    granted vol p q (Document.ofBytes p (mergedAll vol q ms p b)) = .ok (d.setAll ms) := by
  induction ms generalizing b d with
  | nil => exact h
  | cons m ms ih =>
      exact ih (granted_mergedBytes h hwhole m.1 m.2) (Document.isWhole_set hwhole m.1 m.2)

/-! ### One merge after another -/

/-- All targets of a merge are files, at places of their own, and their numbers are whole. -/
structure Settled (s : Store) (fs : FileSystem) (place : Path → Place) : Prop where
  prepared : s.Prepared fs
  nodup : (s.targets fs).1.Nodup
  files : HaveFiles fs (s.targets fs).1 place
  whole : ∀ t ∈ (s.targets fs).1, ∀ d, Document.open fs t = .ok d → d.IsWhole

/-- The files after a merge, and then another one of the same key. -/
lemma FilesMerged.again (h : FilesMerged fs out k v ts place)
    (h' : FilesMerged out out' k v' ts place) (hfiles : HaveFiles fs ts place)
    (hwhole : ∀ t ∈ ts, ∀ d, Document.open fs t = .ok d → d.IsWhole) :
    FilesMerged fs out' k v' ts place where
  current := h'.current.trans h.current
  volume := h'.volume.trans h.volume
  file t ht b m hb := by
    obtain ⟨b', m', hfile⟩ := hfiles.file t ht
    cases hfile.node?_eq.symm.trans hb
    rw [h'.file t ht _ m (h.file t ht b m hb), h.volume, mergedBytes_again]
    rw [← open_of_hasFile hfile]
    exact hwhole t ht
  other q hq := (h'.other q hq).trans (h.other q hq)

section

variable (h : FilesMerged fs out k v ts place) (hrefills : Refills fs out)
  (hfiles : HaveFiles fs ts place) (ht : t ∈ ts)
  (hwhole : ∀ d, Document.open fs t = .ok d → d.IsWhole)
include h hrefills hfiles ht hwhole

/-- After a merge a document has the key set, if it could be opened and written before. -/
lemma FilesMerged.writable_eq :
    writable out t (place t) = (writable fs t (place t)).map fun d => d.set k v := by
  obtain ⟨b, m, hfile⟩ := hfiles.file t ht
  have hkept := hfile.keep hrefills.keepsWays (h.file t ht b m hfile.node?_eq)
  rw [open_of_hasFile hfile] at hwhole
  rw [writable_of_hasFile hkept, writable_of_hasFile hfile, h.volume]
  cases hdoc : granted fs.volume t (place t) (Document.ofBytes t b) with
  | error e =>
      rw [mergedBytes_of_error hdoc, hdoc]
      rfl
  | ok d =>
      rw [granted_mergedBytes hdoc (hwhole d (granted_eq_ok_iff.mp hdoc).1)]
      rfl

/-- A document with whole numbers has whole numbers after a merge. -/
lemma FilesMerged.isWhole_of_open (hopen : Document.open out t = .ok d) : d.IsWhole := by
  obtain ⟨b, m, hfile⟩ := hfiles.file t ht
  have hkept := hfile.keep hrefills.keepsWays (h.file t ht b m hfile.node?_eq)
  rw [open_of_hasFile hfile] at hwhole
  rw [open_of_hasFile hkept] at hopen
  exact isWhole_of_mergedBytes hwhole hopen

end

namespace Settled

variable (h : s.Settled fs place)
include h

/-- What a merge does when all targets are files. -/
theorem merge (k : Key) (v : Text) :
    (s.merge fs k v).result = .ok (report (s.targets fs).2
      ((s.targets fs).1.map fun t => (t, outcome fs (place t) k v t))) ∧
    Refills fs (s.merge fs k v).files ∧
    FilesMerged fs (s.merge fs k v).files k v (s.targets fs).1 place ∧
    s.Settled (s.merge fs k v).files place := by
  obtain ⟨hfiles, hresult⟩ := h.prepared.merge k v
  obtain ⟨out, hall, hrefills, hmerged⟩ := mergeAll_files (k := k) (v := v) h.files h.nodup
  rw [hall] at hfiles hresult
  rw [hfiles]
  refine ⟨hresult, hrefills, hmerged, h.prepared.keep hrefills.keeps, ?_, ?_, fun t ht d hd => ?_⟩
  · rw [targets_of_refills hrefills]
    exact h.nodup
  · rw [targets_of_refills hrefills]
    exact h.files.refills hrefills
  · rw [targets_of_refills hrefills] at ht
    exact hmerged.isWhole_of_open hrefills h.files ht (h.whole t ht) hd

/-- Of two merges of one key the last one counts. -/
theorem merge_merge (k : Key) (v v' : Text) (q : Place) :
    (s.merge (s.merge fs k v).files k v').files.node? q = (s.merge fs k v').files.node? q := by
  obtain ⟨-, hrefills, hmerged, hsettled⟩ := h.merge k v
  obtain ⟨-, -, hmerged', -⟩ := hsettled.merge k v'
  obtain ⟨-, -, hdirect, -⟩ := h.merge k v'
  rw [targets_of_refills hrefills] at hmerged'
  exact (hmerged.again hmerged' h.files h.whole).node?_eq hdirect h.files q

/-- A merge that is made again finds every document unchanged. -/
theorem merge_again (k : Key) (v : Text) : ∃ report,
    (s.merge (s.merge fs k v).files k v).result = .ok report ∧
      ∀ w ∈ report.written, w.action = .unchanged := by
  obtain ⟨-, hrefills, hmerged, hsettled⟩ := h.merge k v
  obtain ⟨hresult, -⟩ := hsettled.merge k v
  refine ⟨_, hresult, fun w hw => ?_⟩
  obtain ⟨t, ht, heq⟩ := List.mem_map.mp (mem_written_report.mp hw)
  obtain ⟨rfl, haction⟩ := Prod.mk.inj heq
  rw [targets_of_refills hrefills] at ht
  obtain ⟨d, hd, haction⟩ := outcome_eq_ok_iff.mp haction
  rw [hmerged.writable_eq hrefills h.files ht (h.whole _ ht)] at hd
  cases hbefore : writable fs w.path (place w.path) with
  | error e =>
      rw [hbefore] at hd
      cases hd
  | ok before =>
      rw [hbefore] at hd
      cases hd
      rw [← haction, Document.action_set]

end Settled

/-! ### Merges one after the other -/

/-- Merges of one store, one after the other, that are all reported on. -/
inductive Merges (s : Store) :
    FileSystem → List (Key × Text) → List MergeReport → FileSystem → Prop
  | none (fs : FileSystem) : Merges s fs [] [] fs
  | next {fs out : FileSystem} {k : Key} {v : Text} {ms : List (Key × Text)}
      {report : MergeReport} {reports : List MergeReport}
      (hreport : (s.merge fs k v).result = .ok report)
      (hrest : Merges s (s.merge fs k v).files ms reports out) :
      Merges s fs ((k, v) :: ms) (report :: reports) out

/-- What merges do when all targets are files: the targets stay, each file gets what the merges make
of its document, and a document that cannot be opened or written fails each time. -/
theorem Settled.merges {reports : List MergeReport} (h : s.Settled fs place)
    (hrun : Merges s fs ms reports out) :
    s.Settled out place ∧ Refills fs out ∧
      (∀ t ∈ (s.targets fs).1, ∀ b m, fs.node? (place t) = some (.file b m) →
        out.node? (place t) = some (.file (mergedAll fs.volume (place t) ms t b) m)) ∧
      ∀ r ∈ reports, r.paths.Perm (s.targets fs).1 ∧ ∀ t ∈ (s.targets fs).1, ∀ e,
        writable fs t (place t) = .error e → ∃ w ∈ r.failed, w.path = t := by
  induction hrun with
  | none fs => exact ⟨h, .refl fs, fun _ _ _ _ hb => hb, fun _ hr => absurd hr List.not_mem_nil⟩
  | @next fs out k v ms report reports hreport _ ih =>
      obtain ⟨hresult, hrefills, hmerged, hsettled⟩ := h.merge k v
      obtain ⟨hout, hrefills', hfiles, hreports⟩ := ih hsettled
      rw [targets_of_refills hrefills] at hfiles hreports
      rw [hmerged.volume] at hfiles
      cases hresult.symm.trans hreport
      refine ⟨hout, hrefills.trans hrefills', fun t ht b m hb => ?_, fun r hr => ?_⟩
      · exact hfiles t ht _ m (hmerged.file t ht b m hb)
      · rcases List.mem_cons.mp hr with rfl | hr
        · refine ⟨paths_report_map _ _ _, fun t ht e he => ⟨⟨t, e⟩, mem_failed_report.mpr ?_, rfl⟩⟩
          exact List.mem_map.mpr ⟨t, ht, Prod.ext rfl (outcome_eq_error_iff.mpr he)⟩
        · refine ⟨(hreports r hr).1, fun t ht e he => (hreports r hr).2 t ht e ?_⟩
          rw [hmerged.writable_eq hrefills h.files ht (h.whole t ht), he]
          rfl

end Externalize.Store
