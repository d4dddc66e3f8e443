import Externalize.Proofs.Files.Refilling
import Externalize.Proofs.Resource.Reports

/-
Merging into documents that are files.

* `Store.granted`, `Store.writable`: a document that can be opened, and written at its place.
* `Store.mergedBytes`, `Store.outcome`: what is in the file of a document after a merge, and what
  the merge tells of it; `Store.mergeDocument_file` says that they are.
* `Store.FilesMerged`: the files after documents were merged; `Store.FilesMerged.node?_eq` says that
  there is one way only in which they can be.
* `Store.mergeAll_files`: documents that are files, merged one after the other.
* `Store.targets_of_refills`: the targets are the same whatever is in the files.
* `Store.exists_place`: the targets of a merge are at places of their own.
-/
namespace Externalize.Store

open FileSystem

variable {s : Store} {fs fs' out out' : FileSystem} {p t : Path} {q : Place} {k : Key} {v : Text}
  {b : ByteArray} {m : Nat} {ts : List Path} {place : Path → Place} {vol : Volume}

/-! ### One document -/

/-- What is opened at a path, if it can be written at its place as well. -/
def granted (vol : Volume) (p : Path) (q : Place) (opened : Except DocumentError Document) :
    Except DocumentError Document :=
  match opened with
  | .error e => .error e
  | .ok d =>
    match vol.writeError? p q with
    | some e => .error (.write e)
    | none => .ok d

lemma granted_of_none (h : vol.writeError? p q = none)
    (opened : Except DocumentError Document) : granted vol p q opened = opened := by
  cases opened with
  | error e => rfl
  | ok d => rw [granted, h]

lemma granted_of_some {e : WriteError} (h : vol.writeError? p q = some e) (d : Document) :
    granted vol p q (.ok d) = .error (.write e) := by
  rw [granted, h]

lemma granted_eq_ok_iff {opened : Except DocumentError Document} {d : Document} :
    granted vol p q opened = .ok d ↔ opened = .ok d ∧ vol.writeError? p q = none := by
  cases hfault : vol.writeError? p q with
  | none => simp [granted_of_none hfault]
  | some e => cases opened <;> simp [granted, hfault]

/-- What is in the file of a document after a merge: the document with the key set, or what was in
it if it holds no document or cannot be written. -/
def mergedBytes (vol : Volume) (q : Place) (k : Key) (v : Text) (p : Path) (b : ByteArray) :
    ByteArray :=
  match granted vol p q (Document.ofBytes p b) with
  | .error _ => b
  | .ok d => bytesOf (d.set k v).render

lemma mergedBytes_of_ok {d : Document} (h : granted vol p q (Document.ofBytes p b) = .ok d) :
    mergedBytes vol q k v p b = bytesOf (d.set k v).render := by
  rw [mergedBytes, h]

lemma mergedBytes_of_error {e : DocumentError}
    (h : granted vol p q (Document.ofBytes p b) = .error e) : mergedBytes vol q k v p b = b := by
  rw [mergedBytes, h]

/-- The document of a path, if it can be opened, and written at a place. -/
def writable (fs : FileSystem) (p : Path) (q : Place) : Except DocumentError Document :=
  granted fs.volume p q (Document.open fs p)

/-- What becomes of a document whose file is at a place. -/
def outcome (fs : FileSystem) (q : Place) (k : Key) (v : Text) (p : Path) :
    Except DocumentError KeyAction :=
  (writable fs p q).map fun d => d.action k v

lemma outcome_eq_ok_iff {a : KeyAction} : outcome fs q k v p = .ok a ↔
    ∃ d, writable fs p q = .ok d ∧ d.action k v = a := by
  rw [outcome]
  cases writable fs p q <;> simp [Except.map]

lemma outcome_eq_error_iff {e : DocumentError} :
    outcome fs q k v p = .error e ↔ writable fs p q = .error e := by
  rw [outcome]
  cases writable fs p q <;> simp [Except.map]

lemma open_of_hasFile (h : HasFile fs p q b m) : Document.open fs p = Document.ofBytes p b :=
  Document.open_eq h.resolve_eq

lemma writable_of_hasFile (h : HasFile fs p q b m) :
    writable fs p q = granted fs.volume p q (Document.ofBytes p b) := by
  rw [writable, open_of_hasFile h]

/-- A document that is a file gets its new content, and nothing else changes. -/
theorem mergeDocument_file (h : HasFile fs p q b m) : mergeDocument fs p k v =
    (fs.insert q (.file (mergedBytes fs.volume q k v p b) m), outcome fs q k v p) := by
  have hopen := open_of_hasFile h
  have hself := insert_self h.ne_nil h.node?_eq
  rw [mergeDocument, outcome, writable_of_hasFile h, hopen]
  cases hdoc : Document.ofBytes p b with
  | error e => rw [mergedBytes_of_error (congrArg (granted _ _ _) hdoc), hself]; rfl
  | ok d =>
      have hpath : (d.set k v).path = p := by
        rw [← Document.path_of_open (hopen.trans hdoc)]
        rfl
      have hsave := h.writeAtomically_eq (d.set k v).render
      cases hfault : fs.volume.writeError? p q with
      | some e =>
          have hrefused := granted_of_some hfault d
          rw [hfault] at hsave
          rw [mergedBytes_of_error ((congrArg (granted _ _ _) hdoc).trans hrefused), hself,
            hrefused]
          simp only [Document.save, hpath, hsave]
          rfl
      | none =>
          have hgranted := granted_of_none hfault (.ok d)
          rw [hfault] at hsave
          rw [mergedBytes_of_ok ((congrArg (granted _ _ _) hdoc).trans hgranted), hgranted]
          simp only [Document.save, hpath, hsave]
          rfl

/-! ### Documents at places of their own -/

/-- Paths whose entries are files, at places of their own. -/
structure HaveFiles (fs : FileSystem) (ts : List Path) (place : Path → Place) : Prop where
  file : ∀ t ∈ ts, ∃ b m, HasFile fs t (place t) b m
  apart : ∀ t ∈ ts, ∀ t' ∈ ts, place t = place t' → t = t'

/-- Nothing but a file is at the place of a path. -/
lemma HaveFiles.place_ne (h : HaveFiles fs ts place) (ht : t ∈ ts) (hq : fs.node? q = none) :
    place t ≠ q := by
  rintro rfl
  obtain ⟨b, m, hfile⟩ := h.file t ht
  cases hfile.node?_eq.symm.trans hq

/-- The files after documents were merged. -/
structure FilesMerged (fs out : FileSystem) (k : Key) (v : Text) (ts : List Path)
    (place : Path → Place) : Prop where
  current : out.current = fs.current
  volume : out.volume = fs.volume
  file : ∀ t ∈ ts, ∀ b m, fs.node? (place t) = some (.file b m) →
    out.node? (place t) = some (.file (mergedBytes fs.volume (place t) k v t b) m)
  other : ∀ q, (∀ t ∈ ts, place t ≠ q) → out.node? q = fs.node? q

/-- The files can be in one way only then. -/
theorem FilesMerged.node?_eq (h : FilesMerged fs out k v ts place)
    (h' : FilesMerged fs out' k v ts place) (hfiles : HaveFiles fs ts place) (q : Place) :
    out.node? q = out'.node? q := by
  by_cases hq : ∃ t ∈ ts, place t = q
  · obtain ⟨t, ht, rfl⟩ := hq
    obtain ⟨b, m, hfile⟩ := hfiles.file t ht
    rw [h.file t ht b m hfile.node?_eq, h'.file t ht b m hfile.node?_eq]
  · push Not at hq
    rw [h.other q hq, h'.other q hq]

/-- Paths have their files still when contents of files have changed. -/
lemma HaveFiles.refills (h : HaveFiles fs ts place) (hrefills : Refills fs fs') :
    HaveFiles fs' ts place where
  file t ht := by
    obtain ⟨b, m, hfile⟩ := h.file t ht
    rcases hrefills.node? (place t) with hsame | ⟨b₁, b₂, m', hb, hb'⟩
    · exact ⟨b, m, hfile.keep hrefills.keepsWays (hsame.trans hfile.node?_eq)⟩
    · exact ⟨b₂, m', hfile.keep hrefills.keepsWays hb'⟩
  apart := h.apart

/-- What becomes of a document stays while its own file does. -/
lemma outcome_of_refills (h : HasFile fs p q b m) (hrefills : Refills fs fs')
    (hsame : fs'.node? q = fs.node? q) : outcome fs' q k v p = outcome fs q k v p := by
  have hkept := h.keep hrefills.keepsWays (hsame.trans h.node?_eq)
  rw [outcome, outcome, writable_of_hasFile h, writable_of_hasFile hkept, hrefills.volume]

/-- A document is merged into, and then the others are. -/
lemma FilesMerged.cons (hfile : HasFile fs t (place t) b m)
    (hother : ∀ t' ∈ ts, place t' ≠ place t)
    (h : FilesMerged (fs.insert (place t) (.file (mergedBytes fs.volume (place t) k v t b) m)) out
      k v ts place) : FilesMerged fs out k v (t :: ts) place where
  current := h.current
  volume := h.volume
  file t' ht' b' m' hb := by
    rcases List.mem_cons.mp ht' with rfl | ht'
    · rw [hfile.node?_eq] at hb
      cases hb
      rw [h.other _ hother, node?_insert _ hfile.ne_nil, if_pos rfl]
    · refine h.file t' ht' b' m' ?_
      rw [node?_insert _ hfile.ne_nil, if_neg (hother t' ht'), hb]
  other q hq := by
    rw [h.other q fun t' ht' => hq t' (List.mem_cons_of_mem t ht'),
      node?_insert _ hfile.ne_nil, if_neg (hq t List.mem_cons_self).symm]

/-- Documents that are files get their new contents, one after the other. -/
theorem mergeAll_files (hfiles : HaveFiles fs ts place) (hnodup : ts.Nodup) : ∃ out,
    mergeAll k v fs ts = (out, ts.map fun t => (t, outcome fs (place t) k v t)) ∧ Refills fs out ∧
      FilesMerged fs out k v ts place := by
  induction ts generalizing fs with
  | nil =>
      exact ⟨fs, rfl, .refl fs, ⟨rfl, rfl, fun _ ht => absurd ht List.not_mem_nil, fun _ _ => rfl⟩⟩
  | cons t ts ih =>
      obtain ⟨ht, hnodup⟩ := List.nodup_cons.mp hnodup
      obtain ⟨b, m, hfile⟩ := hfiles.file t List.mem_cons_self
      have hrefills := Refills.of_insert hfile.ne_nil hfile.node?_eq
        (mergedBytes fs.volume (place t) k v t b)
      have hother : ∀ t' ∈ ts, place t' ≠ place t := by
        intro t' ht' heq
        exact ht (hfiles.apart t' (List.mem_cons_of_mem t ht') t List.mem_cons_self heq ▸ ht')
      obtain ⟨out, hmerge, hrefills', hmerged⟩ := ih ⟨fun t' ht' =>
        (hfiles.refills hrefills).file t' (List.mem_cons_of_mem t ht'), fun t₁ h₁ t₂ h₂ =>
        hfiles.apart t₁ (List.mem_cons_of_mem t h₁) t₂ (List.mem_cons_of_mem t h₂)⟩ hnodup
      refine ⟨out, ?_, hrefills.trans hrefills', hmerged.cons hfile hother⟩
      -- the others have the outcome that they would have had before
      simp only [mergeAll, mergeDocument_file hfile, hmerge, List.map_cons]
      rw [List.map_congr_left fun t' ht' => ?_]
      obtain ⟨b', m', hfile'⟩ := hfiles.file t' (List.mem_cons_of_mem t ht')
      rw [outcome_of_refills hfile' hrefills]
      rw [node?_insert _ hfile.ne_nil, if_neg (hother t' ht')]

/-! ### Targets -/

/-- The documents are the same whatever is in the files. -/
lemma documents_of_refills (h : Refills fs fs') : s.documents fs' = s.documents fs := by
  have hresolve : ∀ {fs fs' : FileSystem} (_ : Refills fs fs') {p : Path},
      (∃ q b m, fs.resolve true p = .ok ⟨q, some (.file b m)⟩) →
        ∃ q b m, fs'.resolve true p = .ok ⟨q, some (.file b m)⟩ := by
    rintro fs fs' h p ⟨q, b, m, hq⟩
    obtain ⟨q', b', m', hq', -⟩ := h.keeps.resolve_file hq
    exact ⟨q', b', m', hq'⟩
  have hentry : ∀ p, s.entry fs' p = .ok true ↔ s.entry fs p = .ok true := by
    intro p
    rw [entry_eq_true_iff, entry_eq_true_iff]
    exact and_congr_right' ⟨hresolve h.symm, hresolve h⟩
  have hentries : s.entries fs' = s.entries fs := by
    rw [entries, entries]
    cases hd : fs.directory s.directory with
    | error e =>
        cases hd' : fs'.directory s.directory with
        | error e' => rfl
        | ok d => cases hd.symm.trans (h.directory_iff.mp hd')
    | ok d =>
        rw [h.directory_iff.mpr hd]
        simp only [h.children_eq]
  rw [documents, documents, hentries]
  refine List.filter_congr fun p _ => ?_
  rw [Bool.eq_iff_iff]
  have hiff := hentry p
  clear hentry
  cases hthen : s.entry fs' p <;> cases hnow : s.entry fs p <;> simp_all

theorem targets_of_refills (h : Refills fs fs') : s.targets fs' = s.targets fs := by
  rw [targets, targets, documents_of_refills h]

/-- Targets that are files are at places of their own. -/
theorem exists_place (hfs : fs.WellFormed)
    (h : ∀ t ∈ (s.targets fs).1, ∃ q b m, HasFile fs t q b m) :
    ∃ place, HaveFiles fs (s.targets fs).1 place := by
  choose! place b m hfile using h
  refine ⟨place, fun t ht => ⟨b t, m t, hfile t ht⟩, fun t ht t' ht' heq => ?_⟩
  rcases s.targets_cases hfs with htargets | ⟨d, ns, htargets, -, hlisted⟩
  · rw [htargets] at ht ht'
    rw [List.mem_singleton.mp ht, List.mem_singleton.mp ht']
  · have hplace : ∀ t ∈ (s.targets fs).1, ∃ n, t = s.directory.join ⟨n⟩ ∧ place t = n :: d := by
      intro t ht
      have hentry := (hfile t ht).entry
      rw [htargets] at ht
      obtain ⟨n, hn, rfl⟩ := List.mem_map.mp ht
      rw [(hlisted n hn).entry] at hentry
      exact ⟨n, rfl, congrArg Found.place (Except.ok.inj hentry).symm⟩
    obtain ⟨n, rfl, hn⟩ := hplace t ht
    obtain ⟨n', rfl, hn'⟩ := hplace t' ht'
    rw [hn, hn'] at heq
    rw [List.head_eq_of_cons_eq heq]

end Externalize.Store
