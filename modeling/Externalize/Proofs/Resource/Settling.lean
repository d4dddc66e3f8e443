import Externalize.Proofs.Files.Additions
import Externalize.Proofs.Resource.Relisting
import Externalize.Proofs.Resource.Repeating

/-
How the targets of a store come to be files.

* `Store.listed_of_adds`: a document that is listed only after files were added is one of these,
  unless it is an entry that led to nothing.
* `Store.PlainTargets`: the targets are no links, and their numbers are whole.
* `Store.Starts`: merges go as if all targets had been files from the beginning.
* `Store.Fails`: each merge fails to make the default document.
* `Store.starts_or_fails`: one or the other is so; a default document that is made is as one that
  was there with nothing in it.
-/
namespace Externalize.Store

open FileSystem

variable {s : Store} {fs fs' base made out : FileSystem} {p t : Path} {q : Place}
  {k : Key} {v : Text}
  {b : ByteArray} {m : Nat} {place : Path → Place} {places : List Place} {ms : List (Key × Text)}

/-! ### Documents that are listed later -/

/-- A document that is listed only after files were added is one of these, unless it is an entry
that led to nothing. -/
theorem listed_of_adds (hout : out.WellFormed) (hprepared : s.Prepared fs)
    (hnone : s.documents fs = []) (h : Adds places fs out)
    (hdangling : ∀ p ∈ s.entries fs, s.isDocument p = true → fs.status p = .error .notFound →
      ∀ q b m, out.resolve true p ≠ .ok ⟨q, some (.file b m)⟩)
    (hp : p ∈ s.documents out) :
    ∃ n d, p = s.directory.join ⟨n⟩ ∧ n :: d ∈ places ∧ Listed s out d n := by
  obtain ⟨hdocument, d, n, hd, hn, rfl, q, b, m, hq⟩ := mem_documents.mp hp
  obtain ⟨node, hnode⟩ := Option.ne_none_iff_exists'.mp hn
  have hlisted : Listed s out d n := ⟨hd, hout.isName hnode List.mem_cons_self, q, b, m, hq⟩
  by_contra hcon
  have hdfs := hprepared.directory_eq h.keeps hd
  have hbefore : fs.node? (n :: d) ≠ none := by
    rcases h.node? (n :: d) with hsame | ⟨-, hdir⟩ | ⟨hmem, -⟩
    · rwa [← hsame]
    · rcases hlisted.node?_entry with ⟨b', m', hfile⟩ | ⟨target, hlink, -⟩
      · cases hdir.symm.trans hfile
      · cases hdir.symm.trans hlink
    · exact absurd ⟨n, d, rfl, hmem, hlisted⟩ hcon
  have hmem : s.directory.join ⟨n⟩ ∈ s.entries fs := by
    rw [entries, hdfs]
    exact List.mem_map_of_mem (mem_children.mpr hbefore)
  have hmissing : fs.status (s.directory.join ⟨n⟩) ≠ .error .notFound := fun hstatus =>
    hdangling _ hmem hdocument hstatus q b m hq
  rw [status] at hmissing
  -- The entry is there before, and led somewhere: where it led to is where it still leads.
  rcases hresolve : fs.resolve true (s.directory.join ⟨n⟩) with
    e | ⟨q', _ | ⟨⟨b', m'⟩ | - | target⟩⟩ <;> rw [hresolve] at hmissing
  · cases (h.resolve_error (fun he => hmissing (by rw [he])) hresolve).symm.trans hq
  · exact hmissing rfl
  · have hlisted' : s.directory.join ⟨n⟩ ∈ s.documents fs :=
      mem_documents.mpr ⟨hdocument, d, n, hdfs, hbefore, rfl, q', b', m', hresolve⟩
    rw [hnone] at hlisted'
    cases hlisted'
  · have hdir := h.keeps.directory_eq (directory_eq_ok_iff.mpr hresolve)
    cases (directory_eq_ok_iff.mp hdir).symm.trans hq
  · exact absurd rfl ((resolve_eq_ok_iff.mp hresolve).2.2.node?_ne_link target)

lemma documents_of_targets (h : (s.targets fs).2 = true) : s.documents fs = [] := by
  rw [targets] at h
  split at h
  · assumption
  · cases h

/-! ### Targets that are files -/

/-- The targets are no links, and the numbers in them are whole. -/
structure PlainTargets (s : Store) (fs : FileSystem) : Prop where
  link : ∀ t ∈ (s.targets fs).1, ∀ f, fs.destination t = some f →
    ∀ target, f.node? ≠ some (.link target)
  whole : ∀ t ∈ (s.targets fs).1, ∀ doc, Document.open fs t = .ok doc → doc.IsWhole

instance (s : Store) (fs : FileSystem) : Decidable (s.PlainTargets fs) :=
  decidable_of_iff
    ((∀ t ∈ (s.targets fs).1, ∀ f, fs.destination t = some f →
        ∀ target, f.node? ≠ some (.link target)) ∧
      ∀ t ∈ (s.targets fs).1, ∀ doc, Document.open fs t = .ok doc → doc.IsWhole)
    ⟨fun h => ⟨h.1, h.2⟩, fun h => ⟨h.link, h.whole⟩⟩

/-- Merges go as they do from a beginning in which all targets are files. These are the same
targets, or the default document is new, and is listed under another path then, as its name has a
slash. -/
structure Starts (s : Store) (fs base : FileSystem) (place : Path → Place) : Prop where
  settled : s.Settled base place
  files : HaveFiles base (s.targets fs).1 place
  merge : ∀ k v, (s.merge fs k v).files = (s.merge base k v).files ∧
    (s.merge fs k v).result = .ok (report (s.targets fs).2
      ((s.targets fs).1.map fun t => (t, outcome base (place t) k v t)))
  opened : ∀ t ∈ (s.targets fs).1, Document.open base t = Document.open fs t
  read : ∀ t ∈ (s.targets fs).1, ∀ b, fs.read t = .ok b → base.read t = .ok b
  same : (s.targets base).1 = (s.targets fs).1 ∨
    (s.targets fs).2 = true ∧ '/' ∈ s.defaultName ∧
      (∃ d, writable base s.defaultDocument (place s.defaultDocument) = .ok d) ∧
      ∃ t, s.documents base = [t] ∧ place t = place s.defaultDocument

/-- Where all targets are files, nothing has to become one. -/
lemma starts_of_files (hfs : fs.WellFormed) (hprepared : s.Prepared fs)
    (hwhole : ∀ t ∈ (s.targets fs).1, ∀ d, Document.open fs t = .ok d → d.IsWhole)
    (h : ∀ t ∈ (s.targets fs).1, ∃ q b m, HasFile fs t q b m) : ∃ place, s.Starts fs fs place := by
  obtain ⟨place, hfiles⟩ := exists_place hfs h
  have hsettled : s.Settled fs place := ⟨hprepared, nodup_targets hfs, hfiles, hwhole⟩
  exact ⟨place, hsettled, hfiles, fun k v => ⟨rfl, (hsettled.merge k v).1⟩, fun _ _ => rfl,
    fun _ _ _ hread => hread, .inl rfl⟩

/-! ### A default document that cannot be made -/

/-- Nothing is listed, and each merge fails to make the default document, and leaves these files. -/
structure Fails (s : Store) (fs out : FileSystem) : Prop where
  prepared : s.Prepared fs
  documents : s.documents fs = []
  fails : ∀ k v, ∃ e, mergeDocument fs s.defaultDocument k v = (out, .error e)

lemma Fails.merge (h : s.Fails fs out) (k : Key) (v : Text) : (s.merge fs k v).files = out ∧
    ∃ e, (s.merge fs k v).result = .ok (report true [(s.defaultDocument, .error e)]) := by
  obtain ⟨e, he⟩ := h.fails k v
  obtain ⟨hfiles, hresult⟩ := h.prepared.merge k v
  rw [targets_of_documents h.documents] at hfiles hresult
  simp only [mergeAll, he] at hfiles hresult
  exact ⟨hfiles, e, hresult⟩

/-- A directory is no document. -/
lemma fails_of_directory (hprepared : s.Prepared fs) (hnone : s.documents fs = [])
    (h : fs.resolve true s.defaultDocument = .ok ⟨q, some .directory⟩) : s.Fails fs fs := by
  refine ⟨hprepared, hnone, fun k v => ?_⟩
  have hread : fs.readText s.defaultDocument = .error (.os .isDirectory) := by
    rw [readText, FileSystem.read, status, h]
  have hopen : Document.open fs s.defaultDocument =
      .error (.read s.defaultDocument (.os .isDirectory)) := by
    rw [Document.open, if_pos (has_iff.mpr ⟨_, _, h⟩), hread]
  exact ⟨_, by rw [mergeDocument, hopen]⟩

/-- A document that is not there and cannot be written. -/
lemma mergeDocument_missing_error {e : WriteError} (hhas : fs.has p = false)
    (h : fs.writeAtomically p ((⟨p, []⟩ : Document).set k v).render = (out, .error e)) :
    mergeDocument fs p k v = (out, .error (.write e)) := by
  have hsave : ((⟨p, []⟩ : Document).set k v).save fs = (out, .error e) := h
  simp only [mergeDocument, Document.open, hhas, Bool.false_eq_true, if_false, hsave]

/-- A document that cannot be written, or not even be opened. -/
lemma mergeDocument_fails (h : ∀ t, ∃ e, fs.writeAtomically p t = (fs, .error e)) :
    ∃ e, mergeDocument fs p k v = (fs, .error e) := by
  rw [mergeDocument]
  cases hopen : Document.open fs p with
  | error e => exact ⟨e, rfl⟩
  | ok d =>
      obtain ⟨e, he⟩ := h (d.set k v).render
      rw [← Document.path_of_open hopen] at he
      have hsave : (d.set k v).save fs = (fs, .error e) := he
      exact ⟨.write e, by simp only [hsave]⟩

/-- Where the default document is not there and cannot be written, each merge fails. -/
lemma fails_of_writes (hfs : fs.WellFormed) (hprepared : s.Prepared fs)
    (hnone : s.documents fs = []) (hhas : fs.has s.defaultDocument = false)
    (hdangling : ∀ p ∈ s.entries fs, s.isDocument p = true → fs.status p = .error .notFound →
      ∀ q b m, (s.merge fs k v).files.resolve true p ≠ .ok ⟨q, some (.file b m)⟩)
    (h : ∀ t, (∃ e, fs.writeAtomically s.defaultDocument t =
        (fs.withDirectories s.defaultDocument, .error e)) ∧
      ∃ e, (fs.withDirectories s.defaultDocument).writeAtomically s.defaultDocument t =
        (fs.withDirectories s.defaultDocument, .error e)) :
    s.Fails fs (fs.withDirectories s.defaultDocument) ∧
      s.Fails (fs.withDirectories s.defaultDocument) (fs.withDirectories s.defaultDocument) := by
  have hgrows := withDirectories_grows fs s.defaultDocument
  have hfails : s.Fails fs (fs.withDirectories s.defaultDocument) := by
    refine ⟨hprepared, hnone, fun k v => ?_⟩
    obtain ⟨⟨e, he⟩, -⟩ := h ((⟨s.defaultDocument, []⟩ : Document).set k v).render
    exact ⟨_, mergeDocument_missing_error hhas he⟩
  refine ⟨hfails, hprepared.keep hgrows.keeps, ?_, fun k v => mergeDocument_fails fun t => (h t).2⟩
  rw [(hfails.merge k v).1] at hdangling
  refine List.eq_nil_iff_forall_not_mem.mpr fun p hp => ?_
  obtain ⟨n, d, -, hmem, -⟩ := listed_of_adds (hfs.withDirectories _) hprepared hnone
    (hgrows.adds []) hdangling hp
  cases hmem

/-! ### A default document that is made -/

/-- An empty file holds a document without members. -/
lemma ofBytes_empty (p : Path) : Document.ofBytes p .empty = .ok ⟨p, []⟩ :=
  Document.ofBytes_eq_ok_iff.mpr ⟨rfl, [], textOf?_bytesOf [], rfl⟩

/-- An empty file that can be written holds such a document, too. -/
lemma writable_empty (hfile : HasFile fs p q .empty m) (hno : fs.volume.writeError? p q = none) :
    writable fs p q = .ok ⟨p, []⟩ := by
  rw [writable_of_hasFile hfile, granted_of_none hno, ofBytes_empty]

/-- A document that is not there and can be written comes to be as if it had been there with nothing
in it. -/
lemma mergeDocument_missing (hhas : fs.has p = false)
    (hfile : HasFile (made.insert q (.file .empty m)) p q .empty m)
    (hno : (made.insert q (.file .empty m)).volume.writeError? p q = none)
    (h : ∀ t, fs.writeAtomically p t = (made.insert q (.file (bytesOf t) m), .ok ())) :
    mergeDocument fs p k v = mergeDocument (made.insert q (.file .empty m)) p k v := by
  have hsave : ((⟨p, []⟩ : Document).set k v).save fs =
      (made.insert q (.file (bytesOf ((⟨p, []⟩ : Document).set k v).render) m), .ok ()) := h _
  have hgranted := writable_empty hfile hno
  rw [mergeDocument_file hfile, insert_insert, outcome, hgranted,
    mergedBytes_of_ok ((writable_of_hasFile hfile).symm.trans hgranted)]
  simp only [mergeDocument, Document.open, hhas, Bool.false_eq_true, if_false, hsave]
  rfl

lemma haveFiles_singleton (h : HasFile fs t q b m) : HaveFiles fs [t] fun _ => q where
  file _ ht := ⟨b, m, List.mem_singleton.mp ht ▸ h⟩
  apart _ ht _ ht' _ := (List.mem_singleton.mp ht).trans (List.mem_singleton.mp ht').symm

/-- The only target is a file. -/
structure SingleFile (s : Store) (fs : FileSystem) (t : Path) (q : Place)
    (b : ByteArray) (m : Nat) :
    Prop where
  targets : (s.targets fs).1 = [t]
  file : HasFile fs t q b m

lemma SingleFile.merge (h : s.SingleFile fs t q b m) (hprepared : s.Prepared fs)
    (k : Key) (v : Text) :
    (s.merge fs k v).files = fs.insert q (.file (mergedBytes fs.volume q k v t b) m) := by
  rw [(hprepared.merge k v).1, h.targets]
  simp only [mergeAll, mergeDocument_file h.file]

lemma SingleFile.settled (h : s.SingleFile fs t q b m) (hprepared : s.Prepared fs)
    (hwhole : ∀ d, Document.ofBytes t b = .ok d → d.IsWhole) : s.Settled fs fun _ => q where
  prepared := hprepared
  nodup := by
    rw [h.targets]
    exact List.nodup_singleton t
  files := by
    rw [h.targets]
    exact haveFiles_singleton h.file
  whole := by
    rw [h.targets]
    intro t' ht' d hd
    rw [List.mem_singleton.mp ht', open_of_hasFile h.file] at hd
    exact hwhole d hd

/-- Where the default document is the only file that was added, it is the only target, maybe under
another path. -/
lemma singleFile_of_adds (hout : out.WellFormed) (hprepared : s.Prepared fs)
    (hnone : s.documents fs = []) (h : Adds [q] fs out)
    (hdangling : ∀ p ∈ s.entries fs, s.isDocument p = true → fs.status p = .error .notFound →
      ∀ q b m, out.resolve true p ≠ .ok ⟨q, some (.file b m)⟩)
    (hfile : HasFile out s.defaultDocument q b m) : ∃ t, s.SingleFile out t q b m ∧
      (t = s.defaultDocument ∨ '/' ∈ s.defaultName ∧ s.documents out = [t]) := by
  have hlisted : ∀ p ∈ s.documents out,
      ∃ n d, p = s.directory.join ⟨n⟩ ∧ n :: d = q ∧ Listed s out d n := by
    intro p hp
    obtain ⟨n, d, hpath, hmem, hn⟩ := listed_of_adds hout hprepared hnone h hdangling hp
    exact ⟨n, d, hpath, List.mem_singleton.mp hmem, hn⟩
  have hnodup := nodup_targets (s := s) hout
  cases hfound : s.documents out with
  | nil =>
      refine ⟨s.defaultDocument, ⟨?_, hfile⟩, .inl rfl⟩
      rw [targets_of_documents hfound]
  | cons t ts =>
      -- Each listed path ends in the one place that was added, so there is only one.
      rw [hfound] at hlisted
      rw [targets, hfound] at hnodup
      obtain ⟨n, d, rfl, rfl, hn⟩ := hlisted t List.mem_cons_self
      obtain rfl : ts = [] := by
        refine List.eq_nil_iff_forall_not_mem.mpr fun t' ht' => ?_
        obtain ⟨n', d', rfl, heq, -⟩ := hlisted t' (List.mem_cons_of_mem _ ht')
        obtain rfl : n' = n := List.head_eq_of_cons_eq heq
        exact (List.nodup_cons.mp hnodup).1 ht'
      have hentry := hn.entry .busy
      rw [hfile.node?_eq] at hentry
      refine ⟨_, ⟨by rw [targets, hfound], hentry, hn.noSlash⟩, ?_⟩
      by_cases hslash : '/' ∈ s.defaultName
      · exact .inr ⟨hslash, rfl⟩
      · -- A name without a slash is its own entry of the directory, so the two paths are one.
        left
        have hne := (resolve_eq_ok_iff.mp (directory_eq_ok_iff.mp hn.directory)).2.1
        have hname : s.defaultName ≠ [] := by
          intro hnil
          refine hfile.noSlash ?_
          rw [defaultDocument, hnil]
          exact Path.getLast?_join_nil hne
        obtain ⟨d', -, heq⟩ := directory_of_lastPlace_join hname hslash hne hfile.entry
        have hplace : n :: d = s.defaultName :: d' := congrArg Found.place heq
        rw [defaultDocument, List.head_eq_of_cons_eq hplace]

/-- What a merge does where the default document is not there and can be written. -/
lemma merge_of_writes (hprepared : s.Prepared fs) (hnone : s.documents fs = [])
    (hhas : fs.has s.defaultDocument = false)
    (hfile : HasFile (made.insert q (.file .empty m)) s.defaultDocument q .empty m)
    (hno : (made.insert q (.file .empty m)).volume.writeError? s.defaultDocument q = none)
    (h : ∀ t, fs.writeAtomically s.defaultDocument t =
      (made.insert q (.file (bytesOf t) m), .ok ())) (k : Key) (v : Text) :
    (s.merge fs k v).files = (made.insert q (.file .empty m)).insert q
        (.file (mergedBytes (made.insert q (.file .empty m)).volume q k v s.defaultDocument
          .empty) m) ∧
      (s.merge fs k v).result = .ok (report true [(s.defaultDocument,
        outcome (made.insert q (.file .empty m)) q k v s.defaultDocument)]) := by
  obtain ⟨hfiles, hresult⟩ := hprepared.merge k v
  have hmissing := mergeDocument_missing (k := k) (v := v) hhas hfile hno h
  rw [mergeDocument_file hfile] at hmissing
  rw [targets_of_documents hnone] at hfiles hresult
  simp only [mergeAll, hmissing] at hfiles hresult
  exact ⟨hfiles, hresult⟩

/-- Where the default document is not there and can be written, merges go as if it had been there
with nothing in it. -/
lemma starts_of_writes (hfs : fs.WellFormed) (hprepared : s.Prepared fs)
    (hnone : s.documents fs = []) (hhas : fs.has s.defaultDocument = false) {f : Found}
    (hlast : (fs.withDirectories s.defaultDocument).lastPlace s.defaultDocument .busy = .ok f)
    (hslash : s.defaultDocument.text.getLast? ≠ some '/')
    (hnode : f.node? = none ∨ ∃ b m, f.node? = some (.file b m))
    (hdangling : ∀ p ∈ s.entries fs, s.isDocument p = true → fs.status p = .error .notFound →
      ∀ q b m, (s.merge fs k v).files.resolve true p ≠ .ok ⟨q, some (.file b m)⟩)
    (hno : fs.volume.writeError? s.defaultDocument f.place = none)
    (h : ∀ t, fs.writeAtomically s.defaultDocument t =
      ((fs.withDirectories s.defaultDocument).insert f.place (.file (bytesOf t) m), .ok ())) :
    ∃ base place, s.Starts fs base place := by
  have hfile := HasFile.of_insert hlast hslash hnode .empty m
  have hwf := (hfs.withDirectories s.defaultDocument).insert_file hlast hnode .empty m
  have hadds : Adds [f.place] fs _ := (withDirectories_grows fs s.defaultDocument).adds_insert
    hfile.ne_nil (by rwa [← node?_of_lastPlace hlast]) .empty m
  rw [← hadds.volume] at hno
  have hmerge := merge_of_writes hprepared hnone hhas hfile hno h
  generalize (fs.withDirectories s.defaultDocument).insert f.place (.file .empty m) = base at *
  -- The premise is about the files after a merge, which differ from these in one file's bytes.
  have hlater : ∀ p ∈ s.entries fs, s.isDocument p = true → fs.status p = .error .notFound →
      ∀ q b m, base.resolve true p ≠ .ok ⟨q, some (.file b m)⟩ := by
    intro p hp hdocument hstatus q b m' hq
    have hrefills := Refills.of_insert hfile.ne_nil hfile.node?_eq
      (mergedBytes base.volume f.place k v s.defaultDocument .empty)
    obtain ⟨q', b', m'', hq', -⟩ := hrefills.keeps.resolve_file hq
    rw [← (hmerge k v).1] at hq'
    exact hdangling p hp hdocument hstatus _ _ _ hq'
  obtain ⟨t, hsingle, hsame⟩ := singleFile_of_adds hwf hprepared hnone hadds hlater hfile
  have hbase := hprepared.keep hadds.keeps
  have htargets := targets_of_documents hnone
  have hopen : Document.open fs s.defaultDocument = .ok ⟨s.defaultDocument, []⟩ := by
    rw [Document.open, if_neg (by simp [hhas])]
  refine ⟨base, fun _ => f.place, hsingle.settled hbase fun doc hdoc => ?_, ?_, fun k v => ?_,
    ?_, ?_, ?_⟩
  · cases (ofBytes_empty t).symm.trans hdoc
    rfl
  · rw [htargets]
    exact haveFiles_singleton hfile
  · rw [htargets, (hmerge k v).1, hsingle.merge hbase, mergedBytes_congr k v _ t]
    exact ⟨rfl, (hmerge k v).2⟩
  · rw [htargets]
    intro t' ht'
    rw [List.mem_singleton.mp ht', open_of_hasFile hfile, ofBytes_empty, hopen]
  · rw [htargets]
    intro t' ht' b' hread
    obtain ⟨q', m', hq'⟩ := exists_of_read hread
    rw [List.mem_singleton.mp ht'] at hq'
    cases hhas.symm.trans (has_iff.mpr ⟨_, _, hq'⟩)
  · rcases hsame with rfl | ⟨hname, hdocuments⟩
    · left
      rw [htargets, hsingle.targets]
    · exact .inr ⟨by rw [htargets], hname, ⟨_, writable_empty hfile hno⟩, t, hdocuments, rfl⟩

/-- Merges go as if all targets had been files from the beginning, or the default document cannot be
made. -/
theorem starts_or_fails (hfs : fs.WellFormed) (hprepared : s.Prepared fs)
    (hplain : s.PlainTargets fs)
    (hdangling : (s.targets fs).2 = true → ∀ p ∈ s.entries fs, s.isDocument p = true →
      fs.status p = .error .notFound →
        ∀ q b m, (s.merge fs k v).files.resolve true p ≠ .ok ⟨q, some (.file b m)⟩) :
    (∃ base place, s.Starts fs base place) ∨
      ∃ base, fs.Grows base ∧ s.Fails fs base ∧ s.Fails base base := by
  have hfiles : ∀ {t}, t ∈ (s.targets fs).1 →
      (∃ q b m, fs.resolve true t = .ok ⟨q, some (.file b m)⟩) → ∃ q b m, HasFile fs t q b m := by
    rintro t ht ⟨q, b, m, hq⟩
    exact ⟨q, b, m, .of_leads hq fun f target hf => hplain.link t ht f hf target⟩
  cases hfound : s.documents fs with
  | cons t ts =>
      obtain ⟨place, hstarts⟩ := starts_of_files hfs hprepared hplain.whole fun t' ht' => by
        refine hfiles ht' ?_
        rw [targets, hfound] at ht'
        simp only [← hfound] at ht'
        obtain ⟨-, -, -, -, -, -, hleads⟩ := mem_documents.mp ht'
        exact hleads
      exact .inl ⟨fs, place, hstarts⟩
  | nil =>
      have htargets := targets_of_documents hfound
      have hmem : s.defaultDocument ∈ (s.targets fs).1 := by
        rw [htargets]
        exact List.mem_singleton_self _
      have hdangling' := hdangling (by rw [htargets])
      by_cases hhas : fs.has s.defaultDocument = true
      · obtain ⟨q, n, hq⟩ := has_iff.mp hhas
        cases n with
        | file b m =>
            obtain ⟨place, hstarts⟩ := starts_of_files hfs hprepared hplain.whole fun t' ht' => by
              refine hfiles ht' ?_
              rw [htargets] at ht'
              rw [List.mem_singleton.mp ht']
              exact ⟨q, b, m, hq⟩
            exact .inl ⟨fs, place, hstarts⟩
        | directory =>
            have hfails := fails_of_directory hprepared hfound hq
            exact .inr ⟨fs, .refl fs, hfails, hfails⟩
        | link target => exact absurd rfl ((resolve_eq_ok_iff.mp hq).2.2.node?_ne_link target)
      · rw [Bool.not_eq_true] at hhas
        rcases writeAtomically_uniform fs s.defaultDocument with
          ⟨f, hlast, hslash, hdir, hno, hwrites⟩ |
          hwrites
        · refine .inl
            (starts_of_writes hfs hprepared hfound hhas hlast hslash ?_ hdangling' hno hwrites)
          have hnolink := hplain.link _ hmem f (destination_eq_some_iff.mpr hlast)
          rcases hnode : f.node? with _ | ⟨⟨b, m⟩ | - | target⟩
          · exact .inl rfl
          · exact .inr ⟨b, m, rfl⟩
          · exact absurd hnode hdir
          · exact absurd hnode (hnolink target)
        · exact .inr ⟨_, withDirectories_grows _ _,
            fails_of_writes hfs hprepared hfound hhas hdangling' hwrites⟩

end Externalize.Store
