import Externalize.Proofs.Files.Replacing
import Externalize.Proofs.Resource.Settling

/-
A default document that is made, and is the only document from then on.

* `Store.Founded`: the default document is the only document, and it can be opened and written;
  `Store.Founded.merge`, `Store.Founded.merges` say that merges keep this, and what they report.
* `Store.Aliases`: an entry that could not be read leads to a document after a merge.
* `Store.Makes`: the default document is put into the directory; `Store.Makes.documents_eq` says
  that no other document is listed then, unless an entry came to lead to one.
* `Store.founded_of_merge`: a merge without failures into a directory without documents founds the
  store.
-/
namespace Externalize.Store

open FileSystem

variable {s : Store} {fs ready out : FileSystem} {p : Path} {d : Place} {k : Key} {v : Text}
  {b : ByteArray} {m : Nat} {ms : List (Key × Text)} {report : MergeReport}
  {reports : List MergeReport}

/-! ### Stores with a default document -/

/-- The default document is the only document, and it can be opened and written. -/
structure Founded (s : Store) (fs : FileSystem) : Prop where
  documents : s.documents fs = [s.defaultDocument]
  settled : ∃ place, s.Settled fs place ∧
    ∃ doc, writable fs s.defaultDocument (place s.defaultDocument) = .ok doc

namespace Founded

variable (h : s.Founded fs)
include h

lemma targets : s.targets fs = ([s.defaultDocument], false) := by
  rw [Store.targets, h.documents]

/-- A merge puts the key into the default document, and nowhere else, and does not make it. -/
theorem merge (k : Key) (v : Text) :
    (∃ a, (s.merge fs k v).result = .ok ⟨false, [⟨s.defaultDocument, a⟩], []⟩) ∧
      s.Founded (s.merge fs k v).files := by
  obtain ⟨place, hsettled, doc, hdoc⟩ := h.settled
  obtain ⟨hresult, hrefills, hmerged, hthen⟩ := hsettled.merge k v
  have hwhole := hsettled.whole
  have hfiles := hsettled.files
  rw [h.targets] at hresult hmerged hwhole hfiles
  have hmem : s.defaultDocument ∈ [s.defaultDocument] := List.mem_singleton_self _
  refine ⟨⟨doc.action k v, ?_⟩, (documents_of_refills hrefills).trans h.documents, place, hthen,
    doc.set k v, ?_⟩
  · rw [hresult, List.map_singleton, outcome, hdoc]
    rfl
  · rw [hmerged.writable_eq hrefills hfiles hmem (hwhole _ hmem), hdoc]
    rfl

/-- Merges one after the other put their keys into the default document. -/
theorem merges (hrun : Merges s fs ms reports out) : s.Founded out ∧
    ∀ r ∈ reports, ∃ a, r = ⟨false, [⟨s.defaultDocument, a⟩], []⟩ := by
  induction hrun with
  | none fs => exact ⟨h, fun _ hr => absurd hr List.not_mem_nil⟩
  | @next fs out k v ms report reports hreport _ ih =>
      obtain ⟨⟨a, ha⟩, hthen⟩ := h.merge k v
      obtain ⟨hout, hreports⟩ := ih hthen
      cases ha.symm.trans hreport
      exact ⟨hout, List.forall_mem_cons.mpr ⟨⟨a, rfl⟩, hreports⟩⟩

end Founded

/-! ### The default document is made -/

/-- An entry that is named as a document and could not be read leads to a file after a merge. -/
def Aliases (s : Store) (fs : FileSystem) (k : Key) (v : Text) : Prop :=
  ∃ p ∈ s.entries (s.ready fs), p ≠ s.defaultDocument ∧ s.isDocument p = true ∧
    (s.ready fs).has p = false ∧
      ∃ q b m, (s.merge fs k v).files.resolve true p = .ok ⟨q, some (.file b m)⟩

instance (s : Store) (fs : FileSystem) (k : Key) (v : Text) : Decidable (s.Aliases fs k v) := by
  unfold Aliases
  infer_instance

/-- A document that takes a key is put in the place of the entry of its path, and all other entries
are kept. -/
lemma mergeDocument_eq_ok {a : KeyAction} (h : mergeDocument fs p k v = (out, .ok a)) :
    ∃ doc f, Document.open fs p = .ok doc ∧
      Puts fs p (bytesOf (doc.set k v).render) f out ∧ fs.volume.writeError? p f.place = none ∧
      out = (fs.withDirectories p).insert f.place
        (.file (bytesOf (doc.set k v).render) ((fs.withDirectories p).modeFor p)) := by
  rw [mergeDocument] at h
  split at h
  · cases h
  · next doc hdoc =>
      split at h
      · cases h
      · next hsave =>
          cases h
          rw [Document.save, Document.set, Document.path_of_open hdoc] at hsave
          obtain ⟨f, hlast, -, -, hno, hout⟩ := writeAtomically_eq_ok hsave
          obtain ⟨g, hputs⟩ := writeAtomically_ok hsave
          obtain rfl : g = f := Except.ok.inj (hputs.entry.symm.trans hlast)
          exact ⟨doc, g, hdoc, hputs, hno, hout⟩

/-- A merge without failures into a directory without documents puts the default document there. -/
lemma exists_puts_of_merge (hnone : s.documents (s.ready fs) = [])
    (hreport : (s.merge fs k v).result = .ok report) (hfailed : report.failed = []) :
    ∃ doc f, Document.open (s.ready fs) s.defaultDocument = .ok doc ∧
      Puts (s.ready fs) s.defaultDocument (bytesOf (doc.set k v).render) f (s.merge fs k v).files ∧
      (s.ready fs).volume.writeError? s.defaultDocument f.place = none ∧
      (s.merge fs k v).files = ((s.ready fs).withDirectories s.defaultDocument).insert f.place
        (.file (bytesOf (doc.set k v).render)
          (((s.ready fs).withDirectories s.defaultDocument).modeFor s.defaultDocument)) := by
  obtain ⟨results, hall, rfl⟩ := merge_eq hreport
  rw [targets_of_documents hnone] at hall hfailed
  rcases hmerge : mergeDocument (s.ready fs) s.defaultDocument k v with ⟨out, e | a⟩
  · simp only [mergeAll, hmerge] at hall
    cases hall
    cases hfailed
  · simp only [mergeAll, hmerge] at hall
    cases hall
    exact mergeDocument_eq_ok hmerge

/-- A listing without other documents has the default one only. -/
lemma documents_eq_singleton (hout : out.WellFormed) (hmem : p ∈ s.documents out)
    (hall : ∀ t ∈ s.documents out, t = p) : s.documents out = [p] := by
  have hnodup := nodup_targets (s := s) hout
  rw [targets_of_ne_nil (List.ne_nil_of_mem hmem)] at hnodup
  refine List.perm_singleton.mp ((List.perm_ext_iff_of_nodup hnodup (List.nodup_singleton p)).mpr
    fun t => ?_)
  rw [List.mem_singleton]
  exact ⟨hall t, fun ht => ht ▸ hmem⟩

/-- The default document led to nothing and can be written, and is put into the directory, whose
path does not pass it. -/
structure Makes (s : Store) (ready : FileSystem) (d : Place) (b : ByteArray) (m : Nat)
    (out : FileSystem) : Prop where
  name : IsName s.defaultName
  directory : ready.directory s.directory = .ok d
  way : (ready.erase (s.defaultName :: d)).directory s.directory = .ok d
  missing : ready.has s.defaultDocument = false
  noDirectory : ready.node? (s.defaultName :: d) ≠ some .directory
  noFault : ready.volume.writeError? s.defaultDocument (s.defaultName :: d) = none
  files : out = ready.insert (s.defaultName :: d) (.file b m)

namespace Makes

variable (h : s.Makes ready d b m out)
include h

lemma node?_eq (q : Place) :
    out.node? q = if q = s.defaultName :: d then some (.file b m) else ready.node? q := by
  rw [h.files, node?_insert _ (List.cons_ne_nil _ _)]

lemma node?_of_ne {q : Place} (hq : q ≠ s.defaultName :: d) : out.node? q = ready.node? q := by
  rw [h.node?_eq, if_neg hq]

lemma current : out.current = ready.current := by
  rw [h.files]
  rfl

/-- The directory is where it was. -/
lemma directory_eq : out.directory s.directory = .ok d :=
  (keepsWays_of_replaced (List.cons_ne_nil _ _) h.current fun _ => h.node?_of_ne).directory_eq h.way

/-- The path of the default document has the file as its entry. -/
lemma hasFile : HasFile out s.defaultDocument (s.defaultName :: d) b m := by
  obtain ⟨hne, hslash, hnul, hentry⟩ := h.name
  have hlast := lastPlace_join hentry hne hslash hnul h.directory_eq .busy
  rw [h.node?_eq, if_pos rfl] at hlast
  exact ⟨hlast, Path.getLast?_join hne hslash⟩

lemma wellFormed (hready : ready.WellFormed) : out.WellFormed := by
  have hd : ready.node? d = some .directory :=
    hready.node?_of_walk (resolve_eq_ok_iff.mp (directory_eq_ok_iff.mp h.directory)).2.2
      (hready.node?_start _)
  rw [h.files]
  exact hready.insert h.name hd h.noDirectory _

/-- No other document is listed then, unless an entry came to lead to one. -/
theorem documents_eq (hready : ready.WellFormed) (hdocument : s.isDocument s.defaultDocument = true)
    (hnone : s.documents ready = [])
    (halias : ∀ p ∈ s.entries ready, p ≠ s.defaultDocument → s.isDocument p = true →
      ready.has p = false → ∀ q b m, out.resolve true p ≠ .ok ⟨q, some (.file b m)⟩) :
    s.documents out = [s.defaultDocument] := by
  refine documents_eq_singleton (h.wellFormed hready)
    (mem_documents.mpr ⟨hdocument, d, s.defaultName,
    h.directory_eq, ?_, rfl, _, _, _, h.hasFile.resolve_eq⟩) fun t ht => ?_
  · rw [h.node?_eq, if_pos rfl]
    exact Option.some_ne_none _
  obtain ⟨htdocument, d', n, hd', hn, rfl, q, b', m', hq⟩ := mem_documents.mp ht
  obtain rfl : d = d' := Except.ok.inj (h.directory_eq.symm.trans hd')
  by_contra hne
  have hother : n :: d ≠ s.defaultName :: d := fun heq => hne (by
    rw [defaultDocument, List.head_eq_of_cons_eq heq])
  rw [h.node?_of_ne hother] at hn
  obtain ⟨node, hnode⟩ := Option.ne_none_iff_exists'.mp hn
  -- What the entry led to before: nothing, a file, or a directory.
  cases hhas : ready.has (s.directory.join ⟨n⟩) with
  | false =>
      have hmem : s.directory.join ⟨n⟩ ∈ s.entries ready := by
        rw [entries, h.directory]
        exact List.mem_map_of_mem (mem_children.mpr hn)
      exact halias _ hmem hne htdocument hhas q b' m' hq
  | true =>
      obtain ⟨q', node', hq'⟩ := has_iff.mp hhas
      cases node' with
      | file b₀ m₀ =>
          have hlisted : s.directory.join ⟨n⟩ ∈ s.documents ready :=
            mem_documents.mpr ⟨htdocument, d, n, h.directory, hn, rfl, q', b₀, m₀, hq'⟩
          rw [hnone] at hlisted
          exact absurd hlisted List.not_mem_nil
      | directory =>
          have hdead : ∀ e, ready.directory (s.directory.join ⟨s.defaultName⟩) ≠ .ok e := by
            intro e he
            cases h.missing.symm.trans (has_iff.mpr ⟨e, _, directory_eq_ok_iff.mp he⟩)
          have hthen := directory_join_of_replaced h.name (hready.isName hnode List.mem_cons_self)
            h.way hdead h.noDirectory h.current (fun _ => h.node?_of_ne)
              (directory_eq_ok_iff.mpr hq')
          cases (directory_eq_ok_iff.mp hthen).symm.trans hq
      | link target => exact absurd rfl ((resolve_eq_ok_iff.mp hq').2.2.node?_ne_link target)

end Makes

/-! ### The first merge -/

/-- A merge without failures into a directory without documents makes the default document. -/
theorem exists_makes_of_merge (hdirectory : s.directory.text ≠ [])
    (hdocument : s.isDocument s.defaultDocument = true) (hne : s.defaultName ≠ [])
    (hslash : '/' ∉ s.defaultName) (hnone : s.documents (s.ready fs) = [])
    (hruns : ¬ RunsThroughEntry (s.ready fs) s.defaultDocument)
    (hreport : (s.merge fs k v).result = .ok report) (hfailed : report.failed = []) :
    ∃ d m, s.Makes (s.ready fs) d
      (bytesOf ((⟨s.defaultDocument, []⟩ : Document).set k v).render) m (s.merge fs k v).files := by
  obtain ⟨made, hprepare⟩ := prepareDirectory_of_merge hreport
  obtain ⟨doc, f, hopen, hputs, hno, hfiles⟩ := exists_puts_of_merge hnone hreport hfailed
  have hwith :=
    withDirectories_defaultDocument hprepare hdirectory hne hslash hputs.destination_eq
  have hway := lastPlace_erase_of_puts hputs hruns
  have hentry := hputs.entry
  have hnodir := hputs.noDirectory
  rw [hwith] at hfiles hway hentry
  obtain ⟨d, hd, rfl⟩ := directory_of_lastPlace_join hne hslash hdirectory hentry
  obtain ⟨d', hd', hplace⟩ := directory_of_lastPlace_join hne hslash hdirectory hway
  obtain rfl : d = d' := (List.cons.inj (congrArg Found.place hplace)).2
  rcases Document.open_eq_ok_iff.mp hopen with ⟨hmissing, rfl⟩ | ⟨q, b, m, hq, -⟩
  · exact ⟨d, _, isName_of_lastPlace hentry, hd, hd', hmissing, hnodir, hno, hfiles⟩
  · -- A default document that was there would have been listed.
    have hthere : (s.ready fs).node? (s.defaultName :: d) ≠ none := by
      intro hnull
      rw [hnull] at hentry
      cases (resolve_of_lastPlace hentry hputs.noSlash (.inl rfl)).symm.trans hq
    have hlisted : s.defaultDocument ∈ s.documents (s.ready fs) :=
      mem_documents.mpr ⟨hdocument, d, _, hd, hthere, rfl, q, b, m, hq⟩
    rw [hnone] at hlisted
    exact absurd hlisted List.not_mem_nil

/-- A merge without failures into a directory without documents founds the store, if the name of the
default document has no slash, the path of the directory does not pass it, and no other entry comes
to lead to it. -/
theorem founded_of_merge (hfs : fs.WellFormed) (hdirectory : s.directory.text ≠ [])
    (hdocument : s.isDocument s.defaultDocument = true) (hne : s.defaultName ≠ [])
    (hslash : '/' ∉ s.defaultName) (hnone : s.documents (s.ready fs) = [])
    (hruns : ¬ RunsThroughEntry (s.ready fs) s.defaultDocument) (halias : ¬ s.Aliases fs k v)
    (hreport : (s.merge fs k v).result = .ok report) (hfailed : report.failed = []) :
    s.Founded (s.merge fs k v).files := by
  obtain ⟨d, m, hmakes⟩ :=
    exists_makes_of_merge hdirectory hdocument hne hslash hnone hruns hreport hfailed
  have hdocuments := hmakes.documents_eq (s.ready_wellFormed hfs) hdocument hnone
    fun p hp hother hp' hhas q b m hq => halias ⟨p, hp, hother, hp', hhas, q, b, m, hq⟩
  generalize (s.merge fs k v).files = out at hmakes hdocuments
  have hwhole : (⟨s.defaultDocument, []⟩ : Document).IsWhole := by rfl
  have hfile := hmakes.hasFile
  have hvolume : out.volume = (s.ready fs).volume := by
    rw [hmakes.files]
    rfl
  -- what is written is what an empty document has after the merge
  have hgranted : granted out.volume s.defaultDocument (s.defaultName :: d)
      (Document.ofBytes s.defaultDocument .empty) = .ok ⟨s.defaultDocument, []⟩ := by
    rw [hvolume, granted_of_none hmakes.noFault, ofBytes_empty]
  have hread := granted_mergedBytes hgranted hwhole k v
  rw [mergedBytes_of_ok hgranted, ← writable_of_hasFile hfile] at hread
  have hsingle : s.SingleFile out s.defaultDocument (s.defaultName :: d) _ m :=
    ⟨by rw [targets, hdocuments], hfile⟩
  have hprepared : s.Prepared out :=
    .inr (has_iff.mpr ⟨d, _, directory_eq_ok_iff.mp hmakes.directory_eq⟩)
  refine ⟨hdocuments, _, hsingle.settled hprepared fun doc hdoc => ?_, _, hread⟩
  rw [writable_of_hasFile hfile] at hread
  cases (granted_eq_ok_iff.mp hread).1.symm.trans hdoc
  exact Document.isWhole_set hwhole k v

end Externalize.Store
