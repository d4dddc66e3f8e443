import Externalize.Proofs.Files.Writing
import Externalize.Proofs.Resource.Documents
import Externalize.Resource.Store

/-
What a merge does to the files.

* `Store.mergeDocument_cases`: one document is put in its place with the key set, or an error leaves
  all files as they are, but for directories that are made.
* `Store.Listed`: the names of the directory that lead to files; `Store.documents_eq` says that the
  documents are such names, and `Store.targets_cases` that the targets are, or there is none but the
  default document.
* `Store.mergeAll_listed`: what becomes of documents of the directory, one after the other.
* `Store.Prepared`: nothing is to be made for a merge to begin; `Store.merge_ready` says that a
  merge does what it does once that is so.
* `Store.merge_spec`: what becomes of the targets of a merge.
-/
namespace Externalize.Store

open FileSystem

variable {s : Store} {fs fs' out : FileSystem} {p : Path} {d : Place} {n : Name} {k : Key}
  {v : Text}

/-! ### One document -/

theorem mergeDocument_cases {r : Except DocumentError KeyAction}
    (h : mergeDocument fs p k v = (out, r)) :
    (∃ e, r = .error e ∧ (out = fs ∨ out = fs.withDirectories p)) ∨
      ∃ d f, Document.open fs p = .ok d ∧ r = .ok (d.action k v) ∧
        Puts fs p (bytesOf (d.set k v).render) f out := by
  rw [mergeDocument] at h
  split at h
  · next e he =>
      cases h
      exact .inl ⟨e, rfl, .inl rfl⟩
  · next d hd =>
      have hpath : d.path = p := Document.path_of_open hd
      split at h
      · next e hsave =>
          cases h
          rw [Document.save, Document.set, hpath] at hsave
          exact .inl ⟨_, rfl, .inr (writeAtomically_error hsave)⟩
      · next hsave =>
          cases h
          rw [Document.save, Document.set, hpath] at hsave
          obtain ⟨f, hf⟩ := writeAtomically_ok hsave
          exact .inr ⟨d, f, hd, rfl, hf⟩

/-- A path that goes, on its way, through the link that is its own entry. -/
def RunsThroughEntry (fs : FileSystem) (p : Path) : Prop :=
  ∃ f target, fs.destination p = some f ∧ f.node? = some (.link target) ∧
    ((fs.withDirectories p).erase f.place).lastPlace p .busy ≠ .ok ⟨f.place, none⟩

lemma runsThroughEntry_iff : RunsThroughEntry fs p ↔ ¬ ∀ f, fs.destination p = some f →
    (∀ target, f.node? ≠ some (.link target)) ∨
      ((fs.withDirectories p).erase f.place).lastPlace p .busy = .ok ⟨f.place, none⟩ := by
  unfold RunsThroughEntry
  push Not
  exact ⟨fun ⟨f, target, hf, hlink, hway⟩ => ⟨f, hf, ⟨target, hlink⟩, hway⟩,
    fun ⟨f, hf, ⟨target, hlink⟩, hway⟩ => ⟨f, target, hf, hlink, hway⟩⟩

instance (fs : FileSystem) (p : Path) : Decidable (RunsThroughEntry fs p) :=
  decidable_of_iff _ runsThroughEntry_iff.symm

lemma lastPlace_erase_of_puts {b : ByteArray} {f : Found} (h : Puts fs p b f out)
    (hruns : ¬ RunsThroughEntry fs p) :
    ((fs.withDirectories p).erase f.place).lastPlace p .busy = .ok ⟨f.place, none⟩ := by
  by_contra hcon
  refine hcon (h.lastPlace_erase fun target htarget => hruns ?_)
  exact ⟨f, target, h.destination_eq, htarget, hcon⟩

/-! ### Documents of the directory -/

/-- A name of the directory that leads to a file. -/
structure Listed (s : Store) (fs : FileSystem) (d : Place) (n : Name) : Prop where
  directory : fs.directory s.directory = .ok d
  name : IsName n
  leads : ∃ q b m, fs.resolve true (s.directory.join ⟨n⟩) = .ok ⟨q, some (.file b m)⟩

namespace Listed

lemma keep (h : Listed s fs d n) (hkeeps : Keeps fs fs') : Listed s fs' d n where
  directory := hkeeps.directory_eq h.directory
  name := h.name
  leads := by
    obtain ⟨q, b, m, hq⟩ := h.leads
    obtain ⟨q', b', m', hq', -⟩ := hkeeps.resolve_file hq
    exact ⟨q', b', m', hq'⟩

variable (h : Listed s fs d n)
include h

lemma noSlash : (s.directory.join ⟨n⟩).text.getLast? ≠ some '/' :=
  Path.getLast?_join h.name.1 h.name.2.1

lemma entry (inUse : OsError) : fs.lastPlace (s.directory.join ⟨n⟩) inUse =
    .ok ⟨n :: d, fs.node? (n :: d)⟩ :=
  lastPlace_join h.name.2.2.2 h.name.1 h.name.2.1 h.name.2.2.1 h.directory inUse

lemma withDirectories_eq : fs.withDirectories (s.directory.join ⟨n⟩) = fs :=
  withDirectories_of_lastPlace (h.entry .busy) h.noSlash

lemma destination_eq : fs.destination (s.directory.join ⟨n⟩) = some ⟨n :: d, fs.node? (n :: d)⟩ :=
  destination_of_lastPlace (h.entry .busy) h.noSlash

/-- The entry of the name is a file, or a link through which no directory is found. -/
lemma node?_entry : (∃ b m, fs.node? (n :: d) = some (.file b m)) ∨
    ∃ target, fs.node? (n :: d) = some (.link target) ∧ ¬ fs.IsPassage (n :: d) := by
  obtain ⟨q, b, m, hq⟩ := h.leads
  obtain ⟨-, e, he, hcases⟩ := lastPlace_of_resolve hq .busy
  rw [h.entry .busy] at he
  obtain rfl : n :: d = e := congrArg Found.place (Except.ok.inj he)
  rcases hcases with ⟨-, hfile⟩ | hlink
  · exact .inl ⟨b, m, hfile⟩
  · exact .inr hlink

lemma not_isPassage (target : Path) (_ : fs.node? (n :: d) = some (.link target)) :
    ¬ fs.IsPassage (n :: d) := by
  rcases h.node?_entry with ⟨b, m, hfile⟩ | ⟨target', -, hpassage⟩
  · rintro ⟨target', _, _, _, hlink, -⟩
    rw [hfile] at hlink
    cases hlink
  · exact hpassage

/-- A name whose entry is a file leads to it. -/
lemma resolve_eq {b : ByteArray} {m : Nat} (hnode : fs.node? (n :: d) = some (.file b m)) :
    fs.resolve true (s.directory.join ⟨n⟩) = .ok ⟨n :: d, some (.file b m)⟩ := by
  have hentry := h.entry .busy
  rw [hnode] at hentry
  exact resolve_of_lastPlace hentry h.noSlash (.inr ⟨b, m, rfl⟩)

lemma open_eq {b : ByteArray} {m : Nat} (hnode : fs.node? (n :: d) = some (.file b m)) :
    Document.open fs (s.directory.join ⟨n⟩) = Document.ofBytes (s.directory.join ⟨n⟩) b :=
  Document.open_eq (h.resolve_eq hnode)

/-- A write under the name alters its entry only. -/
lemma puts_cases {b : ByteArray} {f : Found} (hputs : Puts fs (s.directory.join ⟨n⟩) b f out) :
    f.place = n :: d ∧ Alters [n :: d] fs out ∧ ∃ m, out.node? (n :: d) = some (.file b m) := by
  have hf : f = ⟨n :: d, fs.node? (n :: d)⟩ :=
    Option.some_injective _ (hputs.destination_eq.symm.trans h.destination_eq)
  subst hf
  have halters := hputs.alters fun target htarget => by
    rw [h.withDirectories_eq]
    exact h.not_isPassage target htarget
  rw [h.withDirectories_eq] at halters
  exact ⟨rfl, halters, hputs.node?_place⟩

end Listed

lemma entry_eq_true_iff : s.entry fs p = .ok true ↔
    s.isDocument p = true ∧ ∃ q b m, fs.resolve true p = .ok ⟨q, some (.file b m)⟩ := by
  rw [entry]
  rcases fs.resolve true p with e | ⟨q, _ | ⟨⟨b, m⟩ | - | target⟩⟩
  · simp
  · simp
  · simp
  · simp only
    split_ifs <;> simp
  · simp only
    split_ifs <;> simp

/-- The documents are the paths of entries of the directory that lead to files, if they are named as
documents are. -/
theorem mem_documents : p ∈ s.documents fs ↔ s.isDocument p = true ∧ ∃ d n,
    fs.directory s.directory = .ok d ∧ fs.node? (n :: d) ≠ none ∧ p = s.directory.join ⟨n⟩ ∧
      ∃ q b m, fs.resolve true p = .ok ⟨q, some (.file b m)⟩ := by
  have hmem : p ∈ s.documents fs ↔ p ∈ s.entries fs ∧ s.entry fs p = .ok true := by
    rw [documents, List.mem_filter]
    refine and_congr_right' ?_
    cases s.entry fs p <;> simp
  rw [hmem, entry_eq_true_iff, entries]
  cases hd : fs.directory s.directory with
  | error e => simp
  | ok d =>
      simp only [List.mem_map, mem_children]
      constructor
      · rintro ⟨⟨n, hn, rfl⟩, hdoc, hfile⟩
        exact ⟨hdoc, d, n, rfl, hn, rfl, hfile⟩
      · rintro ⟨hdoc, d', n, hd', hn, rfl, hfile⟩
        cases hd'
        exact ⟨⟨n, hn, rfl⟩, hdoc, hfile⟩

/-- The documents are names of the directory that lead to files, each one once. -/
theorem documents_eq (s : Store) (hfs : fs.WellFormed) : ∃ (d : Place) (ns : List Name),
    s.documents fs = ns.map (fun n => s.directory.join ⟨n⟩) ∧ ns.Nodup ∧
      ∀ n ∈ ns, Listed s fs d n := by
  cases hd : fs.directory s.directory with
  | error e => exact ⟨[], [], by rw [documents, entries, hd]; rfl, List.nodup_nil, by simp⟩
  | ok d =>
      have hdocuments : ∃ ns : List Name,
          s.documents fs = ns.map (fun n => s.directory.join ⟨n⟩) ∧ ns.Sublist (fs.children d) := by
        rw [documents, entries, hd]
        exact ⟨_, List.filter_map, List.filter_sublist⟩
      obtain ⟨ns, hns, hsub⟩ := hdocuments
      refine ⟨d, ns, hns, (hfs.nodup_children d).sublist hsub, fun n hn => ?_⟩
      obtain ⟨node, hnode⟩ := Option.ne_none_iff_exists'.mp (mem_children.mp (hsub.subset hn))
      have hmem : s.directory.join ⟨n⟩ ∈ s.documents fs := hns ▸ List.mem_map_of_mem hn
      obtain ⟨-, -, -, -, -, -, hfile⟩ := mem_documents.mp hmem
      exact ⟨hd, hfs.isName hnode List.mem_cons_self, hfile⟩

/-- Listed names are told apart by their paths. -/
lemma Listed.eq_of_join_eq {d' : Place} {m : Name} (h : Listed s fs d n) (h' : Listed s fs d' m)
    (heq : s.directory.join ⟨n⟩ = s.directory.join ⟨m⟩) : n = m :=
  Path.join_injective h.name.1 h.name.2.1 h'.name.1 h'.name.2.1 heq

/-! ### Targets -/

lemma targets_of_documents (h : s.documents fs = []) :
    s.targets fs = ([s.defaultDocument], true) := by
  rw [targets, h]

lemma targets_of_ne_nil (h : s.documents fs ≠ []) : s.targets fs = (s.documents fs, false) := by
  obtain ⟨t, ts, hfound⟩ := List.exists_cons_of_ne_nil h
  rw [targets, hfound]

/-- The default document is the only target, or the targets are documents of the directory. -/
lemma targets_cases (s : Store) (hfs : fs.WellFormed) :
    s.targets fs = ([s.defaultDocument], true) ∨ ∃ (d : Place) (ns : List Name),
      s.targets fs = (ns.map fun n => s.directory.join ⟨n⟩, false) ∧ ns.Nodup ∧
        ∀ n ∈ ns, Listed s fs d n := by
  by_cases hnone : s.documents fs = []
  · exact .inl (targets_of_documents hnone)
  · obtain ⟨d, ns, hdocuments, hns, hlisted⟩ := s.documents_eq hfs
    exact .inr ⟨d, ns, by rw [targets_of_ne_nil hnone, hdocuments], hns, hlisted⟩

lemma nodup_targets (hfs : fs.WellFormed) : (s.targets fs).1.Nodup := by
  rcases s.targets_cases hfs with htargets | ⟨d, ns, htargets, hns, hlisted⟩ <;> rw [htargets]
  · exact List.nodup_singleton _
  · exact hns.map_on fun n hn m hm heq => (hlisted n hn).eq_of_join_eq (hlisted m hm) heq

/-! ### One document after the other -/

variable {ns : List Name}

/-- One document of the directory: its entry is altered at most, and holds the key then. -/
lemma Listed.mergeDocument {r : Except DocumentError KeyAction} (h : Listed s fs d n)
    (hmerge : Store.mergeDocument fs (s.directory.join ⟨n⟩) k v = (out, r)) :
    Alters [n :: d] fs out ∧
      ((∃ e, r = .error e ∧ out.node? (n :: d) = fs.node? (n :: d)) ∨
        ∃ doc m, Document.open fs (s.directory.join ⟨n⟩) = .ok doc ∧ r = .ok (doc.action k v) ∧
          out.node? (n :: d) = some (.file (bytesOf (doc.set k v).render) m)) := by
  rcases mergeDocument_cases hmerge with ⟨e, rfl, hsame⟩ | ⟨doc, f, hdoc, rfl, hputs⟩
  · rw [h.withDirectories_eq, or_self] at hsame
    subst hsame
    exact ⟨.refl out _, .inl ⟨e, rfl, rfl⟩⟩
  · obtain ⟨hf, halters, m, hnode⟩ := h.puts_cases hputs
    exact ⟨halters, .inr ⟨doc, m, hdoc, rfl, hnode⟩⟩

/-- What became of a document of the directory: it is as it was, or its file holds the document with
the key set. That document was opened when others had been merged. -/
def Became (s : Store) (fs out : FileSystem) (d : Place) (n : Name) (k : Key) (v : Text)
    (r : Except DocumentError KeyAction) : Prop :=
  (∃ e, r = .error e ∧ out.node? (n :: d) = fs.node? (n :: d)) ∨
    ∃ between places doc m, Alters places fs between ∧ n :: d ∉ places ∧
      Document.open between (s.directory.join ⟨n⟩) = .ok doc ∧
      r = .ok (doc.action k v) ∧ out.node? (n :: d) = some (.file (bytesOf (doc.set k v).render) m)

/-- Documents of the directory are merged one after the other, and each one by itself. -/
theorem mergeAll_listed {results : List (Path × Except DocumentError KeyAction)}
    (h : ∀ n ∈ ns, Listed s fs d n) (hns : ns.Nodup)
    (hmerge : mergeAll k v fs (ns.map fun n => s.directory.join ⟨n⟩) = (out, results)) :
    Alters (ns.map fun n => n :: d) fs out ∧
      results.map Prod.fst = ns.map (fun n => s.directory.join ⟨n⟩) ∧
      ∀ r ∈ results, ∃ n ∈ ns, r.1 = s.directory.join ⟨n⟩ ∧ Became s fs out d n k v r.2 := by
  induction ns generalizing fs results with
  | nil =>
      cases hmerge
      exact ⟨Alters.refl _ _, rfl, by simp⟩
  | cons n ns ih =>
      obtain ⟨hn, hns⟩ := List.nodup_cons.mp hns
      rw [List.map_cons, mergeAll] at hmerge
      rcases hfirst : Store.mergeDocument fs (s.directory.join ⟨n⟩) k v with ⟨fs₁, r₁⟩
      rcases hrest : mergeAll k v fs₁ (ns.map fun n => s.directory.join ⟨n⟩) with ⟨fs₂, results₂⟩
      rw [hfirst] at hmerge
      simp only [hrest] at hmerge
      cases hmerge
      obtain ⟨halters, hbecame⟩ := (h n List.mem_cons_self).mergeDocument hfirst
      obtain ⟨halters', hpaths, hresults⟩ :=
        ih (fun m hm => (h m (List.mem_cons_of_mem _ hm)).keep halters.keeps) hns hrest
      have hother : ∀ m ∈ ns, m :: d ∉ [n :: d] := by
        intro m hm hmem
        obtain rfl : m = n := by simpa using hmem
        exact hn hm
      have hkept : out.node? (n :: d) = fs₁.node? (n :: d) := by
        refine halters'.node? _ ?_
        simpa using hn
      refine ⟨halters.trans halters', by rw [List.map_cons, hpaths]; rfl, fun r hr => ?_⟩
      rcases List.mem_cons.mp hr with rfl | hr
      · refine ⟨n, List.mem_cons_self, rfl, ?_⟩
        rcases hbecame with ⟨e, rfl, hnode⟩ | ⟨doc, m, hdoc, rfl, hnode⟩
        · exact .inl ⟨e, rfl, hkept.trans hnode⟩
        · exact .inr ⟨fs, [], doc, m, Alters.refl fs [], List.not_mem_nil, hdoc, rfl,
            hkept.trans hnode⟩
      · obtain ⟨m, hm, hpath, hbecame'⟩ := hresults r hr
        have hbefore : fs₁.node? (m :: d) = fs.node? (m :: d) :=
          halters.node? _ (hother m hm)
        refine ⟨m, List.mem_cons_of_mem _ hm, hpath, ?_⟩
        rcases hbecame' with ⟨e, he, hnode⟩ | ⟨between, places, doc, mode, hbetween, hplaces, hdoc⟩
        · exact .inl ⟨e, he, hnode.trans hbefore⟩
        · refine .inr ⟨between, _, doc, mode, halters.trans hbetween, ?_, hdoc⟩
          rw [List.mem_append, not_or]
          exact ⟨hother m hm, hplaces⟩

/-! ### A whole merge -/

/-- A target that took the key: its document, as it was when its turn came, has the key set in the
file that is now the entry of its path. -/
structure Took (ready out : FileSystem) (k : Key) (v : Text) (p : Path) (doc : Document)
    (f : Found) : Prop where
  path : doc.path = p
  fits : doc.Fits
  destination : ready.destination p = some f
  node? : ∃ m, out.node? f.place = some (.file (bytesOf (doc.set k v).render) m)
  resolve : ¬ RunsThroughEntry ready p → ∃ m,
    out.resolve true p = .ok ⟨f.place, some (.file (bytesOf (doc.set k v).render) m)⟩
  opened : (∀ target, f.node? ≠ some (.link target)) → Document.open ready p = .ok doc

lemma Took.open_eq {doc : Document} {f : Found} (h : Took fs out k v p doc f)
    (hruns : ¬ RunsThroughEntry fs p) : Document.open out p = .ok (doc.set k v).reread := by
  obtain ⟨m, hm⟩ := h.resolve hruns
  rw [Document.open_eq hm, ← h.path]
  exact Document.ofBytes_set h.fits k v

/-- A target that did not take the key: its file is as it was, unless it is reached through a
link. -/
def Refused (ready out : FileSystem) (p : Path) : Prop :=
  (∀ f target, ready.destination p = some f → f.node? ≠ some (.link target)) →
    ∀ q b m, ready.resolve true p = .ok ⟨q, some (.file b m)⟩ →
      out.resolve true p = .ok ⟨q, some (.file b m)⟩

/-- What a merge does to the files: each target takes the key or not, directories stay, and nothing
else changes, but for directories that are made above a target. -/
structure Merged (ready out : FileSystem) (k : Key) (v : Text)
    (results : List (Path × Except DocumentError KeyAction)) : Prop where
  current : out.current = ready.current
  directory : ∀ q, ready.node? q = some .directory → out.node? q = some .directory
  outcome : ∀ r ∈ results, (∃ e, r.2 = .error e ∧ Refused ready out r.1) ∨
    ∃ doc f, r.2 = .ok (doc.action k v) ∧ Took ready out k v r.1 doc f
  node? : ∀ q, (out.node? q = ready.node? q ∨
      ready.node? q = none ∧ out.node? q = some .directory ∧
        ∃ r ∈ results, ready.withDirectories r.1 ≠ ready) ∨
    ∃ r ∈ results, ∃ a f, r.2 = .ok a ∧ ready.destination r.1 = some f ∧ f.place = q

/-- What becomes of a single document. -/
lemma mergeDocument_merged {r : Except DocumentError KeyAction}
    (h : mergeDocument fs p k v = (out, r)) : Merged fs out k v [(p, r)] := by
  have hgrows := withDirectories_grows fs p
  have hmade : ∀ (r : Except DocumentError KeyAction) q,
      (fs.withDirectories p).node? q = fs.node? q ∨
        fs.node? q = none ∧ (fs.withDirectories p).node? q = some .directory ∧
          ∃ r' ∈ [(p, r)], fs.withDirectories r'.1 ≠ fs := by
    intro r q
    rcases hgrows.node? q with hsame | ⟨hnone, hdir⟩
    · exact .inl hsame
    · refine .inr ⟨hnone, hdir, (p, r), List.mem_singleton_self _, fun heq => ?_⟩
      rw [heq, hnone] at hdir
      cases hdir
  rcases mergeDocument_cases h with ⟨e, rfl, hsame⟩ | ⟨doc, f, hdoc, rfl, hputs⟩
  · have hout : Grows fs out := by
      rcases hsame with rfl | rfl
      · exact .refl _
      · exact hgrows
    refine ⟨hout.current, fun q => hout.node?_eq, fun r hr => ?_, fun q => .inl ?_⟩
    · obtain rfl := List.mem_singleton.mp hr
      exact .inl ⟨e, rfl, fun _ q b m hq => hout.resolve_eq hq⟩
    · rcases hsame with rfl | rfl
      · exact .inl rfl
      · exact hmade _ q
  · refine ⟨hputs.current.trans hgrows.current, ?_, ?_, ?_⟩
    · intro q hq
      have hmade := hgrows.node?_eq hq
      rw [hputs.node?_of_ne, hmade]
      rintro rfl
      exact hputs.noDirectory (hputs.node?_entry.trans hmade)
    · intro r hr
      obtain rfl := List.mem_singleton.mp hr
      refine .inr ⟨doc, f, rfl, Document.path_of_open hdoc, Document.fits_of_open hdoc,
        hputs.destination_eq, hputs.node?_place, ?_, fun _ => hdoc⟩
      exact fun hruns => hputs.resolve_eq (lastPlace_erase_of_puts hputs hruns)
    · intro q
      rcases eq_or_ne q f.place with rfl | hq
      · exact .inr ⟨_, List.mem_singleton_self _, _, f, rfl, hputs.destination_eq, rfl⟩
      · rw [hputs.node?_of_ne hq]
        exact .inl (hmade _ q)

/-- What becomes of documents of the directory. -/
lemma mergeAll_merged {results : List (Path × Except DocumentError KeyAction)}
    (h : ∀ n ∈ ns, Listed s fs d n) (hns : ns.Nodup)
    (hmerge : mergeAll k v fs (ns.map fun n => s.directory.join ⟨n⟩) = (out, results)) :
    Merged fs out k v results := by
  obtain ⟨halters, hpaths, hresults⟩ := mergeAll_listed h hns hmerge
  refine ⟨halters.keeps.current, halters.keeps.directory, fun r hr => ?_, fun q => ?_⟩
  · obtain ⟨n, hn, hpath, hbecame⟩ := hresults r hr
    have hlisted := h n hn
    rw [hpath]
    rcases hbecame with ⟨e, he, hnode⟩ | ⟨between, places, doc, m, hbetween, hplaces, hdoc⟩
    · refine .inl ⟨e, he, fun hlink q b m hq => ?_⟩
      obtain ⟨b', m', hfile⟩ := hlisted.node?_entry.resolve_right fun ⟨target, htarget, _⟩ =>
        hlink _ target hlisted.destination_eq htarget
      have hbefore := hlisted.resolve_eq hfile
      rw [hq] at hbefore
      cases hbefore
      exact (hlisted.keep halters.keeps).resolve_eq (hnode.trans hfile)
    · obtain ⟨hdoc, haction, hnode⟩ := hdoc
      refine .inr ⟨doc, _, haction, Document.path_of_open hdoc, Document.fits_of_open hdoc,
        hlisted.destination_eq, ⟨m, hnode⟩, fun _ => ⟨m, ?_⟩, fun hlink => ?_⟩
      · exact (hlisted.keep halters.keeps).resolve_eq hnode
      · obtain ⟨b', m', hfile⟩ := hlisted.node?_entry.resolve_right fun ⟨target, htarget, _⟩ =>
          hlink target htarget
        have hthen := (hlisted.keep hbetween.keeps).open_eq ((hbetween.node? _ hplaces).trans hfile)
        rw [hlisted.open_eq hfile, ← hthen, hdoc]
  · by_cases hq : q ∈ ns.map fun n => n :: d
    · obtain ⟨n, hn, rfl⟩ := List.mem_map.mp hq
      have hmem : s.directory.join ⟨n⟩ ∈ results.map Prod.fst := by
        rw [hpaths]
        exact List.mem_map_of_mem hn
      obtain ⟨r, hr, hrn⟩ := List.mem_map.mp hmem
      obtain ⟨n', hn', hpath, hbecame⟩ := hresults r hr
      have hname := (h n hn).name
      have hname' := (h n' hn').name
      obtain rfl : n = n' :=
        Path.join_injective hname.1 hname.2.1 hname'.1 hname'.2.1 (hrn.symm.trans hpath)
      rcases hbecame with ⟨e, he, hnode⟩ | ⟨_, _, doc, m, _, _, _, haction, _⟩
      · exact .inl (.inl hnode)
      · exact .inr ⟨r, hr, _, _, haction, hpath ▸ (h n hn).destination_eq, rfl⟩
    · exact .inl (.inl (halters.node? q hq))

/-- The files when the targets of a merge are found: the directory is made by then. -/
def ready (s : Store) (fs : FileSystem) : FileSystem := (s.prepareDirectory fs).1

lemma ready_grows (s : Store) (fs : FileSystem) : Grows fs (s.ready fs) := by
  rw [ready, prepareDirectory]
  split_ifs
  · exact .refl fs
  · have hgrows := createDirectories_grows fs s.directory
    split <;> next h => rw [h] at hgrows; exact hgrows

lemma ready_wellFormed (s : Store) (hfs : fs.WellFormed) : (s.ready fs).WellFormed := by
  rw [ready, prepareDirectory]
  split_ifs
  · exact hfs
  · have hmade := hfs.createUpwards s.directory.ancestors
    rw [← createDirectories] at hmade
    split <;> next h => rw [h] at hmade; exact hmade

/-- A merge that is reported on finds its targets, merges them one after the other, and reports on
all of them. -/
lemma merge_eq {report : MergeReport} (h : (s.merge fs k v).result = .ok report) :
    ∃ results, mergeAll k v (s.ready fs) (s.targets (s.ready fs)).1 =
        ((s.merge fs k v).files, results) ∧
      report = Store.report (s.targets (s.ready fs)).2 results := by
  rcases hready : s.prepareDirectory fs with ⟨ready, e | made⟩
  · rw [merge, hready] at h
    cases h
  · rw [merge, hready] at h ⊢
    rw [Store.ready, hready]
    exact ⟨_, rfl, (Except.ok.inj h).symm⟩

lemma prepareDirectory_of_merge {report : MergeReport} (h : (s.merge fs k v).result = .ok report) :
    ∃ made, (s.prepareDirectory fs).2 = .ok made := by
  rcases hready : s.prepareDirectory fs with ⟨ready, e | made⟩
  · rw [merge, hready] at h
    cases h
  · exact ⟨made, rfl⟩

/-- A merge that does not begin leaves the directories that were made. -/
lemma files_of_merge_error {e : DirectoryError} (h : (s.merge fs k v).result = .error e) :
    (s.merge fs k v).files = s.ready fs := by
  rcases hready : s.prepareDirectory fs with ⟨ready, e' | made⟩
  · rw [merge, Store.ready, hready]
  · rw [merge, hready] at h
    cases h

/-- Nothing is to be made for a merge to begin. -/
def Prepared (s : Store) (fs : FileSystem) : Prop :=
  s.directory.text = [] ∨ fs.has s.directory = true

lemma Prepared.exists_eq (h : s.Prepared fs) : ∃ made, s.prepareDirectory fs = (fs, .ok made) := by
  rw [prepareDirectory]
  by_cases hhas : fs.has s.directory = true
  · exact ⟨[], by rw [if_pos hhas]⟩
  · have hcreate : fs.createDirectories s.directory = (fs, .ok ()) := by
      rw [createDirectories, Path.ancestors, createUpwards,
        if_pos (List.isEmpty_iff.mpr (h.resolve_right hhas))]
    exact ⟨_, by rw [if_neg hhas, hcreate]⟩

/-- What is at the path of the directory then: a directory or a file. -/
lemma Prepared.resolve_cases (h : s.Prepared fs) (hne : s.directory.text ≠ []) :
    (∃ d, fs.directory s.directory = .ok d) ∨
      ∃ q b m, fs.resolve true s.directory = .ok ⟨q, some (.file b m)⟩ := by
  obtain ⟨q, n, hq⟩ := has_iff.mp (h.resolve_left hne)
  cases n with
  | file b m => exact .inr ⟨q, b, m, hq⟩
  | directory => exact .inl ⟨q, directory_eq_ok_iff.mpr hq⟩
  | link target => exact absurd rfl ((resolve_eq_ok_iff.mp hq).2.2.node?_ne_link target)

/-- Directories stay, so that nothing is to be made later either. -/
lemma Prepared.keep (h : s.Prepared fs) (hkeeps : Keeps fs fs') : s.Prepared fs' := by
  by_cases hne : s.directory.text = []
  · exact .inl hne
  · right
    rcases h.resolve_cases hne with ⟨d, hd⟩ | ⟨q, b, m, hq⟩
    · exact has_iff.mpr ⟨_, _, directory_eq_ok_iff.mp (hkeeps.directory_eq hd)⟩
    · obtain ⟨q', b', m', hq', -⟩ := hkeeps.resolve_file hq
      exact has_iff.mpr ⟨_, _, hq'⟩

/-- The directory was there already if it is there later. -/
lemma Prepared.directory_eq (h : s.Prepared fs) (hkeeps : Keeps fs fs')
    (hd : fs'.directory s.directory = .ok d) : fs.directory s.directory = .ok d := by
  have hne := (resolve_eq_ok_iff.mp (directory_eq_ok_iff.mp hd)).2.1
  rcases h.resolve_cases hne with ⟨d', hd'⟩ | ⟨q, b, m, hq⟩
  · cases hd.symm.trans (hkeeps.directory_eq hd')
    exact hd'
  · obtain ⟨q', b', m', hq', -⟩ := hkeeps.resolve_file hq
    cases hq'.symm.trans (directory_eq_ok_iff.mp hd)

/-- Nothing is to be made once the directory is made. -/
lemma prepared_ready {made : List LogRecord} (h : (s.prepareDirectory fs).2 = .ok made) :
    s.Prepared (s.ready fs) := by
  rw [prepareDirectory] at h
  rw [ready, prepareDirectory]
  by_cases hhas : fs.has s.directory = true
  · rw [if_pos hhas]
    exact .inr hhas
  · rw [if_neg hhas] at h ⊢
    rcases hmade : fs.createDirectories s.directory with ⟨out, e | ⟨⟩⟩ <;> rw [hmade] at h
    · cases h
    · by_cases hne : s.directory.text = []
      · exact .inl hne
      · obtain ⟨d, hd⟩ := directory_of_createDirectories hne hmade
        exact .inr (has_iff.mpr ⟨d, _, directory_eq_ok_iff.mp hd⟩)

/-- A merge that has nothing to make. -/
lemma Prepared.merge (h : s.Prepared fs) (k : Key) (v : Text) :
    (s.merge fs k v).files = (mergeAll k v fs (s.targets fs).1).1 ∧
      (s.merge fs k v).result =
        .ok (report (s.targets fs).2 (mergeAll k v fs (s.targets fs).1).2) := by
  obtain ⟨made, hmade⟩ := h.exists_eq
  rw [Store.merge, hmade]
  exact ⟨rfl, rfl⟩

/-- A merge does what it does once the directory is made. -/
lemma merge_ready {made : List LogRecord} (h : (s.prepareDirectory fs).2 = .ok made) (k : Key)
    (v : Text) : (s.merge fs k v).files = (s.merge (s.ready fs) k v).files ∧
      (s.merge fs k v).result = (s.merge (s.ready fs) k v).result := by
  obtain ⟨hfiles, hresult⟩ := (prepared_ready h).merge k v
  rw [hfiles, hresult]
  rcases hprepare : s.prepareDirectory fs with ⟨ready, e | made'⟩
  · rw [hprepare] at h
    cases h
  · rw [Store.merge, Store.ready, hprepare]
    exact ⟨rfl, rfl⟩

/-- What becomes of the targets of a merge, and of all other entries. -/
theorem merge_spec (hfs : fs.WellFormed) {report : MergeReport}
    (h : (s.merge fs k v).result = .ok report) :
    ∃ results, report = Store.report (s.targets (s.ready fs)).2 results ∧
      results.map Prod.fst = (s.targets (s.ready fs)).1 ∧ (results.map Prod.fst).Nodup ∧
      Merged (s.ready fs) (s.merge fs k v).files k v results := by
  obtain ⟨results, hmerge, hreport⟩ := merge_eq h
  have hready := s.ready_wellFormed hfs
  generalize (s.merge fs k v).files = out at hmerge ⊢
  generalize s.ready fs = ready at *
  suffices hmerged : results.map Prod.fst = (s.targets ready).1 ∧ Merged ready out k v results from
    ⟨results, hreport, hmerged.1, hmerged.1 ▸ nodup_targets hready, hmerged.2⟩
  rcases s.targets_cases hready with htargets | ⟨d, ns, htargets, hns, hlisted⟩ <;>
    rw [htargets] at hmerge ⊢
  · rcases hdefault : Store.mergeDocument ready s.defaultDocument k v with ⟨after, r⟩
    simp only [mergeAll, hdefault] at hmerge
    cases hmerge
    exact ⟨rfl, mergeDocument_merged hdefault⟩
  · obtain ⟨-, hpaths, -⟩ := mergeAll_listed hlisted hns hmerge
    exact ⟨hpaths, mergeAll_merged hlisted hns hmerge⟩

end Externalize.Store
