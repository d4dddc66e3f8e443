import Externalize.Proofs.Files.Places

/-
What writing a file does.

* `Volume.writeError?`: the error of a write, if one of its steps fails by itself.
* `FileSystem.Grows`: a change that only makes directories;
  `FileSystem.createDirectories_grows` says that making directories is one, and
  `FileSystem.createDirectories_of_directory` that it does nothing where there is one.
* `FileSystem.WellFormed.insert`: an entry that is put into a directory keeps the tree.
* `FileSystem.destination`: the entry that a file written under a path takes.
* `FileSystem.writeAtomically_cases`: the ways in which a write goes;
  `FileSystem.writeAtomically_error`, `FileSystem.writeAtomically_eq_ok`: one that fails, at
  whatever step, has made directories at most; one that does not fail has put the file there as
  well, and nothing else.
* `FileSystem.Puts.keeps`, `FileSystem.Puts.resolve_eq`: what paths lead to after a write.
* `FileSystem.Alters`: a change of some entries that keeps walks.
-/
namespace Externalize

/-- The error of a write, if one of the steps fails by itself that come before the new file takes
the place of the old one. -/
def Volume.fillError? (v : Volume) (p : Path) (q : Place) : Option WriteError :=
  ((v.fault? .temporary q).map (.temporary p.directory)).or
    (((v.fault? .content q).map (.file p)).or ((v.fault? .mode q).map (.permissions p)))

/-- The error of a write, if one of its steps fails by itself once the directories are made. -/
def Volume.writeError? (v : Volume) (p : Path) (q : Place) : Option WriteError :=
  (v.fillError? p q).or ((v.fault? .rename q).map (.file p))

/-- Where no step fails by itself, none fails in a write. -/
lemma Volume.writeError?_of_faults {v : Volume} (h : v.faults = []) (p : Path) (q : Place) :
    v.writeError? p q = none := by
  have hnone : ∀ step place, v.fault? step place = none := fun _ _ => by rw [fault?, h]; rfl
  rw [writeError?, fillError?, hnone, hnone, hnone, hnone]
  rfl

/-- Which path an entry is written under does not matter to whether a step fails. -/
lemma Volume.writeError?_eq_none_congr {v : Volume} {p : Path} {q : Place}
    (h : v.writeError? p q = none) (p' : Path) : v.writeError? p' q = none := by
  simpa [writeError?, fillError?] using h

namespace FileSystem

variable {fs fs' made out : FileSystem} {p : Path} {q d : Place} {t : Text} {m : Nat}
  {inUse : OsError}

/-! ### Making directories -/

/-- A change that makes directories where nothing was. -/
structure Grows (fs fs' : FileSystem) : Prop where
  current : fs'.current = fs.current
  volume : fs'.volume = fs.volume
  node? : ∀ q, fs'.node? q = fs.node? q ∨ fs.node? q = none ∧ fs'.node? q = some .directory

namespace Grows

lemma refl (fs : FileSystem) : Grows fs fs := ⟨rfl, rfl, fun _ => .inl rfl⟩

lemma trans {fs'' : FileSystem} (h : Grows fs fs') (h' : Grows fs' fs'') : Grows fs fs'' where
  current := h'.current.trans h.current
  volume := h'.volume.trans h.volume
  node? q := by
    rcases h'.node? q with hq' | ⟨hnone, hdir⟩
    · rcases h.node? q with hq | ⟨hnone, hdir⟩
      · exact .inl (hq'.trans hq)
      · exact .inr ⟨hnone, hq'.trans hdir⟩
    · rcases h.node? q with hq | ⟨hnone', -⟩
      · exact .inr ⟨hq.symm.trans hnone, hdir⟩
      · exact .inr ⟨hnone', hdir⟩

/-- What is there stays. -/
lemma node?_eq (h : Grows fs fs') {n : Node} (hq : fs.node? q = some n) :
    fs'.node? q = some n := by
  rcases h.node? q with h | ⟨hnone, -⟩
  · rw [h, hq]
  · rw [hq] at hnone
    cases hnone

/-- A path that leads to something does so still. -/
lemma resolve_eq (h : Grows fs fs') {follow : Bool} {n : Node}
    (hp : fs.resolve follow p = .ok ⟨q, some n⟩) : fs'.resolve follow p = .ok ⟨q, some n⟩ := by
  refine resolve_transfer h.current (fun _ => h.node?_eq) (fun _ _ => h.node?_eq) hp ?_
  rcases eq_or_ne n .directory with rfl | hn
  · exact .inl rfl
  · have hq := node?_of_resolve hp hn
    exact .inr (by rw [hq, h.node?_eq hq])

/-- What is there and is no directory was there. -/
lemma node?_of (h : Grows fs fs') {n : Node} (hq : fs'.node? q = some n) (hn : n ≠ .directory) :
    fs.node? q = some n := by
  rcases h.node? q with h | ⟨-, hdir⟩
  · rw [← h, hq]
  · rw [hq] at hdir
    exact absurd (Option.some_injective _ hdir) hn

lemma keeps (h : Grows fs fs') : Keeps fs fs' where
  current := h.current
  directory _ hp := h.node?_eq hp
  file _ b m hp := ⟨b, m, h.node?_eq hp⟩
  link _ _ hp := .inl (h.node?_eq hp)

lemma of_insert (hq : fs.node? q = none) (hne : q ≠ []) : Grows fs (fs.insert q .directory) where
  current := rfl
  volume := rfl
  node? x := by
    rw [node?_insert _ hne]
    split_ifs with hx
    · exact .inr ⟨hx ▸ hq, rfl⟩
    · exact .inl rfl

end Grows

lemma put_of_lookup {n : Node} {es : List (Place × Node)} (h : lookup q es = none) :
    put q n es = es ++ [(q, n)] := by
  induction es with
  | nil => rfl
  | cons e es ih =>
      rw [lookup] at h
      split_ifs at h with he
      rw [put, if_neg he, ih h]
      rfl

lemma notMem_of_lookup {es : List (Place × Node)} (h : lookup q es = none) :
    q ∉ es.map Prod.fst := by
  induction es with
  | nil => simp
  | cons e es ih =>
      rw [lookup] at h
      split_ifs at h with he
      rw [List.map_cons, List.mem_cons, not_or]
      exact ⟨Ne.symm he, ih h⟩

lemma mem_put {es : List (Place × Node)} {n : Node} {e : Place × Node} (h : e ∈ put q n es) :
    e = (q, n) ∨ e ∈ es := by
  induction es with
  | nil => exact .inl (List.mem_singleton.mp h)
  | cons e' es ih =>
      obtain ⟨r, k⟩ := e'
      rw [put] at h
      split_ifs at h
      · exact (List.mem_cons.mp h).imp_right (List.mem_cons_of_mem _)
      · rcases List.mem_cons.mp h with rfl | h
        · exact .inr List.mem_cons_self
        · exact (ih h).imp_right (List.mem_cons_of_mem _)

lemma nodup_put {es : List (Place × Node)} (h : (es.map Prod.fst).Nodup) (n : Node) :
    ((put q n es).map Prod.fst).Nodup := by
  induction es with
  | nil => exact List.nodup_singleton q
  | cons e es ih =>
      obtain ⟨r, k⟩ := e
      obtain ⟨hr, hes⟩ := List.nodup_cons.mp h
      rw [put]
      split_ifs with hrq
      · exact hrq ▸ h
      · refine List.nodup_cons.mpr ⟨fun hmem => ?_, ih hes⟩
        obtain ⟨e, he, heq⟩ := List.mem_map.mp hmem
        rcases mem_put he with rfl | he
        · exact hrq heq.symm
        · exact hr (List.mem_map.mpr ⟨e, he, heq⟩)

/-- An entry that is put into a directory, in the place of none, keeps the tree. -/
lemma WellFormed.insert (hfs : fs.WellFormed) {n : Name} (hn : IsName n)
    (hd : fs.node? d = some .directory) (hnot : fs.node? (n :: d) ≠ some .directory) (node : Node) :
    (fs.insert (n :: d) node).WellFormed := by
  have hkept : ∀ x, fs.node? x = some .directory →
      (fs.insert (n :: d) node).node? x = some .directory := by
    intro x hx
    rw [node?_insert _ (List.cons_ne_nil n d), if_neg, hx]
    rintro rfl
    exact hnot hx
  have hnames : ∀ d, fs.node? d = some .directory → ∀ m ∈ d, IsName m := by
    rintro (_ | ⟨m, d⟩) hd m' hm
    · cases hm
    · exact hfs.isName hd hm
  refine ⟨nodup_put hfs.nodup node, fun e he m hm => ?_, fun e he => ?_, hkept _ hfs.current,
    fun e he => hkept _ (hfs.modes e he)⟩
  · rcases mem_put he with rfl | he
    · rcases List.mem_cons.mp hm with rfl | hm
      · exact hn
      · exact hnames d hd m hm
    · exact hfs.names e he m hm
  · rcases mem_put he with rfl | he
    · exact hkept d hd
    · exact hkept _ (hfs.parent e he)

/-- An entry of a path is in a directory. -/
lemma WellFormed.node?_of_lastPlace (hfs : fs.WellFormed) {n : Name} {node? : Option Node}
    (h : fs.lastPlace p inUse = .ok ⟨n :: d, node?⟩) : fs.node? d = some .directory := by
  obtain ⟨-, -, above, n', d', -, -, hwalk, hf⟩ := lastPlace_eq_ok_iff.mp h
  obtain ⟨rfl, rfl⟩ : n = n' ∧ d = d' := by simpa using congrArg Found.place hf
  exact hfs.node?_of_walk hwalk (hfs.node?_start p)

/-- A directory that is made is put at the entry of its path, where nothing was. -/
lemma exists_lastPlace_of_createDirectory (h : fs.createDirectory p = .ok fs') :
    ∃ n d, fs.lastPlace p .alreadyExists = .ok ⟨n :: d, none⟩ ∧ fs.node? (n :: d) = none ∧
      fs' = fs.insert (n :: d) .directory := by
  rw [createDirectory] at h
  split at h
  · cases h
  · next place hlast =>
      split at h
      · cases h
      · cases h
        obtain ⟨n, d, hf⟩ := exists_of_lastPlace hlast
        obtain ⟨rfl, hnone⟩ : place = n :: d ∧ none = fs.node? (n :: d) := by simpa using hf
        exact ⟨n, d, hlast, hnone.symm, rfl⟩
  · cases h

lemma WellFormed.createDirectory (hfs : fs.WellFormed) (h : fs.createDirectory p = .ok fs') :
    fs'.WellFormed := by
  obtain ⟨n, d, hlast, hnone, rfl⟩ := exists_lastPlace_of_createDirectory h
  exact hfs.insert (isName_of_lastPlace hlast) (hfs.node?_of_lastPlace hlast) (by simp [hnone]) _

/-- Making directories keeps the tree. -/
theorem WellFormed.createUpwards (hfs : fs.WellFormed) (ps : List Path) :
    (fs.createUpwards ps).1.WellFormed := by
  induction ps generalizing fs with
  | nil => exact hfs
  | cons p above ih =>
      rw [FileSystem.createUpwards]
      split_ifs
      · exact hfs
      · split
        · next hmade => exact hfs.createDirectory hmade
        · have hup := ih hfs
          split
          · next h =>
              rw [h] at hup
              exact hup
          · next h =>
              rw [h] at hup
              split
              · next hmade => exact hup.createDirectory hmade
              · exact hup
        · exact hfs

/-- A directory that is made is put at a place where nothing was, and the path leads to it. -/
lemma createDirectory_eq_insert (h : fs.createDirectory p = .ok fs') :
    ∃ d, d ≠ [] ∧ fs.node? d = none ∧ fs' = fs.insert d .directory ∧ fs'.directory p = .ok d := by
  obtain ⟨n, d, hlast, hnone, rfl⟩ := exists_lastPlace_of_createDirectory h
  have hgrows := Grows.of_insert hnone (List.cons_ne_nil n d)
  refine ⟨n :: d, List.cons_ne_nil n d, hnone, rfl, ?_⟩
  obtain ⟨hnul, hne, above, m, d', hplain, hm, hwalk, hf⟩ := lastPlace_eq_ok_iff.mp hlast
  obtain ⟨rfl, rfl⟩ : n = m ∧ d = d' := by simpa using congrArg Found.place hf
  refine directory_eq_ok_iff.mpr (resolve_eq_ok_iff.mpr ⟨hnul, hne, walk_names_iff.mpr ?_⟩)
  obtain ⟨k, -, hgo⟩ := (hwalk.keep_directory hgrows.keeps rfl).append rfl
  rw [hplain, hgrows.keeps.startOf_eq]
  refine hgo _ _ _ (by simp) (.enter hm ?_ .done)
  rw [node?_insert _ (List.cons_ne_nil _ _), if_pos rfl]

/-- A directory that is made is there then, and was not before. -/
lemma createDirectory_ok (h : fs.createDirectory p = .ok fs') :
    Grows fs fs' ∧ ∃ d, fs.node? d = none ∧ fs'.directory p = .ok d := by
  obtain ⟨d, hne, hnone, rfl, hd⟩ := createDirectory_eq_insert h
  exact ⟨.of_insert hnone hne, d, hnone, hd⟩

lemma isDirectory_iff : fs.isDirectory p = true ↔ ∃ d, fs.directory p = .ok d := by
  rw [isDirectory, status, directory]
  rcases fs.resolve true p with e | ⟨place, _ | node⟩
  · simp
  · simp
  · cases node <;> simp

/-- Making directories makes directories, and in the end the one that is asked for is there. -/
lemma createUpwards_spec (ps : List Path) : Grows fs (fs.createUpwards ps).1 ∧
    ∀ p above, ps = p :: above → p.text ≠ [] → (fs.createUpwards ps).2 = .ok () →
      ∃ d, (fs.createUpwards ps).1.directory p = .ok d := by
  have hunless : ∀ {fs : FileSystem} {p : Path} {e : OsError},
      fs.unlessDirectory p e = .ok () → ∃ d, fs.directory p = .ok d := by
    intro fs p e h
    rw [unlessDirectory] at h
    split_ifs at h with hdir
    exact isDirectory_iff.mp hdir
  induction ps generalizing fs with
  | nil => exact ⟨.refl fs, by simp⟩
  | cons p above ih =>
      rw [createUpwards]
      split_ifs with hempty
      · refine ⟨.refl fs, fun p' above' heq hne => absurd ?_ hne⟩
        obtain ⟨rfl, -⟩ := List.cons.inj heq
        exact List.isEmpty_iff.mp hempty
      · have hhead : ∀ {out : FileSystem × Except OsError Unit},
            (out.2 = .ok () → ∃ d, out.1.directory p = .ok d) →
            ∀ p' above', p :: above = p' :: above' → p'.text ≠ [] → out.2 = .ok () →
              ∃ d, out.1.directory p' = .ok d := by
          rintro out h p' above' heq - hok
          obtain ⟨rfl, -⟩ := List.cons.inj heq
          exact h hok
        split
        · next made hmade =>
            obtain ⟨hgrows, d, -, hdir⟩ := createDirectory_ok hmade
            exact ⟨hgrows, hhead fun _ => ⟨d, hdir⟩⟩
        · obtain ⟨hgrows, -⟩ : Grows fs (fs.createUpwards above).1 ∧ _ := ih
          split
          · next made e hup =>
              rw [hup] at hgrows
              exact ⟨hgrows, hhead fun h => by cases h⟩
          · next made hup =>
              rw [hup] at hgrows
              split
              · next made' hmade =>
                  obtain ⟨hgrows', d, -, hdir⟩ := createDirectory_ok hmade
                  exact ⟨hgrows.trans hgrows', hhead fun _ => ⟨d, hdir⟩⟩
              · exact ⟨hgrows, hhead hunless⟩
        · exact ⟨.refl fs, hhead hunless⟩

theorem createDirectories_grows (fs : FileSystem) (p : Path) :
    Grows fs (fs.createDirectories p).1 :=
  (createUpwards_spec p.ancestors).1

/-- Directories that are made without an error are there then. -/
theorem directory_of_createDirectories (hp : p.text ≠ [])
    (h : fs.createDirectories p = (out, .ok ())) : ∃ d, out.directory p = .ok d := by
  obtain ⟨-, hdir⟩ := @createUpwards_spec fs p.ancestors
  rw [← createDirectories, h] at hdir
  exact hdir p p.parents rfl hp rfl

/-- The entry of a path that leads to a directory is there, or the path has none. -/
lemma lastPlace_of_directory (h : fs.directory p = .ok d) (inUse : OsError) :
    fs.lastPlace p inUse = .error inUse ∨ ∃ q n, fs.lastPlace p inUse = .ok ⟨q, some n⟩ := by
  obtain ⟨hnul, hne, hwalk⟩ := resolve_eq_ok_iff.mp (directory_eq_ok_iff.mp h)
  rw [walk_names_iff] at hwalk
  rcases List.eq_nil_or_concat (plainNames p) with hnil | ⟨above, n, hplain⟩
  · left
    rw [lastPlace, if_neg hnul, if_neg (by simpa using hne), hnil]
    rfl
  · rw [List.concat_eq_append] at hplain
    rw [hplain] at hwalk
    obtain ⟨d', hd', k, -, hlast⟩ := hwalk.split (by simp)
    have hentry : IsEntryName n → fs.lastPlace p inUse = .ok ⟨n :: d', fs.node? (n :: d')⟩ :=
      fun hn => lastPlace_eq_ok_iff.mpr ⟨hnul, hne, _, _, _, hplain, hn, hd', rfl⟩
    have hdots : n = ['.'] ∨ n = ['.', '.'] → fs.lastPlace p inUse = .error inUse := by
      intro hn
      have hdot : fs.walk true maxLinks (startOf p fs.current) (above ++ [['.']]) =
          .ok ⟨d', some .directory⟩ := walk_eq_ok_iff.mpr (Walk.append_dot_iff.mpr ⟨hd', rfl⟩)
      rw [lastPlace, if_neg hnul, if_neg (by simpa using hne), hplain, List.reverse_append]
      simp [hdot, hn]
    cases hlast with
    | stay _ => exact .inl (hdots (.inl rfl))
    | up _ => exact .inl (hdots (.inr rfl))
    | enter hn hnode _ => exact .inr ⟨_, _, hnode ▸ hentry hn⟩
    | through hn hnode _ _ => exact .inr ⟨_, _, hnode ▸ hentry hn⟩

/-- Where there is a directory, nothing is made. -/
lemma createUpwards_of_directory (h : fs.directory p = .ok d) (above : List Path) :
    fs.createUpwards (p :: above) = (fs, .ok ()) := by
  have hdir : fs.isDirectory p = true := isDirectory_iff.mpr ⟨d, h⟩
  obtain ⟨-, hne, -⟩ := resolve_eq_ok_iff.mp (directory_eq_ok_iff.mp h)
  have hcreate : fs.createDirectory p = .error .alreadyExists := by
    rw [createDirectory]
    rcases lastPlace_of_directory h .alreadyExists with hlast | ⟨q, n, hlast⟩ <;> rw [hlast]
  rw [createUpwards, if_neg (by simpa using hne), hcreate]
  simp [unlessDirectory, hdir]

theorem createDirectories_of_directory (h : fs.directory p = .ok d) :
    fs.createDirectories p = (fs, .ok ()) :=
  createUpwards_of_directory h p.parents

/-- The files once the directories above a path are made, as far as they can be. -/
def withDirectories (fs : FileSystem) (p : Path) : FileSystem :=
  (fs.createDirectories p.directory).1

lemma withDirectories_grows (fs : FileSystem) (p : Path) : Grows fs (fs.withDirectories p) :=
  createDirectories_grows fs p.directory

lemma WellFormed.withDirectories (hfs : fs.WellFormed) (p : Path) :
    (fs.withDirectories p).WellFormed :=
  hfs.createUpwards p.directory.ancestors

/-- The entry that a file written under a path takes, once the directories above it are made, and
what is there then. -/
def destination (fs : FileSystem) (p : Path) : Option Found :=
  match (fs.withDirectories p).lastPlace p .busy with
  | .ok f => some f
  | .error _ => none

lemma destination_eq_some_iff {f : Found} :
    fs.destination p = some f ↔ (fs.withDirectories p).lastPlace p .busy = .ok f := by
  rw [destination]
  split <;> simp_all

/-- Where the directory of a path exists, nothing is made. -/
lemma withDirectories_of_lastPlace {f : Found} (h : fs.lastPlace p inUse = .ok f)
    (hslash : p.text.getLast? ≠ some '/') : fs.withDirectories p = fs := by
  obtain ⟨n, d, rfl⟩ := exists_of_lastPlace h
  rw [withDirectories, createDirectories_of_directory (directory_directory h hslash)]

/-- Where the directory of a path exists, its entry is the destination. -/
lemma destination_of_lastPlace {f : Found} (h : fs.lastPlace p inUse = .ok f)
    (hslash : p.text.getLast? ≠ some '/') : fs.destination p = some f := by
  rw [destination_eq_some_iff, withDirectories_of_lastPlace h hslash]
  exact lastPlace_congr h _

/-! ### Writing -/

lemma node?_freshName (fs : FileSystem) (d : Place) : fs.node? (fs.freshName d :: d) = none := by
  have hmax : ∀ (ns : List Name) (k : Nat), k ≤ ns.foldl (fun k n => max k n.length) k ∧
      ∀ n ∈ ns, n.length ≤ ns.foldl (fun k n => max k n.length) k := by
    intro ns
    induction ns with
    | nil => simp
    | cons m ns ih =>
        intro k
        obtain ⟨hk, hns⟩ := ih (max k m.length)
        refine ⟨by rw [List.foldl_cons]; omega, fun n hn => ?_⟩
        rw [List.foldl_cons]
        rcases List.mem_cons.mp hn with rfl | hn
        · omega
        · exact hns n hn
  by_contra hnode
  have hlength := (hmax (fs.childNames d) 0).2 _ (mem_childNames.mpr hnode)
  rw [freshName, List.length_append, List.length_replicate] at hlength
  have : ".tmp".toList.length = 4 := by decide
  omega

/-- A new file does not matter to where the entries of paths are. -/
lemma lastPlace_of_write {b : ByteArray} {m : Nat} {f : Found} (hcurrent : fs'.current = fs.current)
    (hnode : ∀ x, fs'.node? x = if x = q then some (.file b m) else fs.node? x)
    (h : fs'.lastPlace p .busy = .ok f) :
    fs.lastPlace p .busy = .ok ⟨f.place, fs.node? f.place⟩ := by
  have hsame : ∀ x node, (∀ b m, node ≠ .file b m) → fs'.node? x = some node →
      fs.node? x = some node := by
    intro x node hfile hx
    rw [hnode] at hx
    split_ifs at hx
    · exact absurd (Option.some_injective _ hx).symm (hfile b m)
    · exact hx
  exact lastPlace_transfer hcurrent.symm (fun x => hsame x _ (by simp))
    (fun x target => hsame x _ (by simp)) h

/-- A file takes the place of an entry that is no directory, if the step does not fail by itself. -/
lemma replaceWith_of_lastPlace {f : Found} {n : Node} (h : fs.lastPlace p .busy = .ok f)
    (hslash : p.text.getLast? ≠ some '/') (hdir : f.node? ≠ some .directory)
    (hn : fs.node? q = some n) : fs.replaceWith q p =
      match fs.volume.fault? .rename f.place with
      | some e => .error e
      | none => .ok ((fs.erase q).insert f.place n) := by
  rw [replaceWith, h]
  simp only
  rw [if_neg (by simpa using hslash), if_neg hdir]
  cases fs.volume.fault? .rename f.place with
  | some e => rfl
  | none => simp only [hn]

lemma replaceWith_eq_ok_iff : fs.replaceWith q p = .ok out ↔
    ∃ f n, fs.lastPlace p .busy = .ok f ∧ p.text.getLast? ≠ some '/' ∧ f.node? ≠ some .directory ∧
      fs.volume.fault? .rename f.place = none ∧ fs.node? q = some n ∧
      out = (fs.erase q).insert f.place n := by
  constructor
  · intro h
    rw [replaceWith] at h
    split at h
    · cases h
    · next place node? hlast =>
        split_ifs at h with hslash hdir
        split at h
        · cases h
        · next hfault =>
            split at h
            · cases h
            · next n hn =>
                cases h
                exact ⟨_, n, hlast, by simpa using hslash, hdir, hfault, hn, rfl⟩
  · rintro ⟨f, n, hlast, hslash, hdir, hfault, hn, rfl⟩
    rw [replaceWith_of_lastPlace hlast hslash hdir hn, hfault]

/-! ### Entries that are put and taken away -/

lemma put_put (q : Place) (n n' : Node) (es : List (Place × Node)) :
    put q n (put q n' es) = put q n es := by
  induction es with
  | nil => simp [put]
  | cons e es ih =>
      obtain ⟨r, k⟩ := e
      by_cases hr : r = q
      · simp [put, hr]
      · simp [put, hr, ih]

lemma insert_insert (fs : FileSystem) (q : Place) (n n' : Node) :
    (fs.insert q n').insert q n = fs.insert q n := by
  rw [insert, insert, put_put, insert]

/-- A new entry that is taken away leaves the tree as it was. -/
lemma erase_insert (hne : q ≠ []) (h : fs.node? q = none) (n : Node) :
    (fs.insert q n).erase q = fs := by
  have hlookup : lookup q fs.entries = none := by rwa [node?, if_neg hne] at h
  have hkept : (fs.entries.filter fun e => e.1 ≠ q) = fs.entries := by
    refine List.filter_eq_self.mpr fun e he => ?_
    have hplace : e.1 ≠ q := by
      rintro rfl
      exact notMem_of_lookup hlookup (List.mem_map_of_mem he)
    simpa using hplace
  rw [erase, insert]
  simp only [put_of_lookup hlookup, List.filter_append, hkept]
  simp

/-! ### The steps of a write -/

/-- The files with the new file that a write makes beside the old one. -/
def withTemporary (made : FileSystem) (d : Place) (b : ByteArray) (m : Nat) : FileSystem :=
  made.insert (made.freshName d :: d) (.file b m)

lemma node?_withTemporary (made : FileSystem) (d : Place) (b : ByteArray) (m : Nat) (x : Place) :
    (made.withTemporary d b m).node? x =
      if x = made.freshName d :: d then some (.file b m) else made.node? x :=
  node?_insert _ (List.cons_ne_nil _ _) _ _

lemma erase_withTemporary (made : FileSystem) (d : Place) (b : ByteArray) (m : Nat) :
    (made.withTemporary d b m).erase (made.freshName d :: d) = made :=
  erase_insert (List.cons_ne_nil _ _) (node?_freshName made d) _

/-- A new file is made and filled, or one of the steps fails by itself. -/
lemma writeAtomically_eq_of_directories (hmade : fs.createDirectories p.directory = (made, .ok ()))
    (hd : made.directory p.directory = .ok d) (t : Text) : fs.writeAtomically p t =
      match made.volume.fillError? p (entryIn p d) with
      | some e => (made, .error e)
      | none =>
        match (made.withTemporary d (bytesOf t) (made.modeFor p)).replaceWith
            (made.freshName d :: d) p with
        | .error e => (made, .error (.file p e))
        | .ok out => (out, .ok ()) := by
  have herase := erase_withTemporary made d
  have hnode : ∀ b m, (made.insert (made.freshName d :: d) (.file b m)).node?
      (made.freshName d :: d) = some (.file b m) := fun b m =>
    (node?_insert _ (List.cons_ne_nil _ _) _ _).trans (if_pos rfl)
  have hvolume : ∀ q n, (made.insert q n).volume = made.volume := fun _ _ => rfl
  simp only [withTemporary] at herase ⊢
  rw [writeAtomically, hmade]
  simp only [createTemporary, hd, Volume.fillError?]
  cases htemporary : made.volume.fault? .temporary (entryIn p d) with
  | some e => rfl
  | none =>
      simp only [fillTemporary, hvolume, List.tail_cons, Option.map_none, Option.none_or]
      cases hcontent : made.volume.fault? .content (entryIn p d) with
      | some e => simp only [herase, Option.map_some, Option.some_or]
      | none =>
          simp only [permitTemporary, insert_insert, hnode, hvolume, List.tail_cons,
            Option.map_none, Option.none_or]
          cases hpermit : made.volume.fault? .mode (entryIn p d) with
          | some e => simp only [herase, Option.map_some]
          | none =>
              simp only [Option.map_none]
              split <;> simp only [*]

lemma directory_text_ne_nil (p : Path) : p.directory.text ≠ [] := by
  rw [Path.directory]
  split
  · split_ifs with hempty
    · exact List.cons_ne_nil _ _
    · simpa using hempty
  · exact List.cons_ne_nil _ _

/-- The ways in which a write goes: the directories cannot be made; or they are made, and then a
step fails by itself, or the new file cannot take the place of the entry, or it does. Only the last
one leaves more than the directories. -/
lemma writeAtomically_cases (fs : FileSystem) (p : Path) (t : Text)
    (hmade : fs.withDirectories p = made) (hmode : made.modeFor p = m) :
    (∃ e, fs.createDirectories p.directory = (made, .error e) ∧
      fs.writeAtomically p t = (made, .error (.directory p.directory e))) ∨
    ∃ d, fs.createDirectories p.directory = (made, .ok ()) ∧
      made.directory p.directory = .ok d ∧
      ((∃ e, made.volume.fillError? p (entryIn p d) = some e ∧
        fs.writeAtomically p t = (made, .error e)) ∨
      made.volume.fillError? p (entryIn p d) = none ∧
        ((∃ e, (made.withTemporary d (bytesOf t) m).replaceWith (made.freshName d :: d) p =
            .error e ∧ fs.writeAtomically p t = (made, .error (.file p e))) ∨
        ∃ out, (made.withTemporary d (bytesOf t) m).replaceWith (made.freshName d :: d) p =
            .ok out ∧ fs.writeAtomically p t = (out, .ok ()))) := by
  subst hmode
  rw [withDirectories] at hmade
  rcases hcreate : fs.createDirectories p.directory with ⟨made', e | ⟨⟩⟩
  · rw [hcreate] at hmade
    obtain rfl : made' = made := hmade
    left
    refine ⟨e, rfl, ?_⟩
    rw [writeAtomically, hcreate]
  · rw [hcreate] at hmade
    obtain rfl : made' = made := hmade
    obtain ⟨d, hd⟩ := directory_of_createDirectories (directory_text_ne_nil p) hcreate
    right
    refine ⟨d, rfl, hd, ?_⟩
    rw [writeAtomically_eq_of_directories hcreate hd]
    cases hfill : made'.volume.fillError? p (entryIn p d) with
    | some e => exact .inl ⟨e, rfl, rfl⟩
    | none =>
        right
        refine ⟨rfl, ?_⟩
        cases hreplace : (made'.withTemporary d (bytesOf t) (made'.modeFor p)).replaceWith
            (made'.freshName d :: d) p with
        | error e => exact .inl ⟨e, rfl, rfl⟩
        | ok out => exact .inr ⟨out, rfl, rfl⟩

/-- A write that fails leaves the directories that it made, and nothing else. -/
theorem writeAtomically_error {e : WriteError} (h : fs.writeAtomically p t = (out, .error e)) :
    out = fs.withDirectories p := by
  rcases writeAtomically_cases fs p t rfl rfl with ⟨e', -, herror⟩ |
    ⟨d, -, -, ⟨e', -, herror⟩ | ⟨-, ⟨e', -, herror⟩ | ⟨out', -, hwrite⟩⟩⟩
  · exact (Prod.mk.inj (h.symm.trans herror)).1
  · exact (Prod.mk.inj (h.symm.trans herror)).1
  · exact (Prod.mk.inj (h.symm.trans herror)).1
  · cases hwrite.symm.trans h

/-- The entry of a path is the one that a write under it is about. -/
lemma entryIn_of_lastPlace {n : Name} {node? : Option Node}
    (h : fs.lastPlace p inUse = .ok ⟨n :: d, node?⟩) (d' : Place) : entryIn p d' = n :: d' := by
  obtain ⟨-, -, above, last, d'', hplain, -, -, hf⟩ := lastPlace_eq_ok_iff.mp h
  obtain ⟨rfl, -⟩ : n = last ∧ d = d'' := by simpa using congrArg Found.place hf
  rw [entryIn, hplain]
  simp

/-- A write that does not fail puts the file in the place of the entry, and keeps all other
entries. -/
theorem writeAtomically_eq_ok (h : fs.writeAtomically p t = (out, .ok ())) :
    ∃ f, (fs.withDirectories p).lastPlace p .busy = .ok f ∧ p.text.getLast? ≠ some '/' ∧
      f.node? ≠ some .directory ∧ fs.volume.writeError? p f.place = none ∧
      out = (fs.withDirectories p).insert f.place
        (.file (bytesOf t) ((fs.withDirectories p).modeFor p)) := by
  have hvolume := (withDirectories_grows fs p).volume
  rcases writeAtomically_cases fs p t rfl rfl with ⟨e, -, herror⟩ |
    ⟨d, -, hd, ⟨e, -, herror⟩ | ⟨hfill, ⟨e, -, herror⟩ | ⟨out', hreplace, hwrite⟩⟩⟩
  · cases h.symm.trans herror
  · cases h.symm.trans herror
  · cases h.symm.trans herror
  · cases h.symm.trans hwrite
    generalize fs.withDirectories p = made at *
    obtain ⟨f, node, hlast, hslash, hdir, hrename, hn, rfl⟩ := replaceWith_eq_ok_iff.mp hreplace
    obtain ⟨n, d', rfl⟩ := exists_of_lastPlace hlast
    have hcurrent : (made.withTemporary d (bytesOf t) (made.modeFor p)).current = made.current :=
      rfl
    have hentry := lastPlace_of_write hcurrent (node?_withTemporary made d _ _) hlast
    obtain rfl : d = d' := Except.ok.inj (hd.symm.trans (directory_directory hentry hslash))
    rw [entryIn_of_lastPlace hentry] at hfill
    rw [node?_withTemporary, if_pos rfl] at hn
    obtain rfl := Option.some_injective _ hn
    refine ⟨_, hentry, hslash, ?_, ?_, by rw [erase_withTemporary]⟩
    · intro hmade
      refine hdir ?_
      simp only [node?_withTemporary]
      rw [if_neg]
      · exact hmade
      · intro heq
        rw [heq, node?_freshName] at hmade
        cases hmade
    · have hthen : made.volume.fault? .rename (n :: d) = none := hrename
      rw [← hvolume, Volume.writeError?, hfill, hthen]
      rfl

/-- A change that makes the directories above a path, and puts a file in the place of the entry of
the path, which is no directory. -/
structure Puts (fs : FileSystem) (p : Path) (b : ByteArray) (f : Found) (out : FileSystem) :
    Prop where
  entry : (fs.withDirectories p).lastPlace p .busy = .ok f
  noDirectory : f.node? ≠ some .directory
  noSlash : p.text.getLast? ≠ some '/'
  current : out.current = (fs.withDirectories p).current
  volume : out.volume = (fs.withDirectories p).volume
  node? : ∀ x, out.node? x =
    if x = f.place then some (.file b ((fs.withDirectories p).modeFor p))
    else (fs.withDirectories p).node? x

theorem writeAtomically_ok (h : fs.writeAtomically p t = (out, .ok ())) :
    ∃ f, Puts fs p (bytesOf t) f out := by
  obtain ⟨f, hlast, hslash, hdir, -, rfl⟩ := writeAtomically_eq_ok h
  exact ⟨f, hlast, hdir, hslash, rfl, rfl,
    fun x => node?_insert _ (place_ne_nil_of_lastPlace hlast) x _⟩

namespace Puts

variable {b : ByteArray} {f : Found} (h : Puts fs p b f out)
include h

lemma destination_eq : fs.destination p = some f := destination_eq_some_iff.mpr h.entry

lemma node?_place : ∃ m, out.node? f.place = some (.file b m) :=
  ⟨_, (h.node? f.place).trans (if_pos rfl)⟩

lemma node?_of_ne (hq : q ≠ f.place) : out.node? q = (fs.withDirectories p).node? q :=
  (h.node? q).trans (if_neg hq)

lemma node?_entry : f.node? = (fs.withDirectories p).node? f.place := node?_of_lastPlace h.entry

/-- Paths lead where they did if no directory is found through the entry. -/
theorem keeps (hlink : ∀ target, f.node? = some (.link target) →
    ¬ (fs.withDirectories p).IsPassage f.place) : Keeps (fs.withDirectories p) out := by
  refine .of_write h.current h.node? ?_ ?_
  · rw [← h.node?_entry]
    exact h.noDirectory
  · intro target htarget
    rw [← h.node?_entry] at htarget
    exact hlink target htarget

/-- A path that does not go through its own entry on the way has the same entry after the write. -/
lemma lastPlace_eq
    (hway : ((fs.withDirectories p).erase f.place).lastPlace p .busy = .ok ⟨f.place, none⟩) :
    out.lastPlace p .busy = .ok ⟨f.place, out.node? f.place⟩ := by
  have hentry : f.place ≠ [] := place_ne_nil_of_lastPlace h.entry
  have hsame : ∀ x node, ((fs.withDirectories p).erase f.place).node? x = some node →
      out.node? x = some node := by
    intro x node hx
    rw [node?_erase _ hentry] at hx
    split_ifs at hx with hxf
    rw [h.node?_of_ne hxf, hx]
  have hcurrent : out.current = ((fs.withDirectories p).erase f.place).current := h.current
  exact lastPlace_transfer (f := ⟨f.place, none⟩) hcurrent (fun x => hsame x _)
    (fun x target => hsame x _) hway

/-- The path leads to the file if it does not go through its own entry on the way. -/
theorem resolve_eq
    (hway : ((fs.withDirectories p).erase f.place).lastPlace p .busy = .ok ⟨f.place, none⟩) :
    ∃ m, out.resolve true p = .ok ⟨f.place, some (.file b m)⟩ := by
  obtain ⟨m, hm⟩ := h.node?_place
  have hlast := h.lastPlace_eq hway
  rw [hm] at hlast
  exact ⟨m, resolve_of_lastPlace hlast h.noSlash (.inr ⟨b, m, rfl⟩)⟩

/-- A path does not go through its own entry if that is no link. -/
theorem lastPlace_erase (hlink : ∀ target, f.node? ≠ some (.link target)) :
    ((fs.withDirectories p).erase f.place).lastPlace p .busy = .ok ⟨f.place, none⟩ := by
  have hentry : f.place ≠ [] := place_ne_nil_of_lastPlace h.entry
  have hsame : ∀ x node, f.node? ≠ some node → (fs.withDirectories p).node? x = some node →
      ((fs.withDirectories p).erase f.place).node? x = some node := by
    intro x node hfnode hx
    rw [node?_erase _ hentry, if_neg, hx]
    rintro rfl
    exact hfnode (h.node?_entry.trans hx)
  have hcurrent : ((fs.withDirectories p).erase f.place).current =
      (fs.withDirectories p).current := rfl
  have hlast := lastPlace_transfer hcurrent (fun x => hsame x _ h.noDirectory)
    (fun x target => hsame x _ (hlink target)) h.entry
  rwa [node?_erase _ hentry, if_pos rfl] at hlast

end Puts

/-! ### Writing at a place -/

/-- A write under the path of a file that was there, in a tree whose directories are there still,
changes the content of that file and nothing else. -/
theorem Puts.of_ofPlace {n : Name} {node : Node} {b : ByteArray} {m : Nat} {bytes : ByteArray}
    {f : Found} (hfs : fs.WellFormed) (h : fs.node? (n :: d) = some node)
    (hkept : ∀ q, fs.node? q = some .directory → fs'.node? q = some .directory)
    (hnode : fs'.node? (n :: d) = some (.file b m))
    (hputs : Puts fs' (.ofPlace (n :: d)) bytes f out) : out.current = fs'.current ∧
      ∀ q, out.node? q = if q = n :: d then some (.file bytes m) else fs'.node? q := by
  obtain ⟨hlast, hslash⟩ := hfs.lastPlace_ofPlace h hkept .busy
  have hmade := withDirectories_of_lastPlace hlast hslash
  have hf : f = ⟨n :: d, some (.file b m)⟩ := by
    have hentry := hputs.entry
    rw [hmade, hlast, hnode] at hentry
    exact (Except.ok.inj hentry).symm
  have hmode : fs'.modeFor (.ofPlace (n :: d)) = m := by
    rw [hnode] at hlast
    rw [modeFor, resolve_of_lastPlace hlast hslash (.inr ⟨b, m, rfl⟩)]
  refine ⟨hputs.current.trans (by rw [hmade]), fun q => ?_⟩
  rw [hputs.node? q, hmade, hmode, hf]

/-- A write under such a path that fails changes nothing. -/
theorem eq_of_writeAtomically_error {n : Name} {node : Node} {e : WriteError}
    (hfs : fs.WellFormed) (h : fs.node? (n :: d) = some node)
    (hkept : ∀ q, fs.node? q = some .directory → fs'.node? q = some .directory)
    (herror : fs'.writeAtomically (.ofPlace (n :: d)) t = (out, .error e)) : out = fs' := by
  obtain ⟨hlast, hslash⟩ := hfs.lastPlace_ofPlace h hkept .busy
  rw [writeAtomically_error herror, withDirectories_of_lastPlace hlast hslash]

/-! ### Changes of some entries -/

/-- A change of the entries at some places that keeps walks. -/
structure Alters (places : List Place) (fs fs' : FileSystem) : Prop where
  keeps : Keeps fs fs'
  node? : ∀ q ∉ places, fs'.node? q = fs.node? q

lemma Puts.alters {b : ByteArray} {f : Found} (h : Puts fs p b f out)
    (hlink : ∀ target, f.node? = some (.link target) →
      ¬ (fs.withDirectories p).IsPassage f.place) :
    Alters [f.place] (fs.withDirectories p) out where
  keeps := h.keeps hlink
  node? _ hq := h.node?_of_ne (by simpa using hq)

namespace Alters

variable {places places' : List Place}

lemma refl (fs : FileSystem) (places : List Place) : Alters places fs fs :=
  ⟨.refl fs, fun _ _ => rfl⟩

lemma trans {fs'' : FileSystem} (h : Alters places fs fs') (h' : Alters places' fs' fs'') :
    Alters (places ++ places') fs fs'' where
  keeps := h.keeps.trans h'.keeps
  node? q hq := by
    rw [List.mem_append, not_or] at hq
    rw [h'.node? q hq.2, h.node? q hq.1]

end Alters

end FileSystem

end Externalize
