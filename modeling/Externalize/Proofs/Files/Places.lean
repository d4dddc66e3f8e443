import Externalize.Proofs.Files.Names
import Externalize.Proofs.Files.Walk

/-
The places that paths lead to.

* `FileSystem.resolve_eq_ok_iff`, `FileSystem.status_eq_ok_iff`, `FileSystem.directory_eq_ok_iff`,
  `FileSystem.lastPlace_eq_ok_iff`: what paths lead to, by walks.
* `FileSystem.lastPlace_of_resolve`: a path that leads to a file has an entry, which is that file or
  a link through which no directory is found.
* `FileSystem.resolve_transfer`, `FileSystem.lastPlace_transfer`: paths lead where they did, and
  have the entries that they had, if directories and links are the same.
* `FileSystem.Keeps.directory_eq`, `FileSystem.Keeps.lastPlace_eq`,
  `FileSystem.Keeps.resolve_file`: paths lead where they did after a change that keeps walks.
* `FileSystem.directory_directory`: the directory of a path is the one that its entry is in.
* `FileSystem.WellFormed`: the file systems that can be.
-/
namespace Externalize.FileSystem

variable {fs fs' : FileSystem} {follow : Bool} {p : Path} {q d : Place} {f : Found}
  {inUse : OsError}

/-! ### Paths by walks -/

theorem resolve_eq_ok_iff : fs.resolve follow p = .ok f ↔
    '\x00' ∉ p.text ∧ p.text ≠ [] ∧
      Walk fs follow maxLinks (startOf p fs.current) p.names f := by
  rw [resolve]
  split_ifs with hnul hempty
  · simp [hnul]
  · simp only [List.isEmpty_iff] at hempty
    simp [hempty]
  · simp only [List.isEmpty_iff] at hempty
    simp [hnul, hempty, walk_eq_ok_iff]

lemma status_eq_ok_iff {n : Node} :
    fs.status p = .ok n ↔ ∃ q, fs.resolve true p = .ok ⟨q, some n⟩ := by
  rw [status]
  rcases fs.resolve true p with e | ⟨q, _ | node⟩ <;> simp

theorem directory_eq_ok_iff :
    fs.directory p = .ok d ↔ fs.resolve true p = .ok ⟨d, some .directory⟩ := by
  rw [directory]
  split <;> simp_all

/-- A step to the place itself at the end of a path does not change the directory it leads to. -/
lemma walk_names_iff : Walk fs true maxLinks (startOf p fs.current) p.names ⟨d, some .directory⟩ ↔
    Walk fs true maxLinks (startOf p fs.current) (plainNames p) ⟨d, some .directory⟩ := by
  rw [Path.names_eq]
  split_ifs
  · rw [Walk.append_dot_iff]
    simp
  · rfl

theorem lastPlace_eq_ok_iff : fs.lastPlace p inUse = .ok f ↔
    '\x00' ∉ p.text ∧ p.text ≠ [] ∧ ∃ above last d, plainNames p = above ++ [last] ∧
      IsEntryName last ∧ Walk fs true maxLinks (startOf p fs.current) above ⟨d, some .directory⟩ ∧
      f = ⟨last :: d, fs.node? (last :: d)⟩ := by
  rw [lastPlace]
  split_ifs with hnul hempty
  · simp [hnul]
  · simp only [List.isEmpty_iff] at hempty
    simp [hempty]
  · simp only [List.isEmpty_iff] at hempty
    simp only [hnul, not_false_eq_true, ne_eq, hempty, true_and]
    cases hnames : (plainNames p).reverse with
    | nil =>
        have hnil : plainNames p = [] := List.reverse_eq_nil_iff.mp hnames
        simp [hnil]
    | cons last above =>
        have hplain : plainNames p = above.reverse ++ [last] := by
          rw [← List.reverse_reverse (plainNames p), hnames, List.reverse_cons]
        have hcut : ∀ above' last', plainNames p = above' ++ [last'] →
            above' = above.reverse ∧ last' = last := by
          intro above' last' h
          rw [hplain] at h
          obtain ⟨h₁, h₂⟩ := List.append_inj' h rfl
          exact ⟨h₁.symm, (List.head_eq_of_cons_eq h₂).symm⟩
        constructor
        · intro h
          simp only at h
          split at h
          · cases h
          · next found hwalk =>
              obtain ⟨hwalk, hdir⟩ := Walk.append_dot_iff.mp (walk_eq_ok_iff.mp hwalk)
              obtain ⟨d, node⟩ := found
              obtain rfl : node = some .directory := hdir
              split_ifs at h with hdots hlong
              push Not at hdots
              cases h
              exact ⟨_, _, d, hplain, ⟨hdots.1, hdots.2, by omega⟩, hwalk, rfl⟩
        · rintro ⟨above', last', d, hplain', ⟨h₁, h₂, h₃⟩, hwalk, rfl⟩
          obtain ⟨rfl, rfl⟩ := hcut _ _ hplain'
          have hdot : fs.walk true maxLinks (startOf p fs.current) (above.reverse ++ [['.']]) =
              .ok ⟨d, some .directory⟩ :=
            walk_eq_ok_iff.mpr (Walk.append_dot_iff.mpr ⟨hwalk, rfl⟩)
          simp only [hdot, h₁, h₂, or_self, if_false]
          rw [if_neg (by omega)]

/-- An entry lies in a directory. -/
lemma exists_of_lastPlace (h : fs.lastPlace p inUse = .ok f) :
    ∃ n d, f = ⟨n :: d, fs.node? (n :: d)⟩ := by
  obtain ⟨-, -, -, n, d, -, -, -, hf⟩ := lastPlace_eq_ok_iff.mp h
  exact ⟨n, d, hf⟩

lemma place_ne_nil_of_lastPlace (h : fs.lastPlace p inUse = .ok f) : f.place ≠ [] := by
  obtain ⟨n, d, rfl⟩ := exists_of_lastPlace h
  exact List.cons_ne_nil n d

/-- What is at the entry of a path is there. -/
lemma node?_of_lastPlace (h : fs.lastPlace p inUse = .ok f) : f.node? = fs.node? f.place := by
  obtain ⟨n, d, rfl⟩ := exists_of_lastPlace h
  rfl

/-- The entry of a path does not depend on the error for paths without one. -/
lemma lastPlace_congr (h : fs.lastPlace p inUse = .ok f) (inUse' : OsError) :
    fs.lastPlace p inUse' = .ok f :=
  lastPlace_eq_ok_iff.mpr (lastPlace_eq_ok_iff.mp h)

/-! ### Entries and what they lead to -/

/-- A path whose entry is no link and no directory leads to its entry. -/
theorem resolve_of_lastPlace (h : fs.lastPlace p inUse = .ok f)
    (hslash : p.text.getLast? ≠ some '/')
    (hnode : f.node? = none ∨ ∃ b m, f.node? = some (.file b m)) :
    fs.resolve true p = .ok f := by
  obtain ⟨hnul, hne, above, n, d, hplain, hn, hwalk, rfl⟩ := lastPlace_eq_ok_iff.mp h
  refine resolve_eq_ok_iff.mpr ⟨hnul, hne, ?_⟩
  obtain ⟨k, -, hgo⟩ := hwalk.append rfl
  rw [Path.names_of_getLast? hslash, hplain]
  refine hgo _ _ _ (by simp) ?_
  rcases hnode with hnode | ⟨b, m, hnode⟩ <;> simp only at hnode <;> rw [hnode]
  · exact .missing hn hnode
  · exact .file hn hnode

/-- The last step to a file is made from the directory of the entry. -/
lemma exists_lastStep {b : ByteArray} {m : Nat}
    (h : fs.resolve follow p = .ok ⟨q, some (.file b m)⟩) :
    p.text.getLast? ≠ some '/' ∧ ∃ k d n, Walk fs follow k d [n] ⟨q, some (.file b m)⟩ ∧
      ∀ inUse, IsEntryName n → fs.lastPlace p inUse = .ok ⟨n :: d, fs.node? (n :: d)⟩ := by
  obtain ⟨hnul, hne, hwalk⟩ := resolve_eq_ok_iff.mp h
  have hslash : p.text.getLast? ≠ some '/' := by
    intro hslash
    rw [Path.names_eq, if_pos (by simpa using hslash)] at hwalk
    cases (Walk.append_dot_iff.mp hwalk).2
  refine ⟨hslash, ?_⟩
  rw [Path.names_of_getLast? hslash] at hwalk
  rcases List.eq_nil_or_concat (plainNames p) with hnil | ⟨above, n, hplain⟩
  · rw [hnil] at hwalk
    cases hwalk
  · rw [List.concat_eq_append] at hplain
    rw [hplain] at hwalk
    obtain ⟨d, hd, k, -, hlast⟩ := hwalk.split (List.cons_ne_nil n [])
    exact ⟨k, d, n, hlast, fun inUse hn =>
      lastPlace_eq_ok_iff.mpr ⟨hnul, hne, _, _, _, hplain, hn, hd, rfl⟩⟩

/-- A path that leads to a file has an entry: that file, or a link through which no directory is
found. -/
theorem lastPlace_of_resolve {b : ByteArray} {m : Nat}
    (h : fs.resolve true p = .ok ⟨q, some (.file b m)⟩) (inUse : OsError) :
    p.text.getLast? ≠ some '/' ∧ ∃ e, fs.lastPlace p inUse = .ok ⟨e, fs.node? e⟩ ∧
      (e = q ∧ fs.node? e = some (.file b m) ∨
        ∃ target, fs.node? e = some (.link target) ∧ ¬ fs.IsPassage e) := by
  obtain ⟨hslash, k, d, n, hlast, hentry⟩ := exists_lastStep h
  refine ⟨hslash, n :: d, ?_⟩
  cases hlast with
  | stay h => cases h
  | up h => cases h
  | file hn hnode => exact ⟨hentry inUse hn, .inl ⟨rfl, hnode⟩⟩
  | enter hn hnode h => cases h
  | @through k _ _ target _ _ hn hnode _ h =>
      rw [List.append_nil] at h
      exact ⟨hentry inUse hn, .inr ⟨target, hnode, not_isPassage_of_file hnode h⟩⟩

/-- What a path leads to is there, if it is no directory. -/
lemma node?_of_resolve {n : Node} (h : fs.resolve follow p = .ok ⟨q, some n⟩)
    (hn : n ≠ .directory) : fs.node? q = some n := by
  rcases (resolve_eq_ok_iff.mp h).2.2.node?_eq with hq | hq
  · exact hq.symm
  · exact absurd (Option.some_injective _ hq) hn

/-- A path of a directory with an entry in it has that entry at its end. -/
theorem lastPlace_join {n : Name} (hn : IsEntryName n) (hne : n ≠ []) (hslash : '/' ∉ n)
    (hnul : '\x00' ∉ n) (h : fs.directory p = .ok d) (inUse : OsError) :
    fs.lastPlace (p.join ⟨n⟩) inUse = .ok ⟨n :: d, fs.node? (n :: d)⟩ := by
  obtain ⟨hpnul, hpne, hwalk⟩ := resolve_eq_ok_iff.mp (directory_eq_ok_iff.mp h)
  refine lastPlace_eq_ok_iff.mpr ⟨(Path.nul_notMem_join hslash hpne).mpr ⟨hpnul, hnul⟩,
    Path.text_join_ne_nil hne hslash, plainNames p, n, d, ?_, hn, ?_, rfl⟩
  · rw [← Path.names_join p hne hslash,
      Path.names_of_getLast? (Path.getLast?_join hne hslash)]
  · rw [startOf, Path.isAbsolute_join hslash]
    exact walk_names_iff.mp hwalk

/-! ### Directories of paths -/

lemma walk_append_dots_iff {links : Nat} {here : Place} {ns : List Name} (k : Nat) :
    Walk fs true links here (ns ++ List.replicate k ['.']) ⟨d, some .directory⟩ ↔
      Walk fs true links here ns ⟨d, some .directory⟩ := by
  induction k with
  | zero => rw [List.replicate_zero, List.append_nil]
  | succ k ih =>
      rw [List.replicate_succ', ← List.append_assoc, Walk.append_dot_iff, ih]
      simp

/-- The directory of a path is the one that the entry of the path is in. -/
theorem directory_directory {n : Name} {node? : Option Node}
    (h : fs.lastPlace p inUse = .ok ⟨n :: d, node?⟩) (hslash : p.text.getLast? ≠ some '/') :
    fs.directory p.directory = .ok d := by
  obtain ⟨hnul, -, above, last, d', hplain, hn, hwalk, hf⟩ := lastPlace_eq_ok_iff.mp h
  obtain ⟨rfl, rfl⟩ : n = last ∧ d = d' := by simpa using congrArg Found.place hf
  obtain ⟨⟨ns, j, k, habove, hnames⟩, habs, hne, hnul'⟩ :=
    Path.names_directory hplain hn.1 hslash
  refine directory_eq_ok_iff.mpr (resolve_eq_ok_iff.mpr ⟨hnul' hnul, hne, ?_⟩)
  rw [habove, walk_append_dots_iff] at hwalk
  rw [hnames, walk_append_dots_iff, startOf, habs]
  exact hwalk

/-! ### Changes that keep walks -/

/-- A path leads where it did if directories and links are the same, and its end is. -/
lemma resolve_transfer (hcurrent : fs'.current = fs.current)
    (hdir : ∀ q, fs.node? q = some .directory → fs'.node? q = some .directory)
    (hlink : ∀ q target, fs.node? q = some (.link target) → fs'.node? q = some (.link target))
    (hp : fs.resolve follow p = .ok f)
    (hf : f.node? = some .directory ∨ fs'.node? f.place = fs.node? f.place) :
    fs'.resolve follow p = .ok f := by
  obtain ⟨hnul, hne, hwalk⟩ := resolve_eq_ok_iff.mp hp
  refine resolve_eq_ok_iff.mpr ⟨hnul, hne, ?_⟩
  rw [hcurrent]
  exact hwalk.transfer hdir hlink hf

/-- A path has the entry that it had if the directories that walks lead to are found still. -/
lemma lastPlace_of_forall_walk (hcurrent : fs'.current = fs.current)
    (hwalks : ∀ links here ns d, Walk fs true links here ns ⟨d, some .directory⟩ →
      Walk fs' true links here ns ⟨d, some .directory⟩)
    (hp : fs.lastPlace p inUse = .ok f) :
    fs'.lastPlace p inUse = .ok ⟨f.place, fs'.node? f.place⟩ := by
  obtain ⟨hnul, hne, above, n, d, hplain, hn, hwalk, rfl⟩ := lastPlace_eq_ok_iff.mp hp
  refine lastPlace_eq_ok_iff.mpr ⟨hnul, hne, above, n, d, hplain, hn, ?_, rfl⟩
  rw [hcurrent]
  exact hwalks _ _ _ _ hwalk

/-- A path has the entry that it had if directories and links are the same. -/
lemma lastPlace_transfer (hcurrent : fs'.current = fs.current)
    (hdir : ∀ q, fs.node? q = some .directory → fs'.node? q = some .directory)
    (hlink : ∀ q target, fs.node? q = some (.link target) → fs'.node? q = some (.link target))
    (hp : fs.lastPlace p inUse = .ok f) :
    fs'.lastPlace p inUse = .ok ⟨f.place, fs'.node? f.place⟩ :=
  lastPlace_of_forall_walk hcurrent (fun _ _ _ _ h => h.transfer hdir hlink (.inl rfl)) hp

namespace Keeps

lemma trans {fs'' : FileSystem} (h : Keeps fs fs') (h' : Keeps fs' fs'') : Keeps fs fs'' where
  current := h'.current.trans h.current
  directory p hp := h'.directory p (h.directory p hp)
  file p b m hp := by
    obtain ⟨b', m', hp'⟩ := h.file p b m hp
    exact h'.file p b' m' hp'
  link p target hp := by
    rcases h.link p target hp with hp' | ⟨hpassage, b, m, hp'⟩
    · refine (h'.link p target hp').imp id fun ⟨hpassage, hfile⟩ => ⟨?_, hfile⟩
      rintro ⟨target', k, rest, d, hnode, hd⟩
      obtain rfl : target = target' := by simpa [hp] using hnode
      exact hpassage ⟨target, k, rest, d, hp', hd.keep_directory h rfl⟩
    · exact .inr ⟨hpassage, h'.file p b m hp'⟩

/-- A change of one entry that is no directory, and no link through which one is found. -/
lemma of_write {b : ByteArray} {m : Nat} (hcurrent : fs'.current = fs.current)
    (hnode : ∀ x, fs'.node? x = if x = q then some (.file b m) else fs.node? x)
    (hdir : fs.node? q ≠ some .directory)
    (hlink : ∀ target, fs.node? q = some (.link target) → ¬ fs.IsPassage q) : Keeps fs fs' where
  current := hcurrent
  directory x hx := by
    rw [hnode, if_neg (by rintro rfl; exact hdir hx)]
    exact hx
  file x b' m' hx := by
    rw [hnode]
    split_ifs
    · exact ⟨b, m, rfl⟩
    · exact ⟨b', m', hx⟩
  link x target hx := by
    rw [hnode]
    split_ifs with hq
    · subst hq
      exact .inr ⟨hlink target hx, b, m, rfl⟩
    · exact .inl hx

variable (h : Keeps fs fs')
include h

lemma startOf_eq (p : Path) : startOf p fs'.current = startOf p fs.current := by
  rw [h.current]

theorem directory_eq (hd : fs.directory p = .ok d) : fs'.directory p = .ok d := by
  obtain ⟨hnul, hne, hwalk⟩ := resolve_eq_ok_iff.mp (directory_eq_ok_iff.mp hd)
  refine directory_eq_ok_iff.mpr (resolve_eq_ok_iff.mpr ⟨hnul, hne, ?_⟩)
  rw [h.startOf_eq]
  exact hwalk.keep_directory h rfl

/-- A path has the entry that it had. -/
lemma lastPlace_eq (hp : fs.lastPlace p inUse = .ok f) :
    fs'.lastPlace p inUse = .ok ⟨f.place, fs'.node? f.place⟩ :=
  lastPlace_of_forall_walk h.current (fun _ _ _ _ hwalk => hwalk.keep_directory h rfl) hp

/-- A path that leads to a file does so still. -/
theorem resolve_file {b : ByteArray} {m : Nat}
    (hf : fs.resolve true p = .ok ⟨q, some (.file b m)⟩) :
    ∃ q' b' m', fs'.resolve true p = .ok ⟨q', some (.file b' m')⟩ ∧
      (q' = q ∨ ∃ target, fs.node? q' = some (.link target)) := by
  obtain ⟨hnul, hne, hwalk⟩ := resolve_eq_ok_iff.mp hf
  obtain ⟨q', b', m', hwalk', hq⟩ := hwalk.keep_file h ⟨b, m, rfl⟩
  refine ⟨q', b', m', resolve_eq_ok_iff.mpr ⟨hnul, hne, ?_⟩, hq⟩
  rw [h.startOf_eq]
  exact hwalk'

end Keeps

/-! ### File systems that can be -/

/-- A name that an entry can have. -/
def IsName (n : Name) : Prop := n ≠ [] ∧ '/' ∉ n ∧ '\x00' ∉ n ∧ IsEntryName n

instance (n : Name) : Decidable (IsEntryName n) := by unfold IsEntryName; infer_instance

instance (n : Name) : Decidable (IsName n) := by unfold IsName; infer_instance

/-- The names of a place, from the root down, lead to it through directories. -/
lemma walk_reverse (hnames : ∀ n ∈ d, IsEntryName n)
    (hdir : ∀ q, q <:+ d → fs.node? q = some .directory) (links : Nat) :
    Walk fs true links [] d.reverse ⟨d, some .directory⟩ := by
  induction d with
  | nil => exact .done
  | cons n d ih =>
      have htail := ih (fun m hm => hnames m (List.mem_cons_of_mem _ hm))
        (fun q hq => hdir q (hq.trans (List.suffix_cons n d)))
      obtain ⟨k, -, hgo⟩ := htail.append rfl
      rw [List.reverse_cons]
      refine hgo _ _ _ (by simp) ?_
      exact .enter (hnames n List.mem_cons_self) (hdir _ List.suffix_rfl) .done

/-- A tree of entries: one at each place, under a name that it can have and in a directory; the
working directory is one, and so is all that has a mode as one. -/
structure WellFormed (fs : FileSystem) : Prop where
  nodup : (fs.entries.map Prod.fst).Nodup
  names : ∀ e ∈ fs.entries, ∀ n ∈ e.1, IsName n
  parent : ∀ e ∈ fs.entries, fs.node? e.1.tail = some .directory
  current : fs.node? fs.current = some .directory
  modes : ∀ e ∈ fs.volume.modes, fs.node? e.1 = some .directory

instance (fs : FileSystem) : Decidable fs.WellFormed :=
  decidable_of_iff
    ((fs.entries.map Prod.fst).Nodup ∧ (∀ e ∈ fs.entries, ∀ n ∈ e.1, IsName n) ∧
      (∀ e ∈ fs.entries, fs.node? e.1.tail = some .directory) ∧
      fs.node? fs.current = some .directory ∧
      ∀ e ∈ fs.volume.modes, fs.node? e.1 = some .directory)
    ⟨fun h => ⟨h.1, h.2.1, h.2.2.1, h.2.2.2.1, h.2.2.2.2⟩,
      fun h => ⟨h.nodup, h.names, h.parent, h.current, h.modes⟩⟩

lemma mem_of_lookup {es : List (Place × Node)} {n : Node} (h : lookup q es = some n) :
    (q, n) ∈ es := by
  induction es with
  | nil => cases h
  | cons e es ih =>
      rw [lookup] at h
      split_ifs at h with he
      · cases h
        exact he ▸ List.mem_cons_self
      · exact List.mem_cons_of_mem _ (ih h)

/-- The entry of a path has a name that can be. -/
lemma isName_of_lastPlace {n : Name} {node? : Option Node}
    (h : fs.lastPlace p inUse = .ok ⟨n :: d, node?⟩) : IsName n := by
  obtain ⟨hnul, -, above, m, d', hplain, hm, -, hf⟩ := lastPlace_eq_ok_iff.mp h
  obtain ⟨rfl, rfl⟩ : n = m ∧ d = d' := by simpa using congrArg Found.place hf
  have hmem : n ∈ (Path.split p.text).filter fun s => !s.isEmpty := by
    rw [← plainNames_eq, hplain]
    simp
  obtain ⟨hsplit, hne⟩ := List.mem_filter.mp hmem
  refine ⟨by simpa using hne, Path.notMem_of_mem_split hsplit, fun hc => hnul ?_, hm⟩
  rw [← Path.unsplit_split p.text]
  exact Path.mem_unsplit hsplit hc

lemma mem_entries {n : Name} {node : Node} (h : fs.node? (n :: d) = some node) :
    (n :: d, node) ∈ fs.entries :=
  mem_of_lookup (by simpa [node?] using h)

namespace WellFormed

variable (hfs : fs.WellFormed)
include hfs

lemma isName {n m : Name} {node : Node} (h : fs.node? (n :: d) = some node) (hm : m ∈ n :: d) :
    IsName m :=
  hfs.names _ (mem_entries h) m hm

lemma node?_tail {n : Name} {node : Node} (h : fs.node? (n :: d) = some node) :
    fs.node? d = some .directory :=
  hfs.parent _ (mem_entries h)

/-- Nothing is below a place where nothing is. -/
lemma node?_cons_of_eq_none (h : fs.node? d = none) (n : Name) : fs.node? (n :: d) = none := by
  by_contra hcon
  obtain ⟨node, hnode⟩ := Option.ne_none_iff_exists'.mp hcon
  rw [hfs.node?_tail hnode] at h
  cases h

/-- What a walk finds is what is there. -/
lemma node?_of_walk {links : Nat} {here : Place} {ns : List Name}
    (h : Walk fs follow links here ns f) (hhere : fs.node? here = some .directory) :
    fs.node? f.place = f.node? := by
  induction h with
  | done => exact hhere
  | stay _ ih => exact ih hhere
  | @up _ here _ _ _ ih =>
      refine ih ?_
      cases here with
      | nil => exact hhere
      | cons n d => exact hfs.node?_tail hhere
  | missing _ hnode => exact hnode
  | file _ hnode => exact hnode
  | link _ hnode _ => exact hnode
  | enter _ hnode _ ih => exact ih hnode
  | @through _ here _ target _ _ _ _ _ _ ih =>
      refine ih ?_
      rw [startOf]
      split_ifs
      · rfl
      · exact hhere

lemma node?_start (p : Path) : fs.node? (startOf p fs.current) = some .directory := by
  rw [startOf]
  split_ifs
  · rfl
  · exact hfs.current

/-- What is above an entry is a directory. -/
lemma node?_of_suffix {q' : Place} (hq : fs.node? q = some .directory) (h : q' <:+ q) :
    fs.node? q' = some .directory := by
  induction q with
  | nil => rwa [List.suffix_nil.mp h]
  | cons n q ih =>
      rcases List.suffix_cons_iff.mp h with rfl | h
      · exact hq
      · exact ih (hfs.node?_tail hq) h

/-- The path of a place has the entry at the place, as long as directories stay. -/
theorem lastPlace_ofPlace {n : Name} {node : Node} (h : fs.node? (n :: d) = some node)
    (hkept : ∀ q, fs.node? q = some .directory → fs'.node? q = some .directory) (inUse : OsError) :
    fs'.lastPlace (.ofPlace (n :: d)) inUse = .ok ⟨n :: d, fs'.node? (n :: d)⟩ ∧
      (Path.ofPlace (n :: d)).text.getLast? ≠ some '/' := by
  have hnames : ∀ m ∈ n :: d, m ≠ [] ∧ '/' ∉ m := fun m hm =>
    ⟨(hfs.isName h hm).1, (hfs.isName h hm).2.1⟩
  obtain ⟨hplain, hslash⟩ := Path.names_ofPlace hnames
  rw [Path.names_of_getLast? hslash, List.reverse_cons] at hplain
  refine ⟨lastPlace_eq_ok_iff.mpr ⟨?_, ?_, d.reverse, n, d, hplain, ?_, ?_, rfl⟩, hslash⟩
  · rw [Path.text_ofPlace_cons]
    intro hmem
    rcases Path.mem_of_mem_unsplit hmem with hc | ⟨m, hm, hc⟩
    · exact absurd hc (by decide)
    · rcases List.mem_cons.mp hm with rfl | hm
      · exact List.not_mem_nil hc
      · exact (hfs.isName h (List.mem_reverse.mp hm)).2.2.1 hc
  · rw [Path.text_ofPlace_cons, Path.unsplit_cons (by simp)]
    simp
  · exact (hfs.isName h List.mem_cons_self).2.2.2
  · rw [startOf, Path.isAbsolute_ofPlace, if_pos rfl]
    refine walk_reverse (fun m hm => (hfs.isName h (List.mem_cons_of_mem _ hm)).2.2.2) ?_ _
    exact fun q hq => hkept q (hfs.node?_of_suffix (hfs.node?_tail h) hq)

end WellFormed

/-! ### The names in a directory -/

lemma mem_childNames {n : Name} : n ∈ fs.childNames d ↔ fs.node? (n :: d) ≠ none := by
  have hlookup : ∀ es : List (Place × Node), lookup (n :: d) es ≠ none ↔
      ∃ e ∈ es, e.1 = n :: d := by
    intro es
    induction es with
    | nil => simp [lookup]
    | cons e es ih =>
        rw [lookup]
        split_ifs with he
        · simp [he]
        · simp [ih, he]
  rw [node?, if_neg (List.cons_ne_nil _ _), hlookup, childNames, List.mem_filterMap]
  constructor
  · rintro ⟨⟨_ | ⟨m, r⟩, node⟩, he, hm⟩
    · cases hm
    · simp only at hm
      split_ifs at hm with hr
      cases hm
      exact ⟨_, he, by rw [hr]⟩
  · rintro ⟨⟨place, node⟩, he, rfl⟩
    exact ⟨_, he, by simp⟩

lemma insertName_perm (n : Name) (ns : List Name) : (insertName n ns).Perm (n :: ns) := by
  induction ns with
  | nil => rfl
  | cons m ns ih =>
      rw [insertName]
      split_ifs
      · exact (ih.cons m).trans (List.Perm.swap n m ns)
      · rfl

lemma children_perm (fs : FileSystem) (d : Place) : (fs.children d).Perm (fs.childNames d) := by
  rw [children]
  induction fs.childNames d with
  | nil => rfl
  | cons n ns ih => exact (insertName_perm n _).trans (ih.cons n)

lemma mem_children {n : Name} : n ∈ fs.children d ↔ fs.node? (n :: d) ≠ none := by
  rw [(children_perm fs d).mem_iff, mem_childNames]

/-- The name of a place, if it is in a directory. -/
def nameIn? (d : Place) : Place → Option Name
  | n :: q => if q = d then some n else none
  | [] => none

/-- The names in a directory are found in the places of the entries. -/
lemma childNames_eq (fs : FileSystem) (d : Place) :
    fs.childNames d = (fs.entries.map Prod.fst).filterMap (nameIn? d) := by
  rw [childNames, List.filterMap_map]
  congr
  funext ⟨q, node⟩
  cases q <;> rfl

lemma WellFormed.nodup_children (hfs : fs.WellFormed) (d : Place) : (fs.children d).Nodup := by
  rw [(children_perm fs d).nodup_iff, childNames_eq]
  refine hfs.nodup.filterMap fun q q' n hq hq' => ?_
  cases q <;> cases q' <;> simp_all [nameIn?]

end Externalize.FileSystem
