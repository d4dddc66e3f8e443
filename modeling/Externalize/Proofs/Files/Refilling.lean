import Externalize.Proofs.Files.Writing

/-
Files that get a new content.

* `FileSystem.KeepsWays`: a change after which the directories and links are there still, so that
  paths have the entries that they had.
* `FileSystem.writeAtomically_error_transfer`: whether a write fails does not depend on the text.
* `FileSystem.writeAtomically_of_lastPlace`: a write under a path whose entry is no directory;
  `FileSystem.writeAtomically_of_status`: under a path that leads to a file a write does not fail,
  if no step fails by itself.
* `FileSystem.HasFile`: the entry of a path is a file; `FileSystem.HasFile.writeAtomically_eq` says
  that a write under the path gives it a new content, and nothing else, unless a step fails by
  itself.
* `FileSystem.Refills`: a change of the content of files.
-/
namespace Externalize.FileSystem

variable {fs fs' made out : FileSystem} {p : Path} {q x : Place} {t : Text} {f : Found}
  {inUse : OsError} {b b' : ByteArray} {m m' : Nat} {n : Node}

/-! ### Changes that keep the ways -/

/-- A change after which the directories and links are there still. -/
structure KeepsWays (fs fs' : FileSystem) : Prop where
  current : fs'.current = fs.current
  node? : ∀ q n, (∀ b m, n ≠ .file b m) → fs.node? q = some n → fs'.node? q = some n

namespace KeepsWays

variable (h : KeepsWays fs fs')
include h

lemma walk {follow : Bool} {links : Nat} {here : Place} {ns : List Name}
    (hwalk : Walk fs follow links here ns f)
    (hf : f.node? = some .directory ∨ fs'.node? f.place = fs.node? f.place) :
    Walk fs' follow links here ns f :=
  hwalk.transfer (fun q => h.node? q _ (by simp)) (fun q target => h.node? q _ (by simp)) hf

/-- The entry of a path is at the place where it was. -/
theorem lastPlace_eq (hp : fs.lastPlace p inUse = .ok f) :
    fs'.lastPlace p inUse = .ok ⟨f.place, fs'.node? f.place⟩ :=
  lastPlace_of_forall_walk h.current (fun _ _ _ _ hwalk => h.walk hwalk (.inl rfl)) hp

/-- A path leads where it did, if what is there is no file or the same file. -/
lemma resolve_eq {follow : Bool} (hp : fs.resolve follow p = .ok f)
    (hf : f.node? = some .directory ∨ fs'.node? f.place = fs.node? f.place) :
    fs'.resolve follow p = .ok f :=
  resolve_transfer h.current (fun q => h.node? q _ (by simp))
    (fun q target => h.node? q _ (by simp)) hp hf

lemma directory_eq {d : Place} (hd : fs.directory p = .ok d) : fs'.directory p = .ok d :=
  directory_eq_ok_iff.mpr (h.resolve_eq (directory_eq_ok_iff.mp hd) (.inl rfl))

end KeepsWays

lemma put_self {es : List (Place × Node)} (h : lookup q es = some n) : put q n es = es := by
  induction es with
  | nil => cases h
  | cons e es ih =>
      obtain ⟨r, k⟩ := e
      rw [lookup] at h
      by_cases hr : r = q
      · rw [if_pos hr] at h
        cases h
        simp [put, hr]
      · rw [if_neg hr] at h
        simp [put, hr, ih h]

/-- An entry that is put where it is changes nothing. -/
lemma insert_self (hne : q ≠ []) (h : fs.node? q = some n) : fs.insert q n = fs := by
  rw [FileSystem.node?, if_neg hne] at h
  rw [insert, put_self h]

/-! ### What is left of a write -/

section Temporary

variable (made : FileSystem) (d : Place) (b b' : ByteArray) (m m' : Nat)

/-- A new file does not matter to the ways. -/
lemma withTemporary_keepsWays : KeepsWays made (made.withTemporary d b m) where
  current := rfl
  node? q n _ hq := by
    rw [node?_withTemporary, if_neg, hq]
    rintro rfl
    rw [node?_freshName] at hq
    cases hq

/-- Nor does what is in it. -/
lemma withTemporary_keepsWays_withTemporary :
    KeepsWays (made.withTemporary d b m) (made.withTemporary d b' m') where
  current := rfl
  node? q n hn hq := by
    rw [node?_withTemporary] at hq ⊢
    split_ifs at hq ⊢
    · exact absurd (Option.some_injective _ hq).symm (hn _ _)
    · exact hq

end Temporary

/-- Whether a file takes the place of an entry does not depend on what is in the file. -/
lemma replaceWith_withTemporary {e : OsError} (h : (made.withTemporary q b m).replaceWith
    (made.freshName q :: q) p = .error e) (b' : ByteArray) (m' : Nat) :
    ∃ e, (made.withTemporary q b' m').replaceWith (made.freshName q :: q) p = .error e := by
  cases hreplace : (made.withTemporary q b' m').replaceWith (made.freshName q :: q) p with
  | error e => exact ⟨e, rfl⟩
  | ok out =>
      obtain ⟨f, n, hlast, hslash, hdir, hfault, -, -⟩ := replaceWith_eq_ok_iff.mp hreplace
      obtain ⟨k, d, rfl⟩ := exists_of_lastPlace hlast
      have hlast' :=
        (withTemporary_keepsWays_withTemporary made q b' b m' m).lastPlace_eq hlast
      have hdir' : (made.withTemporary q b m).node? (k :: d) ≠ some .directory := by
        intro hx
        refine hdir ?_
        rw [node?_withTemporary] at hx ⊢
        split_ifs at hx ⊢
        · cases hx
        · exact hx
      have hok := replaceWith_eq_ok_iff.mpr ⟨_, .file b m, hlast', hslash, hdir', hfault,
        by rw [node?_withTemporary, if_pos rfl], rfl⟩
      cases hok.symm.trans h

/-- A write that fails would fail, and leave the same, with any other text and in any files in which
the same directories are made, unless they cannot be made there. -/
lemma writeAtomically_error_transfer {e : WriteError}
    (h : fs.writeAtomically p t = (out, .error e))
    (hmade : fs'.withDirectories p = fs.withDirectories p)
    (hok : (fs'.createDirectories p.directory).2 = .ok () →
      (fs.createDirectories p.directory).2 = .ok ()) (t' : Text) :
    ∃ e', fs'.writeAtomically p t' = (out, .error e') := by
  obtain rfl := writeAtomically_error h
  rcases writeAtomically_cases fs' p t' hmade rfl with ⟨e', -, herror⟩ | ⟨d', hcreate', hd', hthen'⟩
  · exact ⟨_, herror⟩
  · have hcreated := hok (by rw [hcreate'])
    rcases writeAtomically_cases fs p t rfl rfl with ⟨e', hcreate, -⟩ | ⟨d, -, hd, hthen⟩
    · rw [hcreate] at hcreated
      cases hcreated
    · obtain rfl : d = d' := Except.ok.inj (hd.symm.trans hd')
      rcases hthen' with ⟨e', -, herror⟩ | ⟨hfill', ⟨e', -, herror⟩ | ⟨out', hreplace', -⟩⟩
      · exact ⟨_, herror⟩
      · exact ⟨_, herror⟩
      · rcases hthen with ⟨e'', hfill, -⟩ | ⟨-, ⟨e'', hreplace, -⟩ | ⟨out'', -, hwrite⟩⟩
        · cases hfill.symm.trans hfill'
        · obtain ⟨e', herror⟩ := replaceWith_withTemporary hreplace (bytesOf t')
            ((fs.withDirectories p).modeFor p)
          cases herror.symm.trans hreplace'
        · cases hwrite.symm.trans h

/-! ### Paths that lead to files -/

/-- A file is put in the place of an entry that is no directory, unless a step fails by itself, and
nothing else changes. -/
theorem writeAtomically_of_lastPlace (he : fs.lastPlace p .busy = .ok f)
    (hslash : p.text.getLast? ≠ some '/') (hdir : f.node? ≠ some .directory) (t : Text) :
    fs.writeAtomically p t =
      match fs.volume.writeError? p f.place with
      | some e => (fs, .error e)
      | none => (fs.insert f.place (.file (bytesOf t) (fs.modeFor p)), .ok ()) := by
  obtain ⟨n, d, rfl⟩ := exists_of_lastPlace he
  have hd := directory_directory he hslash
  have hlast := (withTemporary_keepsWays fs d (bytesOf t) (fs.modeFor p)).lastPlace_eq he
  have hdir' : (fs.withTemporary d (bytesOf t) (fs.modeFor p)).node? (n :: d) ≠
      some .directory := by
    rw [node?_withTemporary]
    split_ifs
    · simp
    · exact hdir
  have hreplace := replaceWith_of_lastPlace hlast hslash hdir'
    ((node?_withTemporary fs d _ _ _).trans (if_pos rfl))
  have hvolume : (fs.withTemporary d (bytesOf t) (fs.modeFor p)).volume = fs.volume := rfl
  rw [writeAtomically_eq_of_directories (createDirectories_of_directory hd) hd,
    entryIn_of_lastPlace he, hreplace, erase_withTemporary, hvolume, Volume.writeError?]
  cases fs.volume.fillError? p (n :: d) with
  | some e => rfl
  | none => cases fs.volume.fault? .rename (n :: d) <;> rfl

/-- Under a path that leads to a file, through links or not, every text is written if no step fails
by itself, and the path leads to it then. The mode stays. -/
theorem writeAtomically_of_status (h : fs.status p = .ok (.file b m))
    (hno : ∀ f, fs.lastPlace p .busy = .ok f → fs.volume.writeError? p f.place = none) (t : Text) :
    ∃ out, fs.writeAtomically p t = (out, .ok ()) ∧ out.status p = .ok (.file (bytesOf t) m) := by
  obtain ⟨q, hq⟩ := status_eq_ok_iff.mp h
  obtain ⟨hslash, e, he, hentry⟩ := lastPlace_of_resolve hq .busy
  have hmode : fs.modeFor p = m := by rw [modeFor, hq]
  have hdir : fs.node? e ≠ some .directory := by
    rcases hentry with ⟨-, hfile⟩ | ⟨target, hlink, -⟩
    · simp [hfile]
    · simp [hlink]
  have hlink : ∀ target, fs.node? e = some (.link target) → ¬ fs.IsPassage e := by
    intro target htarget
    rcases hentry with ⟨-, hfile⟩ | ⟨-, -, hpassage⟩
    · rw [hfile] at htarget
      cases htarget
    · exact hpassage
  have hne : e ≠ [] := place_ne_nil_of_lastPlace he
  have hnode := fun x => node?_insert fs hne x (.file (bytesOf t) m)
  have hkeeps : Keeps fs (fs.insert e (.file (bytesOf t) m)) := .of_write rfl hnode hdir hlink
  have hlast := hkeeps.lastPlace_eq he
  rw [hnode, if_pos rfl] at hlast
  refine ⟨fs.insert e (.file (bytesOf t) m), ?_, ?_⟩
  · rw [writeAtomically_of_lastPlace he hslash hdir, hno _ he, hmode]
  · exact status_eq_ok_iff.mpr ⟨_, resolve_of_lastPlace hlast hslash (.inr ⟨_, _, rfl⟩)⟩

/-! ### Paths of files -/

/-- The entry of a path is a file. -/
structure HasFile (fs : FileSystem) (p : Path) (q : Place) (b : ByteArray) (m : Nat) : Prop where
  entry : fs.lastPlace p .busy = .ok ⟨q, some (.file b m)⟩
  noSlash : p.text.getLast? ≠ some '/'

namespace HasFile

/-- A path whose entry is a file that leads to it without a link there being followed. -/
lemma of_resolve (h : fs.resolve false p = .ok ⟨q, some (.file b m)⟩) : HasFile fs p q b m := by
  obtain ⟨hslash, k, d, n, hlast, hentry⟩ := exists_lastStep h
  refine ⟨?_, hslash⟩
  cases hlast with
  | stay h => cases h
  | up h => cases h
  | file hn hnode => exact hnode ▸ hentry .busy hn
  | enter hn hnode h => cases h
  | through hn hnode hfollow h => simp at hfollow

variable (h : HasFile fs p q b m)
include h

lemma exists_place : ∃ n d, q = n :: d := by
  obtain ⟨n, d, hf⟩ := exists_of_lastPlace h.entry
  exact ⟨n, d, congrArg Found.place hf⟩

lemma ne_nil : q ≠ [] := by
  obtain ⟨n, d, rfl⟩ := h.exists_place
  exact List.cons_ne_nil n d

lemma node?_eq : fs.node? q = some (.file b m) := (node?_of_lastPlace h.entry).symm

lemma resolve_eq : fs.resolve true p = .ok ⟨q, some (.file b m)⟩ :=
  resolve_of_lastPlace h.entry h.noSlash (.inr ⟨b, m, rfl⟩)

lemma modeFor_eq : fs.modeFor p = m := by
  rw [modeFor, h.resolve_eq]

lemma destination_eq : fs.destination p = some ⟨q, some (.file b m)⟩ :=
  destination_of_lastPlace h.entry h.noSlash

/-- The directory of the path is there. -/
lemma exists_directory : ∃ d, fs.directory p.directory = .ok d ∧
    fs.createDirectories p.directory = (fs, .ok ()) := by
  obtain ⟨n, d, rfl⟩ := h.exists_place
  have hd := directory_directory h.entry h.noSlash
  exact ⟨d, hd, createDirectories_of_directory hd⟩

/-- The entry of the path in its directory is the place of the file. -/
lemma entryIn_eq {d : Place} (hd : fs.directory p.directory = .ok d) : entryIn p d = q := by
  obtain ⟨n, d', rfl⟩ := h.exists_place
  obtain rfl : d = d' := Except.ok.inj (hd.symm.trans (directory_directory h.entry h.noSlash))
  exact entryIn_of_lastPlace h.entry d

/-- As long as the ways are kept, the path has the file that is at its place. -/
lemma keep (hways : KeepsWays fs fs') (hnode : fs'.node? q = some (.file b' m')) :
    HasFile fs' p q b' m' :=
  ⟨by rw [hways.lastPlace_eq h.entry, hnode], h.noSlash⟩

/-- Another file can take the place of the entry, unless the step fails by itself. -/
lemma replaceWith_eq (hn : fs.node? x = some n) : fs.replaceWith x p =
    match fs.volume.fault? .rename q with
    | some e => .error e
    | none => .ok ((fs.erase x).insert q n) :=
  replaceWith_of_lastPlace h.entry h.noSlash (by simp) hn

/-- A write gives the file a new content, unless a step fails by itself, and changes nothing
else. -/
theorem writeAtomically_eq (t : Text) : fs.writeAtomically p t =
    match fs.volume.writeError? p q with
    | some e => (fs, .error e)
    | none => (fs.insert q (.file (bytesOf t) m), .ok ()) := by
  rw [writeAtomically_of_lastPlace h.entry h.noSlash (by simp), h.modeFor_eq]

end HasFile

/-! ### Changes of the content of files -/

/-- A change of the content of files. -/
structure Refills (fs fs' : FileSystem) : Prop where
  current : fs'.current = fs.current
  volume : fs'.volume = fs.volume
  places : fs'.entries.map Prod.fst = fs.entries.map Prod.fst
  node? : ∀ q, fs'.node? q = fs.node? q ∨
    ∃ b b' m, fs.node? q = some (.file b m) ∧ fs'.node? q = some (.file b' m)

namespace Refills

lemma refl (fs : FileSystem) : Refills fs fs := ⟨rfl, rfl, rfl, fun _ => .inl rfl⟩

lemma symm (h : Refills fs fs') : Refills fs' fs where
  current := h.current.symm
  volume := h.volume.symm
  places := h.places.symm
  node? q := by
    rcases h.node? q with hsame | ⟨b, b', m, hb, hb'⟩
    · exact .inl hsame.symm
    · exact .inr ⟨b', b, m, hb', hb⟩

lemma trans {fs'' : FileSystem} (h : Refills fs fs') (h' : Refills fs' fs'') : Refills fs fs'' where
  current := h'.current.trans h.current
  volume := h'.volume.trans h.volume
  places := h'.places.trans h.places
  node? q := by
    rcases h.node? q with hsame | ⟨b, b', m, hb, hb'⟩
    · rw [← hsame]
      exact h'.node? q
    · rcases h'.node? q with hsame | ⟨c, c', m', hc, hc'⟩
      · exact .inr ⟨b, b', m, hb, hsame.trans hb'⟩
      · cases hb'.symm.trans hc
        exact .inr ⟨b, c', m, hb, hc'⟩

lemma map_put {es : List (Place × Node)} (h : lookup q es ≠ none) (n : Node) :
    (put q n es).map Prod.fst = es.map Prod.fst := by
  induction es with
  | nil => exact absurd rfl h
  | cons e es ih =>
      obtain ⟨r, k⟩ := e
      rw [lookup] at h
      by_cases hr : r = q
      · simp [put, hr]
      · rw [if_neg hr] at h
        simp [put, hr, ih h]

/-- A file that is there gets a new content. -/
lemma of_insert (hne : q ≠ []) (h : fs.node? q = some (.file b m)) (b' : ByteArray) :
    Refills fs (fs.insert q (.file b' m)) where
  current := rfl
  volume := rfl
  places := by
    refine map_put ?_ _
    rw [FileSystem.node?, if_neg hne] at h
    rw [h]
    exact Option.some_ne_none _
  node? x := by
    rw [node?_insert _ hne]
    split_ifs with hx
    · exact .inr ⟨b, b', m, hx ▸ h, rfl⟩
    · exact .inl rfl

variable (h : Refills fs fs')
include h

lemma keepsWays : KeepsWays fs fs' where
  current := h.current
  node? q n hn hq := by
    rcases h.node? q with hsame | ⟨b, b', m, hb, -⟩
    · rw [hsame, hq]
    · rw [hq] at hb
      exact absurd (Option.some_injective _ hb) (hn b m)

lemma keeps : Keeps fs fs' where
  current := h.current
  directory q hq := h.keepsWays.node? q _ (by simp) hq
  file q b m hq := by
    rcases h.node? q with hsame | ⟨b, b', m, -, hb'⟩
    · exact ⟨b, m, hsame.trans hq⟩
    · exact ⟨b', m, hb'⟩
  link q target hq := .inl (h.keepsWays.node? q _ (by simp) hq)

/-- The names in a directory stay. -/
lemma children_eq (d : Place) : fs'.children d = fs.children d := by
  rw [children, children, childNames_eq, childNames_eq, h.places]

lemma directory_iff {d : Place} : fs'.directory p = .ok d ↔ fs.directory p = .ok d :=
  ⟨h.symm.keepsWays.directory_eq, h.keepsWays.directory_eq⟩

end Refills

end Externalize.FileSystem
