import Externalize.Proofs.Files.Directories
import Externalize.Proofs.Files.Refilling

/-
Files that are added.

* `FileSystem.Adds`: a change that makes directories where nothing was, and puts files at some
  places; `FileSystem.Adds.resolve_error` says that a path that leads nowhere for another reason
  than that something is missing does so still.
* `FileSystem.HasFile.of_leads`: a path that leads to a file has it as its entry, unless that is a
  link.
* `FileSystem.writeAtomically_uniform`: whether a write under a path fails does not depend on the
  text; one that fails would fail again after that.
-/
namespace Externalize.FileSystem

variable {fs fs' made out : FileSystem} {p : Path} {q : Place} {b : ByteArray} {m : Nat}
  {places : List Place}

/-! ### Changes that add files -/

/-- A change that makes directories where nothing was, and puts files at some places, where nothing
was or a file. -/
structure Adds (places : List Place) (fs fs' : FileSystem) : Prop where
  current : fs'.current = fs.current
  volume : fs'.volume = fs.volume
  node? : ∀ q, fs'.node? q = fs.node? q ∨
    (fs.node? q = none ∧ fs'.node? q = some .directory) ∨
    q ∈ places ∧ (fs.node? q = none ∨ ∃ b m, fs.node? q = some (.file b m)) ∧
      ∃ b m, fs'.node? q = some (.file b m)

lemma Grows.adds (h : Grows fs fs') (places : List Place) : Adds places fs fs' where
  current := h.current
  volume := h.volume
  node? q := (h.node? q).imp_right .inl

/-- Directories are made, and then a file is put at a place. -/
lemma Grows.adds_insert (h : Grows fs made) (hne : q ≠ [])
    (hnode : made.node? q = none ∨ ∃ b m, made.node? q = some (.file b m))
    (b : ByteArray) (m : Nat) : Adds [q] fs (made.insert q (.file b m)) where
  current := h.current
  volume := h.volume
  node? x := by
    rw [node?_insert _ hne]
    split_ifs with hx
    · subst hx
      refine .inr (.inr ⟨List.mem_singleton_self x, ?_, b, m, rfl⟩)
      rcases h.node? x with hsame | ⟨hnone, -⟩
      · rwa [hsame] at hnode
      · exact .inl hnone
    · exact (h.node? x).imp_right .inl

namespace Adds

variable (h : Adds places fs fs')
include h

lemma keepsWays : KeepsWays fs fs' where
  current := h.current
  node? q n hn hq := by
    rcases h.node? q with hsame | ⟨hnone, -⟩ | ⟨-, hnone | ⟨b, m, hfile⟩, -⟩
    · rw [hsame, hq]
    · rw [hq] at hnone
      cases hnone
    · rw [hq] at hnone
      cases hnone
    · rw [hq] at hfile
      exact absurd (Option.some_injective _ hfile) (hn b m)

lemma file (hq : fs.node? q = some (.file b m)) : ∃ b m, fs'.node? q = some (.file b m) := by
  rcases h.node? q with hsame | ⟨hnone, -⟩ | ⟨-, -, hfile⟩
  · exact ⟨b, m, hsame.trans hq⟩
  · rw [hq] at hnone
    cases hnone
  · exact hfile

lemma keeps : Keeps fs fs' where
  current := h.current
  directory q hq := h.keepsWays.node? q _ (by simp) hq
  file _ _ _ hq := h.file hq
  link q target hq := .inl (h.keepsWays.node? q _ (by simp) hq)

/-- A walk that fails for another reason than that something is missing fails still. -/
lemma walk_error {follow : Bool} {links : Nat} {here : Place} {ns : List Name} {e : OsError}
    (he : e ≠ .notFound) (hwalk : fs.walk follow links here ns = .error e) :
    fs'.walk follow links here ns = .error e := by
  induction links, here, ns using walk_induction with
  | nil links here =>
      rw [walk_nil] at hwalk
      cases hwalk
  | cons links here n rest ihrest ihlinks =>
      rcases name_cases n with rfl | rfl | ⟨h₁, h₂, h₃⟩ | hn
      · rw [walk_stay] at hwalk ⊢
        exact ihrest _ hwalk
      · rw [walk_up] at hwalk ⊢
        exact ihrest _ hwalk
      · rw [walk_long h₁ h₂ h₃] at hwalk ⊢
        exact hwalk
      · rw [walk_entry hn] at hwalk ⊢
        split at hwalk
        · split_ifs at hwalk
          cases hwalk
          exact absurd rfl he
        · next hnode =>
            rw [h.keepsWays.node? _ _ (by simp) hnode]
            exact ihrest _ hwalk
        · next hnode =>
            obtain ⟨b, m, hfile⟩ := h.file hnode
            split_ifs at hwalk with hrest
            simp only [hfile]
            rwa [if_neg hrest]
        · next target hnode =>
            rw [h.keepsWays.node? _ _ (by simp) hnode]
            split_ifs at hwalk with hrest
            simp only
            rw [if_neg hrest]
            cases links with
            | zero => exact hwalk
            | succ k => exact ihlinks k (Nat.lt_succ_self k) _ _ hwalk

/-- A path that leads nowhere for another reason than that something is missing does so still. -/
theorem resolve_error {follow : Bool} {e : OsError} (he : e ≠ .notFound)
    (hp : fs.resolve follow p = .error e) : fs'.resolve follow p = .error e := by
  rw [resolve] at hp ⊢
  split_ifs at hp ⊢
  · exact hp
  · exact hp
  · rw [h.current]
    exact h.walk_error he hp

end Adds

/-! ### Paths of files -/

/-- A path that leads to a file has it as its entry, unless that is a link. -/
lemma HasFile.of_leads (h : fs.resolve true p = .ok ⟨q, some (.file b m)⟩)
    (hlink : ∀ f target, fs.destination p = some f → f.node? ≠ some (.link target)) :
    HasFile fs p q b m := by
  obtain ⟨hslash, e, he, ⟨rfl, hfile⟩ | ⟨target, htarget, -⟩⟩ := lastPlace_of_resolve h .busy
  · exact ⟨by rw [he, hfile], hslash⟩
  · exact absurd htarget (hlink _ target (destination_of_lastPlace he hslash))

/-- A file that is put in the place of the entry of a path is the entry then. -/
lemma HasFile.of_insert {f : Found} (hlast : fs.lastPlace p .busy = .ok f)
    (hslash : p.text.getLast? ≠ some '/')
    (hnode : f.node? = none ∨ ∃ b m, f.node? = some (.file b m)) (b : ByteArray) (m : Nat) :
    HasFile (fs.insert f.place (.file b m)) p f.place b m := by
  obtain ⟨n, d, rfl⟩ := exists_of_lastPlace hlast
  have hne : n :: d ≠ [] := List.cons_ne_nil n d
  have hadds := (Grows.refl fs).adds_insert hne hnode b m
  refine ⟨?_, hslash⟩
  rw [hadds.keepsWays.lastPlace_eq hlast, node?_insert _ hne, if_pos rfl]

/-- A file that is put in the place of the entry of a path keeps the tree. -/
lemma WellFormed.insert_file {f : Found} (hfs : fs.WellFormed)
    (hlast : fs.lastPlace p .busy = .ok f)
    (hnode : f.node? = none ∨ ∃ b m, f.node? = some (.file b m)) (b : ByteArray) (m : Nat) :
    (fs.insert f.place (.file b m)).WellFormed := by
  obtain ⟨n, d, rfl⟩ := exists_of_lastPlace hlast
  refine hfs.insert (isName_of_lastPlace hlast) (hfs.node?_of_lastPlace hlast) ?_ _
  rcases hnode with hnode | ⟨b', m', hnode⟩ <;> simp only at hnode <;> simp [hnode]

/-! ### Writes whatever the text -/

/-- A write that fails would fail again, with any text, and make no more directories. -/
lemma writeAtomically_again {t : Text} {e : WriteError}
    (h : fs.writeAtomically p t = (out, .error e)) (t' : Text) :
    ∃ e', out.writeAtomically p t' = (out, .error e') := by
  have hout := writeAtomically_error h
  rcases writeAtomically_cases fs p t rfl rfl with ⟨e', hmade, -⟩ | ⟨d, hmade, hd, -⟩
  · rw [← hout] at hmade
    obtain ⟨-, e'', hagain⟩ := createUpwards_again hmade
    have hsame : out.withDirectories p = out := congrArg Prod.fst hagain
    refine writeAtomically_error_transfer h (hsame.trans hout) (fun hok => ?_) t'
    rw [createDirectories, hagain] at hok
    cases hok
  · rw [← hout] at hmade hd
    have hsame : out.withDirectories p = out :=
      congrArg Prod.fst (createDirectories_of_directory hd)
    exact writeAtomically_error_transfer h (hsame.trans hout) (fun _ => by rw [hmade]) t'

/-- Under a path every text is written in the place of its entry, or none can be written, also not
after the directories above it are made. -/
theorem writeAtomically_uniform (fs : FileSystem) (p : Path) :
    (∃ f, (fs.withDirectories p).lastPlace p .busy = .ok f ∧ p.text.getLast? ≠ some '/' ∧
      f.node? ≠ some .directory ∧ fs.volume.writeError? p f.place = none ∧
      ∀ t, fs.writeAtomically p t =
        ((fs.withDirectories p).insert f.place
          (.file (bytesOf t) ((fs.withDirectories p).modeFor p)), .ok ())) ∨
    ∀ t, (∃ e, fs.writeAtomically p t = (fs.withDirectories p, .error e)) ∧
      ∃ e, (fs.withDirectories p).writeAtomically p t = (fs.withDirectories p, .error e) := by
  rcases hempty : fs.writeAtomically p [] with ⟨out, e | ⟨⟩⟩
  · obtain rfl := writeAtomically_error hempty
    exact .inr fun t =>
      ⟨writeAtomically_error_transfer hempty rfl id t, writeAtomically_again hempty t⟩
  · obtain ⟨f, hlast, hslash, hdir, hno, -⟩ := writeAtomically_eq_ok hempty
    refine .inl ⟨f, hlast, hslash, hdir, hno, fun t => ?_⟩
    rcases hwrite : fs.writeAtomically p t with ⟨out', e | ⟨⟩⟩
    · obtain ⟨e', herror⟩ := writeAtomically_error_transfer hwrite rfl id []
      cases hempty.symm.trans herror
    · obtain ⟨f', hlast', -, -, -, rfl⟩ := writeAtomically_eq_ok hwrite
      rw [Except.ok.inj (hlast.symm.trans hlast')]

end Externalize.FileSystem
