import Externalize.Proofs.Files.Additions
import Externalize.Proofs.Resource.Merging

/-
What a write leaves, whether it succeeds or fails.

* `FileSystem.MakesAbove`: a change that only makes directories, and those only to which one of some
  paths leads; `FileSystem.withDirectories_makesAbove` says that for a write these are the paths
  above the one that is written.
* `FileSystem.Written`: the file is there, and nothing else is new but such directories.
* `FileSystem.Unwritten`: nothing is new but such directories, and all paths lead where they led.
* `FileSystem.writeAtomically_outcome`: a write leaves the one or the other.
-/
namespace Externalize.FileSystem

variable {fs fs' fs'' out : FileSystem} {p : Path} {q d : Place} {ps ps' : List Path} {t : Text}

/-! ### The directories above a path -/

/-- A change that makes directories where nothing was, and only those to which some paths lead
then. -/
structure MakesAbove (ps : List Path) (fs fs' : FileSystem) : Prop extends Grows fs fs' where
  leads : ∀ q, fs.node? q = none → fs'.node? q = some .directory →
    ∃ a ∈ ps, fs'.directory a = .ok q

namespace MakesAbove

lemma refl (ps : List Path) (fs : FileSystem) : MakesAbove ps fs fs where
  toGrows := .refl fs
  leads q hnone hdir := by
    rw [hnone] at hdir
    cases hdir

lemma mono (h : MakesAbove ps fs fs') (hsub : ps ⊆ ps') : MakesAbove ps' fs fs' where
  toGrows := h.toGrows
  leads q hnone hdir := by
    obtain ⟨a, ha, hd⟩ := h.leads q hnone hdir
    exact ⟨a, hsub ha, hd⟩

lemma trans (h : MakesAbove ps fs fs') (h' : MakesAbove ps fs' fs'') : MakesAbove ps fs fs'' where
  toGrows := h.toGrows.trans h'.toGrows
  leads q hnone hdir := by
    rcases h'.node? q with hsame | ⟨hnone', -⟩
    · obtain ⟨a, ha, hd⟩ := h.leads q hnone (hsame.symm.trans hdir)
      exact ⟨a, ha, h'.keeps.directory_eq hd⟩
    · exact h'.leads q hnone' hdir

lemma of_createDirectory (h : fs.createDirectory p = .ok fs') : MakesAbove [p] fs fs' := by
  obtain ⟨d, hne, hnone, rfl, hd⟩ := createDirectory_eq_insert h
  refine ⟨.of_insert hnone hne, fun q hq hdir => ⟨p, List.mem_singleton_self p, ?_⟩⟩
  rw [node?_insert _ hne] at hdir
  split_ifs at hdir with hqd
  · rw [hqd, hd]
  · rw [hq] at hdir
    cases hdir

end MakesAbove

lemma createUpwards_makesAbove (ps : List Path) : MakesAbove ps fs (fs.createUpwards ps).1 := by
  induction ps generalizing fs with
  | nil => exact .refl [] fs
  | cons p above ih =>
      have hone : ∀ {fs fs' : FileSystem}, fs.createDirectory p = .ok fs' →
          MakesAbove (p :: above) fs fs' := fun h =>
            (MakesAbove.of_createDirectory h).mono (by simp)
      rw [createUpwards]
      split_ifs
      · exact .refl _ fs
      · split
        · next hmade => exact hone hmade
        · have hup := (@ih fs).mono (List.subset_cons_self p above)
          split
          · next h =>
              rw [h] at hup
              exact hup
          · next h =>
              rw [h] at hup
              split
              · next hmade => exact hup.trans (hone hmade)
              · exact hup
        · exact .refl _ fs

lemma directory_dot (fs : FileSystem) : fs.directory ⟨['.']⟩ = .ok fs.current :=
  directory_eq_ok_iff.mpr (resolve_eq_ok_iff.mpr ⟨by decide, by decide, .stay .done⟩)

/-- The directory of a path is the working directory, or the path right above it. -/
lemma directory_cases (p : Path) : p.directory = ⟨['.']⟩ ∨
    p.parents = p.directory.ancestors ∧ p.directory.IsAbove p := by
  rcases p.parents_cases with hnil | ⟨a, ha, habove⟩
  · exact .inl (by rw [Path.directory, Path.parent?, hnil]; rfl)
  · have hdir : p.directory = if a.text.isEmpty then ⟨['.']⟩ else a := by
      rw [Path.directory, Path.parent?, ha, List.head?_cons]
    rw [hdir]
    rcases habove with hempty | habove
    · exact .inl (if_pos (by simp [hempty]))
    · rw [if_neg (by simp [habove.text])]
      exact .inr ⟨ha, habove⟩

/-- The directories that a write makes are new ones, to which paths above the one that is written
lead. -/
theorem withDirectories_makesAbove (fs : FileSystem) (p : Path) :
    MakesAbove p.parents fs (fs.withDirectories p) := by
  rw [withDirectories]
  rcases directory_cases p with hdot | ⟨hparents, -⟩
  · rw [hdot, createDirectories_of_directory (directory_dot fs)]
    exact .refl _ fs
  · rw [hparents]
    exact createUpwards_makesAbove _

/-- A path without steps up that leads to something once its directories are made did so before. -/
lemma Puts.status_eq {b : ByteArray} {f : Found} (h : Puts fs p b f out) (hfs : fs.WellFormed)
    (hdots : ['.', '.'] ∉ p.names) {n : Node} (hn : (fs.withDirectories p).status p = .ok n) :
    fs.status p = .ok n := by
  have hlast := h.entry
  obtain ⟨k, d, rfl⟩ := exists_of_lastPlace hlast
  have hd := directory_directory hlast h.noSlash
  have hdots' : ['.', '.'] ∉ p.directory.names := by
    rcases directory_cases p with hdot | ⟨-, habove⟩
    · rw [hdot]
      decide
    · exact fun hmem => hdots (habove.mem_names hmem (by decide))
  rcases hmade : fs.createDirectories p.directory with ⟨made, e | ⟨⟩⟩
  · have hnone := (createUpwards_again hmade).1 d
    rw [withDirectories, hmade] at hd
    exact absurd hd hnone
  · rcases createDirectories_new hfs hdots' (directory_text_ne_nil p) hmade with
      ⟨d', hd'⟩ | ⟨d', hd', hnew⟩
    · rwa [withDirectories, createDirectories_of_directory hd'] at hn
    · -- nothing is in a new directory, so that the path leads to nothing
      rw [withDirectories, hmade] at hd
      obtain rfl : d = d' := Except.ok.inj (hd.symm.trans hd')
      have hold := hfs.node?_cons_of_eq_none hnew k
      have hentry : (fs.withDirectories p).node? (k :: d) = none := by
        rcases (withDirectories_grows fs p).node? (k :: d) with hsame | ⟨-, hdir⟩
        · rw [hsame, hold]
        · exact absurd hdir h.noDirectory
      rw [status, resolve_of_lastPlace hlast h.noSlash (.inl hentry)] at hn
      simp only [hentry] at hn
      cases hn

/-! ### The entry that is written -/

namespace Puts

variable {b : ByteArray} {m : Nat} {f : Found} (h : Puts fs p b f out)
include h

lemma place_ne_nil : f.place ≠ [] := place_ne_nil_of_lastPlace h.entry

/-- What was at the place of the entry is there once the directories are made. -/
lemma node?_before : fs.node? f.place = f.node? := by
  rcases (withDirectories_grows fs p).node? f.place with hsame | ⟨-, hdir⟩
  · rw [← hsame, h.node?_entry]
  · exact absurd (h.node?_entry.trans hdir) h.noDirectory

/-- A directory or a link that is there after the write was there before. -/
lemma node?_erase_of {x : Place} {n : Node} (hn : ∀ b m, n ≠ .file b m)
    (hx : out.node? x = some n) :
    ((fs.withDirectories p).erase f.place).node? x = some n := by
  rw [h.node? x] at hx
  rw [node?_erase _ h.place_ne_nil]
  split_ifs at hx ⊢
  · exact absurd (Option.some_injective _ hx).symm (hn _ _)
  · exact hx

/-- A path that has an entry after the write does not run through the one that was replaced. -/
lemma not_runsThroughEntry {g : Found} (hg : out.lastPlace p .busy = .ok g) :
    ¬ Store.RunsThroughEntry fs p := by
  have hkept : ∀ x n, (∀ b m, n ≠ .file b m) → out.node? x = some n →
      (fs.withDirectories p).node? x = some n := by
    intro x n hn hx
    have herase := h.node?_erase_of hn hx
    rw [node?_erase _ h.place_ne_nil] at herase
    split_ifs at herase
    exact herase
  -- the directories and links on the way were there before, so that it leads to the same entry
  have hmade := lastPlace_transfer h.current.symm (fun x => hkept x _ (by simp))
    (fun x target => hkept x _ (by simp)) hg
  have hplace : g.place = f.place :=
    (congrArg Found.place (Except.ok.inj (h.entry.symm.trans hmade))).symm
  have herase : ((fs.withDirectories p).erase f.place).lastPlace p .busy = .ok ⟨g.place, _⟩ :=
    lastPlace_transfer h.current.symm (fun x => h.node?_erase_of (by simp))
      (fun x target => h.node?_erase_of (by simp)) hg
  rw [hplace, node?_erase _ h.place_ne_nil, if_pos rfl] at herase
  rintro ⟨f', target, hf', -, hway⟩
  obtain rfl : f = f' := Option.some_injective _ (h.destination_eq.symm.trans hf')
  exact hway herase

/-- The file is the entry of the path unless the path runs through the entry that was replaced. -/
theorem hasFile_iff (hm : out.node? f.place = some (.file b m)) :
    HasFile out p f.place b m ↔ ¬ Store.RunsThroughEntry fs p := by
  refine ⟨fun hfile => h.not_runsThroughEntry hfile.entry, fun hruns => ⟨?_, h.noSlash⟩⟩
  rw [h.lastPlace_eq (Store.lastPlace_erase_of_puts h hruns), hm]

/-- The path leads to the file unless it runs through the entry that was replaced. -/
theorem resolve_eq_iff (hm : out.node? f.place = some (.file b m)) :
    out.resolve true p = .ok ⟨f.place, some (.file b m)⟩ ↔ ¬ Store.RunsThroughEntry fs p := by
  refine ⟨fun hleads => ?_, fun hruns => ((h.hasFile_iff hm).mpr hruns).resolve_eq⟩
  obtain ⟨-, e, he, -⟩ := lastPlace_of_resolve hleads .busy
  exact h.not_runsThroughEntry he

end Puts

/-! ### Outcomes -/

/-- The mode that new content takes over from what a path leads to: that of the file or the
directory, and the usual one of new files if it leads to nothing. -/
inductive TakesOver (fs : FileSystem) (p : Path) : Nat → Prop
  | file {q : Place} {b : ByteArray} {m : Nat} :
    fs.resolve true p = .ok ⟨q, some (.file b m)⟩ → TakesOver fs p m
  | directory {d : Place} : fs.directory p = .ok d → TakesOver fs p (fs.directoryMode d)
  | nothing {e : OsError} : fs.status p = .error e → TakesOver fs p defaultMode

lemma modeFor_of_status_error {e : OsError} (h : fs.status p = .error e) :
    fs.modeFor p = defaultMode := by
  rw [status] at h
  rw [modeFor]
  rcases hp : fs.resolve true p with e' | ⟨q, _ | n⟩ <;> rw [hp] at h
  cases h

lemma takesOver_modeFor (fs : FileSystem) (p : Path) : TakesOver fs p (fs.modeFor p) := by
  cases hstatus : fs.status p with
  | error e => exact modeFor_of_status_error hstatus ▸ .nothing hstatus
  | ok n =>
      obtain ⟨q, hq⟩ := status_eq_ok_iff.mp hstatus
      rw [modeFor, hq]
      cases n with
      | file b m => exact .file hq
      | directory => exact .directory (directory_eq_ok_iff.mpr hq)
      | link target => exact absurd rfl ((resolve_eq_ok_iff.mp hq).2.2.node?_ne_link target)

/-- There is one such mode. -/
lemma TakesOver.eq_modeFor {m : Nat} (h : TakesOver fs p m) : m = fs.modeFor p := by
  cases h with
  | file hq => rw [modeFor, hq]
  | directory hd => rw [modeFor, directory_eq_ok_iff.mp hd]
  | nothing he => rw [modeFor_of_status_error he]

/-- A path that led to something before directories were made has the mode that it had. -/
lemma Grows.modeFor_eq (h : Grows fs fs') {n : Node} (hp : fs.status p = .ok n) :
    fs'.modeFor p = fs.modeFor p := by
  obtain ⟨q, hq⟩ := status_eq_ok_iff.mp hp
  have hmode : ∀ d, fs'.directoryMode d = fs.directoryMode d := fun d => by
    rw [directoryMode, directoryMode, h.volume]
  simp only [modeFor, h.resolve_eq hq, hq, hmode]

/-- What a write leaves that succeeds. The place of the entry of the path, which was no directory,
has a file with the bytes, and the path leads to it unless it runs through the entry that was
replaced. Its mode is that of what the path leads to once the directories above it are made. That is
what the path led to before, if it led to anything; and it is nothing if it led to nothing, unless
the path has steps up. All other places are as they were, but for new directories above the path,
and the modes of the directories stay. -/
structure Written (fs : FileSystem) (p : Path) (b : ByteArray) (place : Place) (mode : Nat)
    (out : FileSystem) : Prop where
  current : out.current = fs.current
  volume : out.volume = fs.volume
  entry : (fs.withDirectories p).lastPlace p .busy = .ok ⟨place, fs.node? place⟩
  noDirectory : fs.node? place ≠ some .directory
  file : out.node? place = some (.file b mode)
  hasFile : HasFile out p place b mode ↔ ¬ Store.RunsThroughEntry fs p
  leads : out.resolve true p = .ok ⟨place, some (.file b mode)⟩ ↔ ¬ Store.RunsThroughEntry fs p
  takesOver : TakesOver (fs.withDirectories p) p mode
  old : ∀ n, fs.status p = .ok n → TakesOver fs p mode
  plain : fs.WellFormed → ['.', '.'] ∉ p.names → TakesOver fs p mode
  others : ∀ q ≠ place, out.node? q = fs.node? q ∨ fs.node? q = none ∧
    out.node? q = some .directory ∧ ∃ a ∈ p.parents, (fs.withDirectories p).directory a = .ok q

lemma Puts.written {b : ByteArray} {f : Found} (h : Puts fs p b f out) :
    Written fs p b f.place ((fs.withDirectories p).modeFor p) out := by
  have hmade := withDirectories_makesAbove fs p
  have hfile := (h.node? f.place).trans (if_pos rfl)
  have hold : ∀ n, fs.status p = .ok n →
      TakesOver fs p ((fs.withDirectories p).modeFor p) := fun n hn =>
    hmade.modeFor_eq hn ▸ takesOver_modeFor fs p
  refine ⟨h.current.trans hmade.current, h.volume.trans hmade.volume, ?_, ?_, hfile,
    h.hasFile_iff hfile, h.resolve_eq_iff hfile, takesOver_modeFor _ p, hold,
    fun hfs hdots => ?_, fun q hq => ?_⟩
  · rw [h.node?_before]
    exact h.entry
  · rw [h.node?_before]
    exact h.noDirectory
  · cases hbefore : fs.status p with
    | ok n => exact hold n hbefore
    | error e =>
        -- then it leads to nothing after the directories are made either
        cases hstatus : (fs.withDirectories p).status p with
        | ok n => cases hbefore.symm.trans (h.status_eq hfs hdots hstatus)
        | error e' =>
            rw [modeFor_of_status_error hstatus]
            exact .nothing hbefore
  · rw [h.node?_of_ne hq]
    rcases hmade.node? q with hsame | ⟨hnone, hdir⟩
    · exact .inl hsame
    · exact .inr ⟨hnone, hdir, hmade.leads q hnone hdir⟩

/-- What a write leaves that fails: new directories above the path at most, and all paths lead where
they led. -/
structure Unwritten (fs : FileSystem) (p : Path) (out : FileSystem) : Prop
    extends MakesAbove p.parents fs out where
  leads_still : ∀ follow r q n, fs.resolve follow r = .ok ⟨q, some n⟩ →
    out.resolve follow r = .ok ⟨q, some n⟩

/-- **A write succeeds as a whole or changes nothing.** If it succeeds, the file is there with the
text and the mode of the old one; if it fails, all that was there is. In both cases nothing else is
new but directories above the path. -/
theorem writeAtomically_outcome (fs : FileSystem) (p : Path) (t : Text) (out : FileSystem) :
    (fs.writeAtomically p t = (out, .ok ()) →
      ∃ place mode, Written fs p (bytesOf t) place mode out) ∧
    ∀ e, fs.writeAtomically p t = (out, .error e) → Unwritten fs p out := by
  refine ⟨fun h => ?_, fun e h => ?_⟩
  · obtain ⟨f, hputs⟩ := writeAtomically_ok h
    exact ⟨_, _, hputs.written⟩
  · obtain rfl := writeAtomically_error h
    have hmade := withDirectories_makesAbove fs p
    exact ⟨hmade, fun follow r q n hr => hmade.resolve_eq hr⟩

/-- A file in a directory that nobody else may enter, a link to each of them, and two files that
cannot be written: there is no space for the one, and the other cannot be given a mode. -/
def shared : FileSystem where
  entries := [(["x".toList], .directory), (["s.arb".toList, "x".toList], .file .empty 0o640),
    (["k.arb".toList], .link ⟨"x/s.arb".toList⟩), (["l.arb".toList], .link ⟨"x".toList⟩)]
  current := []
  volume :=
    { modes := [(["x".toList], 0o700)]
      faults := [⟨.content, ["t.arb".toList, "m".toList], .noSpace⟩,
        ⟨.mode, ["s.arb".toList, "x".toList], .notPermitted⟩] }

/-- A link is replaced by a file with the mode of the file or of the directory that it leads to,
which stays. A write that fails after it made a directory leaves that directory, and no new file; so
does one whose new file gets no content. One whose new file gets no mode changes nothing. -/
theorem writeAtomically_outcome_shared :
    (∃ out, shared.writeAtomically ⟨"n/../k.arb".toList⟩ "x".toList = (out, .ok ()) ∧
      Written shared ⟨"n/../k.arb".toList⟩ (bytesOf "x".toList) ["k.arb".toList] 0o640 out ∧
      out.node? ["s.arb".toList, "x".toList] = some (.file .empty 0o640) ∧
      out.node? ["n".toList] = some .directory) ∧
    (∃ out, shared.writeAtomically ⟨"l.arb".toList⟩ "x".toList = (out, .ok ()) ∧
      Written shared ⟨"l.arb".toList⟩ (bytesOf "x".toList) ["l.arb".toList] 0o700 out) ∧
    (∃ out, shared.writeAtomically ⟨"n/..".toList⟩ "x".toList =
        (out, .error (.file ⟨"n/..".toList⟩ .busy)) ∧
      Unwritten shared ⟨"n/..".toList⟩ out ∧ out.node? ["n".toList] = some .directory) ∧
    (∃ out, shared.writeAtomically ⟨"m/t.arb".toList⟩ "x".toList =
        (out, .error (.file ⟨"m/t.arb".toList⟩ .noSpace)) ∧
      Unwritten shared ⟨"m/t.arb".toList⟩ out ∧ out.node? ["m".toList] = some .directory ∧
      out.childNames ["m".toList] = []) ∧
    ∃ out, shared.writeAtomically ⟨"x/s.arb".toList⟩ "x".toList =
        (out, .error (.permissions ⟨"x/s.arb".toList⟩ .notPermitted)) ∧
      Unwritten shared ⟨"x/s.arb".toList⟩ out ∧ out = shared := by
  have hwritten : ∀ p place mode, (shared.writeAtomically p "x".toList).2 = .ok () →
      ¬ Store.RunsThroughEntry shared p →
      (shared.writeAtomically p "x".toList).1.resolve true p =
        .ok ⟨place, some (.file (bytesOf "x".toList) mode)⟩ →
      Written shared p (bytesOf "x".toList) place mode
        (shared.writeAtomically p "x".toList).1 := by
    intro p place mode hok hruns hleads
    obtain ⟨place', mode', hwritten⟩ :=
      (writeAtomically_outcome shared p "x".toList _).1 (Prod.ext rfl hok)
    cases (hwritten.leads.mpr hruns).symm.trans hleads
    exact hwritten
  have hunwritten : ∀ p e, (shared.writeAtomically p "x".toList).2 = .error e →
      Unwritten shared p (shared.writeAtomically p "x".toList).1 := fun p e herror =>
    (writeAtomically_outcome shared p "x".toList _).2 e (Prod.ext rfl herror)
  refine ⟨⟨_, Prod.ext rfl ?_, hwritten _ _ _ ?_ ?_ ?_, ?_, ?_⟩,
    ⟨_, Prod.ext rfl ?_, hwritten _ _ _ ?_ ?_ ?_⟩,
    ⟨_, Prod.ext rfl ?_, hunwritten _ (.file ⟨"n/..".toList⟩ .busy) ?_, ?_⟩,
    ⟨_, Prod.ext rfl ?_, hunwritten _ (.file ⟨"m/t.arb".toList⟩ .noSpace) ?_, ?_, ?_⟩,
    ⟨_, Prod.ext rfl ?_, hunwritten _ (.permissions ⟨"x/s.arb".toList⟩ .notPermitted) ?_, ?_⟩⟩
  all_goals decide +kernel

/-- A link to nothing. -/
def dangling : FileSystem where
  entries := [(["k.arb".toList], .link ⟨"d".toList⟩)]
  current := []

/-- The path need not lead to the file, since it can run through the link that is replaced; and the
mode need not be the one of what the path led to, since a link can lead to a directory that is
made. -/
theorem not_forall_leads_of_write :
    (¬ ∀ (fs : FileSystem) (p : Path) (t : Text) (out : FileSystem), fs.WellFormed →
      fs.writeAtomically p t = (out, .ok ()) →
      ∃ place mode, out.resolve true p = .ok ⟨place, some (.file (bytesOf t) mode)⟩) ∧
    ¬ ∀ (fs : FileSystem) (p : Path) (t : Text) (out : FileSystem), fs.WellFormed →
      fs.writeAtomically p t = (out, .ok ()) → ∀ place mode,
      out.resolve true p = .ok ⟨place, some (.file (bytesOf t) mode)⟩ →
        TakesOver fs p mode := by
  have hfs : dangling.WellFormed := by decide +kernel
  constructor
  · intro h
    obtain ⟨hok, hstatus⟩ :
        (dangling.writeAtomically ⟨"d/../k.arb/../k.arb".toList⟩ "x".toList).2 = .ok () ∧
        (dangling.writeAtomically ⟨"d/../k.arb/../k.arb".toList⟩ "x".toList).1.resolve true
          ⟨"d/../k.arb/../k.arb".toList⟩ = .error .notDirectory := by decide +kernel
    rcases hwrite : dangling.writeAtomically ⟨"d/../k.arb/../k.arb".toList⟩ "x".toList with ⟨out, r⟩
    rw [hwrite] at hok hstatus
    subst hok
    obtain ⟨place, mode, hleads⟩ := h dangling _ _ _ hfs hwrite
    cases hstatus.symm.trans hleads
  · intro h
    obtain ⟨hok, hleads, hmode⟩ :
        (dangling.writeAtomically ⟨"d/../k.arb".toList⟩ "x".toList).2 = .ok () ∧
        (dangling.writeAtomically ⟨"d/../k.arb".toList⟩ "x".toList).1.resolve true
          ⟨"d/../k.arb".toList⟩ =
            .ok ⟨["k.arb".toList], some (.file (bytesOf "x".toList) 0o755)⟩ ∧
        0o755 ≠ dangling.modeFor ⟨"d/../k.arb".toList⟩ := by decide +kernel
    rcases hwrite : dangling.writeAtomically ⟨"d/../k.arb".toList⟩ "x".toList with ⟨out, r⟩
    rw [hwrite] at hok hleads
    subst hok
    exact hmode (h dangling _ _ _ hfs hwrite _ _ hleads).eq_modeFor

end Externalize.FileSystem
