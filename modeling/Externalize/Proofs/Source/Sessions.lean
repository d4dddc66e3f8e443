import Externalize.Extraction.Basic
import Externalize.Proofs.Files.Refilling
import Externalize.Proofs.Resource.Documents

/-
Plans that are applied to one source, one after the other.

* `Source.session`: the attempts to apply some plans, between which others may change files;
  `Source.Undisturbed` says that they do not write the file of the source.
* `Source.Agrees`: an attempt on a file and one on a text in memory end alike, and what is in memory
  is what is on disk.
* `Source.attempt_agrees`: this is so of one plan; `Source.session_agrees`: and of all plans of a
  session.
-/
namespace Externalize.Source

open FileSystem

/-! ### Sessions -/

/-- A turn of a session: the files, as others left them, and the plan that is applied to the
source. -/
structure Turn where
  files : FileSystem
  plan : Plan

/-- An attempt to apply a plan: the files and the source before it, the files after it, and its
result. -/
structure Attempt where
  files : FileSystem
  source : Source
  after : FileSystem
  result : Except SourceError Source
deriving DecidableEq

/-- The source that an attempt leaves: an error leaves the one before. -/
def Attempt.left (a : Attempt) : Source :=
  match a.result with
  | .ok s => s
  | .error _ => a.source

/-- Applies a plan. -/
def attempt (fs : FileSystem) (s : Source) (p : Plan) : Attempt :=
  ⟨fs, s, (s.apply fs p).1, (s.apply fs p).2⟩

/-- The attempts of a session, each on the source that the one before left. -/
def session : Source → List Turn → List Attempt
  | _, [] => []
  | s, turn :: turns =>
    let a := attempt turn.files s turn.plan
    a :: session a.left turns

/-- Nobody else writes the file of a path, which leads to this at first: before each attempt it
leads to what it led to after the one before. -/
def Undisturbed (p : Path) : Except OsError Node → List Attempt → Prop
  | _, [] => True
  | n, a :: as => a.files.status p = n ∧ Undisturbed p (a.after.status p) as

/-! ### A file and a text in memory -/

/-- An attempt on the file of a path ends as one on a text in memory: both succeed with the same
text, or both fail for the same reason. The file has the text that is in memory, before and after,
and its mode stays; if the attempt fails, all files are as they were. -/
structure Agrees (p : Path) (onFile inMemory : Attempt) : Prop where
  onDisk : ∃ m, onFile.files.status p = .ok (.file (bytesOf onFile.source.content) m) ∧
    onFile.after.status p = .ok (.file (bytesOf onFile.left.content) m)
  succeeds : (∃ s, onFile.result = .ok s) ↔ ∃ s, inMemory.result = .ok s
  content : onFile.left.content = inMemory.left.content
  fails : ∀ e, onFile.result = .error e → onFile.after = onFile.files ∧
    onFile.left = onFile.source ∧ inMemory.left = inMemory.source ∧
    ∃ e', e = .editFile p e' ∧ inMemory.result = .error (.editText e')

variable {fs fs' out : FileSystem} {p : Path} {s : Source} {t t' : Text} {m : Nat} {plan : Plan}

/-! ### One plan -/

lemma apply_of_plan_error (fs : FileSystem) {e : PlanError} (hedits : plan.edits.isEmpty = false)
    (hplan : plan.apply t = .error e) :
    apply fs (.file p t) plan = (fs, .error (.editFile p e)) := by
  simp [apply, hedits, hplan]

lemma apply_of_write_error {e : WriteError} (hedits : plan.edits.isEmpty = false)
    (hplan : plan.apply t = .ok t') (hwrite : fs.writeAtomically p t' = (out, .error e)) :
    apply fs (.file p t) plan = (out, .error (.write e)) := by
  simp [apply, hedits, hplan, hwrite]

lemma apply_of_write (hedits : plan.edits.isEmpty = false) (hplan : plan.apply t = .ok t')
    (hwrite : fs.writeAtomically p t' = (out, .ok ())) :
    apply fs (.file p t) plan = (out, .ok (.file p t')) := by
  simp [apply, hedits, hplan, hwrite]

/-- A plan with edits is applied to a file by one write. -/
lemma exists_write_of_apply (hedits : plan.edits.isEmpty = false)
    (h : apply fs (.file p t) plan = (out, .ok s)) :
    ∃ t', plan.apply t = .ok t' ∧ fs.writeAtomically p t' = (out, .ok ()) := by
  cases hplan : plan.apply t with
  | error e =>
      rw [apply_of_plan_error fs hedits hplan] at h
      cases h
  | ok t' =>
      rcases hwrite : fs.writeAtomically p t' with ⟨written, e | ⟨⟩⟩
      · rw [apply_of_write_error hedits hplan hwrite] at h
        cases h
      · rw [apply_of_write hedits hplan hwrite] at h
        cases h
        exact ⟨t', rfl, hwrite⟩

lemma apply_of_isEmpty (hedits : plan.edits.isEmpty = true) (t : Text) : plan.apply t = .ok t := by
  obtain ⟨edits⟩ := plan
  obtain rfl : edits = [] := List.isEmpty_iff.mp hedits
  rfl

/-- A source that is opened is the file of its path. -/
lemma exists_file_of_open (h : Source.open fs p = .ok s) :
    ∃ t m, s = .file p t ∧ fs.status p = .ok (.file (bytesOf t) m) := by
  rw [Source.open] at h
  split at h
  · cases h
  · next t ht =>
      cases h
      obtain ⟨q, b, m, hq, hb⟩ := exists_of_readText ht
      rw [← bytesOf_of_textOf? hb] at hq
      exact ⟨t, m, rfl, status_eq_ok_iff.mpr ⟨q, hq⟩⟩

/-- A plan is applied to a file as to a text in memory. -/
theorem attempt_agrees (h : fs.status p = .ok (.file (bytesOf t) m))
    (hno : ∀ f, fs.lastPlace p .busy = .ok f → fs.volume.writeError? p f.place = none)
    (fs' : FileSystem) (plan : Plan) :
    Agrees p (attempt fs (.file p t) plan) (attempt fs' (.memory t) plan) ∧
      ∃ t', (attempt fs (.file p t) plan).left = .file p t' ∧
        (attempt fs' (.memory t) plan).left = .memory t' ∧
        (attempt fs (.file p t) plan).after.status p = .ok (.file (bytesOf t') m) := by
  cases hedits : plan.edits.isEmpty with
  | true =>
      have happly : apply fs (.file p t) plan = (fs, .ok (.file p t)) := by simp [apply, hedits]
      have happly' : apply fs' (.memory t) plan = (fs', .ok (.memory t)) := by
        simp [apply, apply_of_isEmpty hedits]
      rw [attempt, attempt, happly, happly']
      exact ⟨⟨⟨m, h, h⟩, by simp, rfl, by simp⟩, t, rfl, rfl, h⟩
  | false =>
      cases hplan : plan.apply t with
      | error e =>
          have happly' : apply fs' (.memory t) plan = (fs', .error (.editText e)) := by
            simp [apply, hplan]
          rw [attempt, attempt, apply_of_plan_error fs hedits hplan, happly']
          refine ⟨⟨⟨m, h, h⟩, by simp, rfl, fun e' he' => ?_⟩, t, rfl, rfl, h⟩
          exact ⟨rfl, rfl, rfl, e, (Except.error.inj he').symm, rfl⟩
      | ok t' =>
          have happly' : apply fs' (.memory t) plan = (fs', .ok (.memory t')) := by
            simp [apply, hplan]
          obtain ⟨out, hwrite, hout⟩ := writeAtomically_of_status h hno t'
          rw [attempt, attempt, apply_of_write hedits hplan hwrite, happly']
          exact ⟨⟨⟨m, h, hout⟩, by simp, rfl, by simp⟩, t', rfl, rfl, hout⟩

/-- A session on a file goes as the one in memory, from where the two hold the same text on. -/
lemma session_agrees_of_status (turns : List Turn)
    (h : Undisturbed p (.ok (.file (bytesOf t) m)) (session (.file p t) turns))
    (hno : ∀ turn ∈ turns, ∀ f, turn.files.lastPlace p .busy = .ok f →
      turn.files.volume.writeError? p f.place = none) :
    List.Forall₂ (Agrees p) (session (.file p t) turns) (session (.memory t) turns) := by
  induction turns generalizing t with
  | nil => exact .nil
  | cons turn turns ih =>
      have hstatus : turn.files.status p = .ok (.file (bytesOf t) m) := h.1
      have hlater := h.2
      obtain ⟨hagrees, t', hleft, hleft', hafter⟩ := attempt_agrees hstatus
        (hno turn List.mem_cons_self) turn.files turn.plan
      rw [hafter, hleft] at hlater
      rw [session, session]
      simp only [hleft, hleft']
      exact .cons hagrees (ih hlater fun turn' h => hno turn' (List.mem_cons_of_mem turn h))

/-- **A session on a file goes as the same session in memory**, as long as nobody else writes the
file, and no step of a write of it fails by itself. -/
theorem session_agrees (fs : FileSystem) (p : Path) (s : Source) (turns : List Turn)
    (hopen : Source.open fs p = .ok s)
    (hundisturbed : Undisturbed p (fs.status p) (session s turns))
    (hno : ∀ turn ∈ turns, ∀ f, turn.files.lastPlace p .busy = .ok f →
      turn.files.volume.writeError? p f.place = none) :
    List.Forall₂ (Agrees p) (session s turns) (session (.memory s.content) turns) := by
  obtain ⟨t, m, rfl, hstatus⟩ := exists_file_of_open hopen
  rw [hstatus] at hundisturbed
  exact session_agrees_of_status turns hundisturbed hno

/-- A file with a mode of its own, and a link to it. -/
def linked : FileSystem :=
  .mk [(["a".toList], .file (bytesOf "ab".toList) 0o640), (["l".toList], .link ⟨"a".toList⟩)] []

/-- A plan that fits, one that cuts a character, and one without edits. Between them others change
the file that the link led to, and remove it. -/
def linkedTurns : List Turn :=
  [⟨linked, ⟨[⟨0, 1, "xé".toList⟩]⟩⟩,
    ⟨.mk [(["a".toList], .file .empty 0o644),
      (["l".toList], .file (bytesOf "xéb".toList) 0o640)] [], ⟨[⟨2, 3, "y".toList⟩]⟩⟩,
    ⟨.mk [(["l".toList], .file (bytesOf "xéb".toList) 0o640)] [], ⟨[]⟩⟩]

/-- The first write puts a file in the place of the link, which the others leave alone. -/
theorem session_agrees_linked : ∃ s, Source.open linked ⟨"l".toList⟩ = .ok s ∧
    Undisturbed ⟨"l".toList⟩ (linked.status ⟨"l".toList⟩) (session s linkedTurns) ∧
    (session s linkedTurns).map (·.left.content) = ["xéb".toList, "xéb".toList, "xéb".toList] ∧
    (session s linkedTurns).map (·.result.toBool) = [true, false, true] ∧
    List.Forall₂ (Agrees ⟨"l".toList⟩) (session s linkedTurns)
      (session (.memory s.content) linkedTurns) := by
  have hopen : Source.open linked ⟨"l".toList⟩ = .ok (.file ⟨"l".toList⟩ "ab".toList) := by
    decide +kernel
  have hundisturbed : Undisturbed ⟨"l".toList⟩ (linked.status ⟨"l".toList⟩)
      (session (.file ⟨"l".toList⟩ "ab".toList) linkedTurns) := by
    refine ⟨?_, ?_, ?_, trivial⟩ <;> decide +kernel
  have hfaults : ∀ turn ∈ linkedTurns, turn.files.volume.faults = [] := by decide
  exact ⟨_, hopen, hundisturbed, by decide +kernel, by decide +kernel,
    session_agrees linked _ _ linkedTurns hopen hundisturbed
      fun turn hturn f _ => Volume.writeError?_of_faults (hfaults turn hturn) _ _⟩

end Externalize.Source
