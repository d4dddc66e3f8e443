import Externalize.Proofs.Resource.Refilling

/-
The documents of a merge, at the same time.

* `Store.Stage`, `Store.Stage.next`: how far the merge of one document is, and its next step: the
  document is read, a new file gets a name, its content and its mode, and takes the place of the old
  one.
* `Store.interleave`: steps of any documents, in any order, under any names for the new files.
* `Store.Underway`: what holds in between; `Store.Underway.next` says that a step keeps it.
* `Store.exists_all_done`: every order goes on to one in which all documents are done.
* `Store.interleave_merge`: when they are, the files and the report are those of a merge that takes
  one document after the other.
-/
namespace Externalize.Store

open FileSystem

/-! ### Steps -/

/-- How far the merge of a document is. -/
inductive Stage where
  | waiting
  | opened (d : Document)
  /-- The directory above the document is there. -/
  | sheltered (d : Document)
  /-- There is a new file, and it is empty. -/
  | begun (d : Document) (temporary : Place)
  | filled (d : Document) (temporary : Place)
  /-- The new file has the mode of the old one. -/
  | permitted (d : Document) (temporary : Place)
  /-- The new file cannot be filled, or cannot take the place of the old one. -/
  | refused (temporary : Place) (e : DocumentError)
  | done (result : Except DocumentError KeyAction)

namespace Stage

/-- The next step. If the name for the new file is in use, another one is to be tried. -/
def next (k : Key) (v : Text) (p : Path) (name : Name) (fs : FileSystem) :
    Stage → FileSystem × Stage
  | waiting =>
    match Document.open fs p with
    | .error e => (fs, done (.error e))
    | .ok d => (fs, opened d)
  | opened d =>
    match fs.createDirectories p.directory with
    | (fs, .error e) => (fs, done (.error (.write (.directory p.directory e))))
    | (fs, .ok ()) => (fs, sheltered d)
  | sheltered d =>
    match fs.directory p.directory with
    | .error e => (fs, done (.error (.write (.temporary p.directory e))))
    | .ok place =>
      if fs.node? (name :: place) = none then
        match fs.volume.fault? .temporary (entryIn p place) with
        | some e => (fs, done (.error (.write (.temporary p.directory e))))
        | none => (fs.insert (name :: place) (.file .empty privateMode), begun d (name :: place))
      else (fs, sheltered d)
  | begun d temporary =>
    match fs.fillTemporary p temporary (bytesOf (d.set k v).render) with
    | .error e => (fs, refused temporary (.write (.file p e)))
    | .ok fs => (fs, filled d temporary)
  | filled d temporary =>
    match fs.permitTemporary p temporary (fs.modeFor p) with
    | .error e => (fs, refused temporary (.write (.permissions p e)))
    | .ok fs => (fs, permitted d temporary)
  | permitted d temporary =>
    match fs.replaceWith temporary p with
    | .error e => (fs, refused temporary (.write (.file p e)))
    | .ok fs => (fs, done (.ok (d.action k v)))
  | refused temporary e => (fs.erase temporary, done (.error e))
  | done r => (fs, done r)

/-- The place of the new file. -/
def temporary? : Stage → Option Place
  | begun _ x | filled _ x | permitted _ x | refused x _ => some x
  | waiting | opened _ | sheltered _ | done _ => none

/-- How many steps are left at most. -/
def rank : Stage → Nat
  | waiting => 7
  | opened _ => 6
  | sheltered _ => 5
  | begun _ _ => 4
  | filled _ _ => 3
  | permitted _ _ => 2
  | refused _ _ => 1
  | done _ => 0

instance decidableDone (stage : Stage) : Decidable (∃ r, stage = .done r) :=
  match stage with
  | .done r => isTrue ⟨r, rfl⟩
  | .waiting | .opened _ | .sheltered _ | .begun _ _ | .filled _ _ | .permitted _ _
  | .refused _ _ => isFalse fun ⟨_, h⟩ => nomatch h

end Stage

/-- Steps of documents in an order, each with the name that a new file would get. -/
def interleave (k : Key) (v : Text) : FileSystem → (Path → Stage) → List (Path × Name) →
    FileSystem × (Path → Stage)
  | fs, stages, [] => (fs, stages)
  | fs, stages, (p, name) :: order =>
    let (fs, stage) := (stages p).next k v p name fs
    interleave k v fs (Function.update stages p stage) order

variable {s : Store} {base fs fs' : FileSystem} {k : Key} {v : Text} {p t : Path} {q x : Place}
  {b : ByteArray} {m : Nat} {stage : Stage} {stages : Path → Stage} {ts : List Path}
  {place : Path → Place}

/-! ### Every order goes on -/

lemma interleave_append (fs : FileSystem) (stages : Path → Stage)
    (order more : List (Path × Name)) :
    interleave k v fs stages (order ++ more) =
      interleave k v (interleave k v fs stages order).1
        (interleave k v fs stages order).2 more := by
  induction order generalizing fs stages with
  | nil => rfl
  | cons o order ih => exact ih _ _

/-- With a name that is not in use every step goes on. -/
lemma Stage.exists_rank_next_lt (k : Key) (v : Text) (p : Path) (fs : FileSystem) (stage : Stage) :
    (∃ r, stage = .done r) ∨ ∃ name, (stage.next k v p name fs).2.rank < stage.rank := by
  cases stage with
  | waiting =>
      refine .inr ⟨[], ?_⟩
      rw [next]
      split <;> simp [rank]
  | opened d =>
      refine .inr ⟨[], ?_⟩
      rw [next]
      split <;> simp [rank]
  | sheltered d =>
      right
      cases hd : fs.directory p.directory with
      | error e => exact ⟨[], by simp [next, hd, rank]⟩
      | ok place =>
          refine ⟨fs.freshName place, ?_⟩
          simp only [next, hd]
          rw [if_pos (node?_freshName fs place)]
          split <;> simp [rank]
  | begun d x | filled d x | permitted d x =>
      refine .inr ⟨[], ?_⟩
      rw [next]
      split <;> simp [rank]
  | refused x e => exact .inr ⟨[], by simp [next, rank]⟩
  | done r => exact .inl ⟨r, rfl⟩

/-- A document can be done before any other one goes on. -/
lemma exists_done (k : Key) (v : Text) (p : Path) (fs : FileSystem) (stages : Path → Stage) :
    ∃ order : List (Path × Name), (∀ o ∈ order, o.1 = p) ∧
      (∃ r, (interleave k v fs stages order).2 p = .done r) ∧
      ∀ p' ≠ p, (interleave k v fs stages order).2 p' = stages p' := by
  induction hrank : (stages p).rank using Nat.strong_induction_on generalizing fs stages with
  | _ n ih =>
      rcases Stage.exists_rank_next_lt k v p fs (stages p) with hdone | ⟨name, hlt⟩
      · exact ⟨[], by simp, hdone, fun _ _ => rfl⟩
      · obtain ⟨order, hpaths, hdone, hother⟩ := ih _ (hrank ▸ hlt)
          ((stages p).next k v p name fs).1
          (Function.update stages p ((stages p).next k v p name fs).2)
          (by rw [Function.update_self])
        refine ⟨(p, name) :: order, fun o ho => ?_, hdone, fun p' hp' => ?_⟩
        · rcases List.mem_cons.mp ho with rfl | ho
          · rfl
          · exact hpaths o ho
        · exact (hother p' hp').trans (Function.update_of_ne hp' _ _)

/-- All documents can be done. -/
theorem exists_all_done (k : Key) (v : Text) (ts : List Path) (fs : FileSystem)
    (stages : Path → Stage) : ∃ order : List (Path × Name), (∀ o ∈ order, o.1 ∈ ts) ∧
      ∀ t ∈ ts, ∃ r, (interleave k v fs stages order).2 t = .done r := by
  induction ts with
  | nil => exact ⟨[], by simp, by simp⟩
  | cons t ts ih =>
      obtain ⟨order, hpaths, hdone⟩ := ih
      obtain ⟨more, hpaths', hdone', hother⟩ := exists_done k v t
        (interleave k v fs stages order).1 (interleave k v fs stages order).2
      refine ⟨order ++ more, fun o ho => ?_, fun t' ht' => ?_⟩
      · rcases List.mem_append.mp ho with ho | ho
        · exact List.mem_cons_of_mem t (hpaths o ho)
        · rw [hpaths' o ho]
          exact List.mem_cons_self
      · rw [interleave_append]
        rcases eq_or_ne t' t with rfl | hne
        · exact hdone'
        · rw [hother t' hne]
          exact hdone t' (List.mem_of_ne_of_mem hne ht')

/-! ### What holds in between -/

/-- A document that was read and is as it was, and its new file. -/
structure Stage.Beside (fs : FileSystem) (t : Path) (q : Place) (b : ByteArray) (m : Nat)
    (d : Document) (x : Place) (n : Node) : Prop where
  old : fs.node? q = some (.file b m)
  document : Document.ofBytes t b = .ok d
  new : fs.node? x = some n
  /-- The new file is in the directory of the document. -/
  entry : entryIn t x.tail = q

/-- What a stage says of the files: the document at its place was read and is as it was, and the new
file is as far as the stage is, with no step before that fails by itself; or the document cannot be
written; or it is as it is to be. -/
def Stage.Fits (fs : FileSystem) (k : Key) (v : Text) (t : Path) (q : Place) (b : ByteArray)
    (m : Nat) : Stage → Prop
  | waiting => fs.node? q = some (.file b m)
  | opened d | sheltered d => fs.node? q = some (.file b m) ∧ Document.ofBytes t b = .ok d
  | begun d x => Beside fs t q b m d x (.file .empty privateMode) ∧
      fs.volume.fault? .temporary q = none
  | filled d x => Beside fs t q b m d x (.file (bytesOf (d.set k v).render) privateMode) ∧
      fs.volume.fault? .temporary q = none ∧ fs.volume.fault? .content q = none
  | permitted d x => Beside fs t q b m d x (.file (bytesOf (d.set k v).render) m) ∧
      fs.volume.fillError? t q = none
  | refused x e => fs.node? q = some (.file b m) ∧
      granted fs.volume t q (Document.ofBytes t b) = .error e ∧
      ∃ b' m', fs.node? x = some (.file b' m')
  | done r => fs.node? q = some (.file (mergedBytes fs.volume q k v t b) m) ∧
      r = (granted fs.volume t q (Document.ofBytes t b)).map fun d => d.action k v

namespace Stage.Fits

lemma congr (h : stage.Fits fs k v t q b m) (hvolume : fs'.volume = fs.volume)
    (hplace : fs'.node? q = fs.node? q)
    (htemporary : ∀ x, stage.temporary? = some x → fs'.node? x = fs.node? x) :
    stage.Fits fs' k v t q b m := by
  cases stage with
  | begun d x | filled d x | permitted d x =>
      rw [Fits] at h ⊢
      rw [hvolume]
      exact ⟨⟨hplace.trans h.1.old, h.1.document, (htemporary x rfl).trans h.1.new, h.1.entry⟩, h.2⟩
  | refused x e =>
      rw [Fits] at h ⊢
      rwa [hvolume, hplace, htemporary x rfl]
  | _ =>
      rw [Fits] at h ⊢
      first
        | rwa [hplace]
        | rwa [hplace, hvolume]

lemma exists_file (h : stage.Fits fs k v t q b m) : ∃ b', fs.node? q = some (.file b' m) := by
  cases stage with
  | waiting => exact ⟨b, h⟩
  | begun d x | filled d x | permitted d x => exact ⟨b, h.1.old⟩
  | _ => exact ⟨_, h.1⟩

lemma exists_temporary (h : stage.Fits fs k v t q b m) (hx : stage.temporary? = some x) :
    ∃ b' m', fs.node? x = some (.file b' m') := by
  cases stage with
  | begun d x | filled d x | permitted d x =>
      obtain rfl := Option.some_injective _ hx
      exact ⟨_, _, h.1.new⟩
  | refused x e =>
      obtain rfl := Option.some_injective _ hx
      exact h.2.2
  | _ => cases hx

/-- A document that cannot be opened or written is as it was when it is done. -/
lemma done_of_error {e : DocumentError} (hnode : fs.node? q = some (.file b m))
    (h : granted fs.volume t q (Document.ofBytes t b) = .error e) :
    (Stage.done (.error e)).Fits fs k v t q b m :=
  ⟨by rw [hnode, mergedBytes_of_error h], by rw [h]; rfl⟩

lemma done_of_ok {d : Document} (hnode : fs.node? q = some (.file (bytesOf (d.set k v).render) m))
    (h : granted fs.volume t q (Document.ofBytes t b) = .ok d) :
    (Stage.done (.ok (d.action k v))).Fits fs k v t q b m :=
  ⟨by rw [hnode, mergedBytes_of_ok h], by rw [h]; rfl⟩

end Stage.Fits

/-- A new file, once one document has gone on, is that document's, or it is as it was. -/
lemma temporary?_update {t' : Path} (hx : (Function.update stages t stage t').temporary? = some x) :
    t' = t ∧ stage.temporary? = some x ∨ t' ≠ t ∧ (stages t').temporary? = some x := by
  rcases eq_or_ne t' t with rfl | hne
  · rw [Function.update_self] at hx
    exact .inl ⟨rfl, hx⟩
  · rw [Function.update_of_ne hne] at hx
    exact .inr ⟨hne, hx⟩

/-- What holds in between: each stage fits the files, the new files have places of their own, and
nothing else has changed. -/
structure Underway (base fs : FileSystem) (k : Key) (v : Text) (ts : List Path)
    (place : Path → Place) (stages : Path → Stage) : Prop where
  current : fs.current = base.current
  volume : fs.volume = base.volume
  fits : ∀ t ∈ ts, ∀ b m, base.node? (place t) = some (.file b m) →
    (stages t).Fits fs k v t (place t) b m
  fresh : ∀ t ∈ ts, ∀ x, (stages t).temporary? = some x → base.node? x = none
  apart : ∀ t ∈ ts, ∀ t' ∈ ts, ∀ x, (stages t).temporary? = some x →
    (stages t').temporary? = some x → t = t'
  other : ∀ q, (∀ t ∈ ts, place t ≠ q ∧ (stages t).temporary? ≠ some q) →
    fs.node? q = base.node? q

namespace Underway

lemma start (base : FileSystem) (k : Key) (v : Text) (ts : List Path) (place : Path → Place) :
    Underway base base k v ts place fun _ => .waiting where
  current := rfl
  volume := rfl
  fits _ _ _ _ h := h
  fresh _ _ _ h := nomatch h
  apart _ _ _ _ _ h := nomatch h
  other _ _ := rfl

variable (h : Underway base fs k v ts place stages) (hfiles : HaveFiles base ts place)
include h hfiles

/-- Directories and links are there still. -/
lemma keepsWays : KeepsWays base fs where
  current := h.current
  node? q n hn hq := by
    rw [h.other, hq]
    intro t ht
    refine ⟨?_, fun hx => ?_⟩
    · rintro rfl
      obtain ⟨b, m, hfile⟩ := hfiles.file t ht
      rw [hfile.node?_eq] at hq
      exact hn b m (Option.some_injective _ hq).symm
    · rw [h.fresh t ht q hx] at hq
      cases hq

/-- The path of a document leads to the file at its place. -/
lemma hasFile (ht : t ∈ ts) (hnode : fs.node? (place t) = some (.file b m)) :
    HasFile fs t (place t) b m := by
  obtain ⟨b₀, m₀, hfile⟩ := hfiles.file t ht
  exact hfile.keep (h.keepsWays hfiles) hnode

/-- A place where nothing is was empty before, and no document has a new file there. -/
lemma of_node?_eq_none (hx : fs.node? x = none) :
    base.node? x = none ∧ ∀ t ∈ ts, (stages t).temporary? ≠ some x := by
  have hnone : ∀ t ∈ ts, place t ≠ x ∧ (stages t).temporary? ≠ some x := by
    intro t ht
    obtain ⟨b, m, hfile⟩ := hfiles.file t ht
    have hfits := h.fits t ht b m hfile.node?_eq
    refine ⟨?_, fun htemporary => ?_⟩
    · rintro rfl
      obtain ⟨b', hb'⟩ := hfits.exists_file
      rw [hx] at hb'
      cases hb'
    · obtain ⟨b', m', hb'⟩ := hfits.exists_temporary htemporary
      rw [hx] at hb'
      cases hb'
  exact ⟨(h.other x hnone).symm.trans hx, fun t ht => (hnone t ht).2⟩

/-- One document goes on, and only its own entries change. -/
lemma update (ht : t ∈ ts) (hb : base.node? (place t) = some (.file b m))
    (hcurrent : fs'.current = fs.current) (hvolume : fs'.volume = fs.volume)
    (hfits : stage.Fits fs' k v t (place t) b m)
    (hnew : ∀ x, stage.temporary? = some x → base.node? x = none ∧
      ∀ t' ∈ ts, t' ≠ t → (stages t').temporary? ≠ some x)
    (hold : ∀ x, (stages t).temporary? = some x → stage.temporary? ≠ some x → fs'.node? x = none)
    (hother : ∀ q, q ≠ place t → (stages t).temporary? ≠ some q → stage.temporary? ≠ some q →
      fs'.node? q = fs.node? q) :
    Underway base fs' k v ts place (Function.update stages t stage) where
  current := hcurrent.trans h.current
  volume := hvolume.trans h.volume
  fits t' ht' b m hnode := by
    rcases eq_or_ne t' t with rfl | hne
    · rw [Function.update_self]
      cases hb.symm.trans hnode
      exact hfits
    · -- neither its document nor its new file is an entry of the one that goes on
      have hplace : ∀ x, base.node? x = none → place t' ≠ x := fun x => hfiles.place_ne ht'
      rw [Function.update_of_ne hne]
      refine (h.fits t' ht' b m hnode).congr hvolume (hother _ ?_ ?_ ?_) fun x hx =>
        hother x ?_ ?_ ?_
      · exact fun heq => hne (hfiles.apart t' ht' t ht heq)
      · exact fun hx => hplace _ (h.fresh t ht _ hx) rfl
      · exact fun hx => hplace _ (hnew _ hx).1 rfl
      · exact (hfiles.place_ne ht (h.fresh t' ht' x hx)).symm
      · exact fun hx' => hne (h.apart t' ht' t ht x hx hx')
      · exact fun hx' => (hnew x hx').2 t' ht' hne hx
  fresh t' ht' x hx := by
    rcases temporary?_update hx with ⟨-, hown⟩ | ⟨-, hkept⟩
    · exact (hnew x hown).1
    · exact h.fresh t' ht' x hkept
  apart t₁ h₁ t₂ h₂ x hx₁ hx₂ := by
    rcases temporary?_update hx₁ with ⟨heq₁, hown₁⟩ | ⟨hne₁, hkept₁⟩ <;>
      rcases temporary?_update hx₂ with ⟨heq₂, hown₂⟩ | ⟨hne₂, hkept₂⟩
    · exact heq₁.trans heq₂.symm
    · exact absurd hkept₂ ((hnew x hown₁).2 t₂ h₂ hne₂)
    · exact absurd hkept₁ ((hnew x hown₂).2 t₁ h₁ hne₁)
    · exact h.apart t₁ h₁ t₂ h₂ x hkept₁ hkept₂
  other q hq := by
    obtain ⟨hplace, hstage⟩ := hq t ht
    rw [Function.update_self] at hstage
    by_cases hx : (stages t).temporary? = some q
    · rw [hold q hx hstage, h.fresh t ht q hx]
    · rw [hother q hplace.symm hx hstage]
      refine h.other q fun t' ht' => ?_
      rcases eq_or_ne t' t with rfl | hne
      · exact ⟨hplace, hx⟩
      · have hq' := hq t' ht'
        rwa [Function.update_of_ne hne] at hq'

/-- A step of a document that only its stage tells of. -/
lemma update_stage (ht : t ∈ ts) (hb : base.node? (place t) = some (.file b m))
    (hnew : stage.temporary? = (stages t).temporary?)
    (hfits : stage.Fits fs k v t (place t) b m) :
    Underway base fs k v ts place (Function.update stages t stage) := by
  refine h.update hfiles ht hb rfl rfl hfits (fun x hx => ?_) (fun x hx hne => ?_)
    fun _ _ _ _ => rfl
  · rw [hnew] at hx
    exact ⟨h.fresh t ht x hx, fun t' ht' hne hx' => hne (h.apart t' ht' t ht x hx' hx)⟩
  · exact absurd (hnew.trans hx) hne

/-- A step of a document that fails when there is a new file. -/
lemma update_refused (ht : t ∈ ts) (hb : base.node? (place t) = some (.file b m))
    (hx : (stages t).temporary? = some x) {d : Document} {b' : ByteArray} {m' : Nat}
    (hbeside : Stage.Beside fs t (place t) b m d x (.file b' m')) {e : WriteError}
    (hfault : fs.volume.writeError? t (place t) = some e) :
    Underway base fs k v ts place (Function.update stages t (.refused x (.write e))) := by
  refine h.update_stage hfiles ht hb hx.symm ⟨hbeside.old, ?_, _, _, hbeside.new⟩
  rw [hbeside.document, granted_of_some hfault]

/-- A new file that changes is another one than the document. -/
lemma node?_insert_temporary (ht : t ∈ ts) (hx : (stages t).temporary? = some x) (n : Node) :
    (∀ q, (fs.insert x n).node? q = if q = x then some n else fs.node? q) ∧ place t ≠ x := by
  have hnone := h.fresh t ht x hx
  refine ⟨fun q => node?_insert _ ?_ q n, hfiles.place_ne ht hnone⟩
  rintro rfl
  cases hnone

/-- A new file that changes is beside the document still. -/
lemma beside_insert (ht : t ∈ ts) (hx : (stages t).temporary? = some x) {d : Document} {n : Node}
    (hbeside : Stage.Beside fs t (place t) b m d x n) (n' : Node) :
    Stage.Beside (fs.insert x n') t (place t) b m d x n' := by
  obtain ⟨hinsert, hne⟩ := h.node?_insert_temporary hfiles ht hx n'
  exact ⟨by rw [hinsert, if_neg hne, hbeside.old], hbeside.document, by rw [hinsert, if_pos rfl],
    hbeside.entry⟩

omit hfiles in
lemma node?_erase_temporary (ht : t ∈ ts) (hx : (stages t).temporary? = some x) (q : Place) :
    (fs.erase x).node? q = if q = x then none else fs.node? q := by
  refine node?_erase fs ?_ q
  rintro rfl
  cases h.fresh t ht [] hx

/-- A step of a document that changes its new file. -/
lemma update_temporary (ht : t ∈ ts) (hb : base.node? (place t) = some (.file b m))
    (hold : (stages t).temporary? = some x) (hnew : stage.temporary? = some x) {n : Node}
    (hfits : stage.Fits (fs.insert x n) k v t (place t) b m) :
    Underway base (fs.insert x n) k v ts place (Function.update stages t stage) := by
  obtain ⟨hinsert, -⟩ := h.node?_insert_temporary hfiles ht hold n
  refine h.update hfiles ht hb rfl rfl hfits (fun x' hx' => ?_) (fun x' hx' hne' => ?_)
    fun q _ hq _ => ?_
  · obtain rfl : x = x' := Option.some_injective _ (hnew.symm.trans hx')
    exact ⟨h.fresh t ht x hold, fun t' ht' hne' hx' => hne' (h.apart t' ht' t ht x hx' hold)⟩
  · exact absurd (hnew.trans (hold.symm.trans hx')) hne'
  · rw [hinsert, if_neg]
    rintro rfl
    exact hq hold

/-- A step of a document that makes its new file, where nothing is. -/
lemma update_insert (ht : t ∈ ts) (hb : base.node? (place t) = some (.file b m))
    (hold : (stages t).temporary? = none) (hnew : stage.temporary? = some x)
    (hx : fs.node? x = none) {n : Node} (hinsert : ∀ q ≠ x, (fs.insert x n).node? q = fs.node? q)
    (hfits : stage.Fits (fs.insert x n) k v t (place t) b m) :
    Underway base (fs.insert x n) k v ts place (Function.update stages t stage) := by
  obtain ⟨hnone, hothers⟩ := h.of_node?_eq_none hfiles hx
  refine h.update hfiles ht hb rfl rfl hfits (fun y hy => ?_) (fun y hy _ => ?_)
    fun q _ _ hq => hinsert q ?_
  · obtain rfl : x = y := Option.some_injective _ (hnew.symm.trans hy)
    exact ⟨hnone, fun t' ht' _ => hothers t' ht'⟩
  · rw [hold] at hy
    cases hy
  · rintro rfl
    exact hq hnew

/-- A step of a document whose new file takes its place, or is taken away. -/
lemma update_replace (ht : t ∈ ts) (hb : base.node? (place t) = some (.file b m))
    (hold : (stages t).temporary? = some x) (hnew : stage.temporary? = none)
    (hcurrent : fs'.current = fs.current) (hvolume : fs'.volume = fs.volume)
    (hx : fs'.node? x = none)
    (hother : ∀ q ≠ place t, q ≠ x → fs'.node? q = fs.node? q)
    (hfits : stage.Fits fs' k v t (place t) b m) :
    Underway base fs' k v ts place (Function.update stages t stage) := by
  refine h.update hfiles ht hb hcurrent hvolume hfits (fun y hy => ?_) (fun y hy _ => ?_)
    fun q hq hq' _ => hother q hq ?_
  · rw [hnew] at hy
    cases hy
  · obtain rfl : x = y := Option.some_injective _ (hold.symm.trans hy)
    exact hx
  · rintro rfl
    exact hq' hold

/-- The document is read, and is opened or done. -/
lemma next_waiting (ht : t ∈ ts) (hb : base.node? (place t) = some (.file b m))
    (hstage : stages t = .waiting) (name : Name) :
    Underway base (Stage.waiting.next k v t name fs).1 k v ts place
      (Function.update stages t (Stage.waiting.next k v t name fs).2) := by
  have hnode := h.fits t ht b m hb
  rw [hstage] at hnode
  rw [Stage.next, open_of_hasFile (h.hasFile hfiles ht hnode)]
  cases hdoc : Document.ofBytes t b with
  | error e =>
      refine h.update_stage hfiles ht hb (by rw [hstage]; rfl) (.done_of_error hnode ?_)
      rw [hdoc]
      rfl
  | ok d => exact h.update_stage hfiles ht hb (by rw [hstage]; rfl) ⟨hnode, hdoc⟩

/-- A new file is made, unless it cannot be or its name is in use. -/
lemma next_sheltered (ht : t ∈ ts) (hb : base.node? (place t) = some (.file b m)) {d : Document}
    (hstage : stages t = .sheltered d) (name : Name) :
    Underway base ((Stage.sheltered d).next k v t name fs).1 k v ts place
      (Function.update stages t ((Stage.sheltered d).next k v t name fs).2) := by
  have hfits := h.fits t ht b m hb
  rw [hstage] at hfits
  obtain ⟨hnode, hdoc⟩ := hfits
  have hkept := h.hasFile hfiles ht hnode
  obtain ⟨d', hd, -⟩ := hkept.exists_directory
  simp only [Stage.next, hd, hkept.entryIn_eq hd]
  split_ifs with hname
  · cases hfault : fs.volume.fault? .temporary (place t) with
    | some e =>
        refine h.update_stage hfiles ht hb (by rw [hstage]; rfl) (.done_of_error hnode ?_)
        rw [hdoc, granted_of_some]
        simp [Volume.writeError?, Volume.fillError?, hfault]
    | none =>
        have hinsert := fun q =>
          node?_insert fs (List.cons_ne_nil name d') q (.file .empty privateMode)
        have hplace : place t ≠ name :: d' := by
          intro heq
          rw [← heq, hnode] at hname
          cases hname
        refine h.update_insert hfiles ht hb (by rw [hstage]; rfl) rfl hname
          (fun q hq => (hinsert q).trans (if_neg hq))
          ⟨⟨?_, hdoc, (hinsert _).trans (if_pos rfl), hkept.entryIn_eq hd⟩, hfault⟩
        rw [hinsert, if_neg hplace, hnode]
  · exact h.update_stage hfiles ht hb (by rw [hstage]) ⟨hnode, hdoc⟩

/-- The new file gets its content. -/
lemma next_begun (ht : t ∈ ts) (hb : base.node? (place t) = some (.file b m)) {d : Document}
    (hstage : stages t = .begun d x) (name : Name) :
    Underway base ((Stage.begun d x).next k v t name fs).1 k v ts place
      (Function.update stages t ((Stage.begun d x).next k v t name fs).2) := by
  have hfits := h.fits t ht b m hb
  have hx : (stages t).temporary? = some x := by rw [hstage]; rfl
  rw [hstage] at hfits
  obtain ⟨hbeside, htemporary⟩ := hfits
  rw [Stage.next, fillTemporary, hbeside.entry]
  cases hfault : fs.volume.fault? .content (place t) with
  | some e =>
      refine h.update_refused hfiles ht hb hx hbeside ?_
      simp [Volume.writeError?, Volume.fillError?, htemporary, hfault]
  | none =>
      refine h.update_temporary hfiles ht hb hx rfl ⟨?_, htemporary, hfault⟩
      exact h.beside_insert hfiles ht hx hbeside _

/-- The new file gets its mode. -/
lemma next_filled (ht : t ∈ ts) (hb : base.node? (place t) = some (.file b m)) {d : Document}
    (hstage : stages t = .filled d x) (name : Name) :
    Underway base ((Stage.filled d x).next k v t name fs).1 k v ts place
      (Function.update stages t ((Stage.filled d x).next k v t name fs).2) := by
  have hfits := h.fits t ht b m hb
  have hx : (stages t).temporary? = some x := by rw [hstage]; rfl
  rw [hstage] at hfits
  obtain ⟨hbeside, htemporary, hcontent⟩ := hfits
  rw [Stage.next, (h.hasFile hfiles ht hbeside.old).modeFor_eq, permitTemporary]
  simp only [hbeside.new, hbeside.entry]
  cases hfault : fs.volume.fault? .mode (place t) with
  | some e =>
      refine h.update_refused hfiles ht hb hx hbeside ?_
      simp [Volume.writeError?, Volume.fillError?, htemporary, hcontent, hfault]
  | none =>
      refine h.update_temporary hfiles ht hb hx rfl ⟨h.beside_insert hfiles ht hx hbeside _, ?_⟩
      have hvolume : ∀ n, (fs.insert x n).volume = fs.volume := fun _ => rfl
      simp [Volume.fillError?, hvolume, htemporary, hcontent, hfault]

/-- The new file takes the place of the old one. -/
lemma next_permitted (ht : t ∈ ts) (hb : base.node? (place t) = some (.file b m)) {d : Document}
    (hstage : stages t = .permitted d x) (name : Name) :
    Underway base ((Stage.permitted d x).next k v t name fs).1 k v ts place
      (Function.update stages t ((Stage.permitted d x).next k v t name fs).2) := by
  have hfits := h.fits t ht b m hb
  have hx : (stages t).temporary? = some x := by rw [hstage]; rfl
  rw [hstage] at hfits
  obtain ⟨hbeside, hfill⟩ := hfits
  have hkept := h.hasFile hfiles ht hbeside.old
  rw [Stage.next, hkept.replaceWith_eq hbeside.new]
  cases hfault : fs.volume.fault? .rename (place t) with
  | some e =>
      refine h.update_refused hfiles ht hb hx hbeside ?_
      simp [Volume.writeError?, hfill, hfault]
  | none =>
      have hne := hfiles.place_ne ht (h.fresh t ht x hx)
      have hput := fun q => node?_insert (fs.erase x) hkept.ne_nil q
        (.file (bytesOf (d.set k v).render) m)
      have herase := fun q => h.node?_erase_temporary ht hx q
      have hgranted : granted fs.volume t (place t) (Document.ofBytes t b) = .ok d :=
        granted_eq_ok_iff.mpr ⟨hbeside.document, by simp [Volume.writeError?, hfill, hfault]⟩
      simp only
      refine h.update_replace hfiles ht hb hx rfl rfl rfl ?_ (fun q hq hq' => ?_)
        (.done_of_ok ?_ hgranted)
      · rw [hput, if_neg hne.symm, herase, if_pos rfl]
      · rw [hput, if_neg hq, herase, if_neg hq']
      · rw [hput, if_pos rfl]

/-- The new file is taken away. -/
lemma next_refused (ht : t ∈ ts) (hb : base.node? (place t) = some (.file b m))
    {e : DocumentError} (hstage : stages t = .refused x e) (name : Name) :
    Underway base ((Stage.refused x e).next k v t name fs).1 k v ts place
      (Function.update stages t ((Stage.refused x e).next k v t name fs).2) := by
  have hfits := h.fits t ht b m hb
  have hx : (stages t).temporary? = some x := by rw [hstage]; rfl
  rw [hstage] at hfits
  obtain ⟨hnode, herror, -⟩ := hfits
  have hne := hfiles.place_ne ht (h.fresh t ht x hx)
  have herase := fun q => h.node?_erase_temporary ht hx q
  rw [Stage.next]
  refine h.update_replace hfiles ht hb hx rfl rfl rfl ?_ (fun q _ hq => ?_)
    (.done_of_error ?_ herror)
  · rw [herase, if_pos rfl]
  · rw [herase, if_neg hq]
  · rw [herase, if_neg hne, hnode]

/-- A step of a document keeps what holds in between. -/
theorem next (ht : t ∈ ts) (name : Name) :
    Underway base ((stages t).next k v t name fs).1 k v ts place
      (Function.update stages t ((stages t).next k v t name fs).2) := by
  obtain ⟨b, m, hfile⟩ := hfiles.file t ht
  have hb := hfile.node?_eq
  cases hstage : stages t with
  | waiting => exact h.next_waiting hfiles ht hb hstage name
  | opened d =>
      -- the directory above a document is there, and stays
      have hfits := h.fits t ht b m hb
      rw [hstage] at hfits
      obtain ⟨-, -, hmade⟩ := (h.hasFile hfiles ht hfits.1).exists_directory
      rw [Stage.next, hmade]
      exact h.update_stage hfiles ht hb (by rw [hstage]; rfl) hfits
  | sheltered d => exact h.next_sheltered hfiles ht hb hstage name
  | begun d x => exact h.next_begun hfiles ht hb hstage name
  | filled d x => exact h.next_filled hfiles ht hb hstage name
  | permitted d x => exact h.next_permitted hfiles ht hb hstage name
  | refused x e => exact h.next_refused hfiles ht hb hstage name
  | done r =>
      rw [Stage.next, ← hstage, Function.update_eq_self]
      exact h

/-- Steps in any order keep what holds in between. -/
theorem interleave {order : List (Path × Name)} (horder : ∀ o ∈ order, o.1 ∈ ts) :
    Underway base (Store.interleave k v fs stages order).1 k v ts place
      (Store.interleave k v fs stages order).2 := by
  induction order generalizing fs stages with
  | nil => exact h
  | cons o order ih =>
      exact ih (h.next hfiles (horder o List.mem_cons_self) o.2)
        fun o' ho' => horder o' (List.mem_cons_of_mem o ho')

omit hfiles in
/-- When all documents are done, the files are those of a merge. -/
lemma filesMerged (hdone : ∀ t ∈ ts, ∃ r, stages t = .done r) :
    FilesMerged base fs k v ts place where
  current := h.current
  volume := h.volume
  file t ht b m hb := by
    obtain ⟨r, hr⟩ := hdone t ht
    have hfits := h.fits t ht b m hb
    rw [hr] at hfits
    rw [← h.volume]
    exact hfits.1
  other q hq := by
    refine h.other q fun t ht => ⟨hq t ht, ?_⟩
    obtain ⟨r, hr⟩ := hdone t ht
    rw [hr]
    exact fun hx => nomatch hx

/-- A document that is done has the result that it has by itself. -/
lemma result_eq (ht : t ∈ ts) {r : Except DocumentError KeyAction} (hr : stages t = .done r) :
    r = outcome base (place t) k v t := by
  obtain ⟨b, m, hfile⟩ := hfiles.file t ht
  have hfits := h.fits t ht b m hfile.node?_eq
  rw [hr] at hfits
  rw [outcome, writable_of_hasFile hfile, ← h.volume]
  exact hfits.2

end Underway

/-! ### A whole merge -/

/-- **The documents of a merge can go on in any order.** If all of them are files, every order of
their steps goes on to one in which all are done; and once they are, the files are those of a merge
that takes one document after the other, and the report on the results is its report. -/
theorem interleave_merge (s : Store) (fs : FileSystem) (k : Key) (v : Text) (hfs : fs.WellFormed)
    (hregular : ∀ t ∈ (s.targets (s.ready fs)).1, ∃ q b m,
      (s.ready fs).resolve false t = .ok ⟨q, some (.file b m)⟩)
    {report : MergeReport} (hmerge : (s.merge fs k v).result = .ok report)
    {order : List (Path × Name)} (horder : ∀ o ∈ order, o.1 ∈ (s.targets (s.ready fs)).1)
    {out : FileSystem} {stages : Path → Stage}
    (hrun : interleave k v (s.ready fs) (fun _ => .waiting) order = (out, stages)) :
    (∃ more : List (Path × Name), (∀ o ∈ more, o.1 ∈ (s.targets (s.ready fs)).1) ∧
      ∀ t ∈ (s.targets (s.ready fs)).1, ∃ r, (interleave k v out stages more).2 t = .done r) ∧
    ((∀ t ∈ (s.targets (s.ready fs)).1, ∃ r, stages t = .done r) →
      (out.current = (s.merge fs k v).files.current ∧
        out.volume = (s.merge fs k v).files.volume ∧
        ∀ q, out.node? q = (s.merge fs k v).files.node? q) ∧
      ∃ results, results.map Prod.fst = (s.targets (s.ready fs)).1 ∧
        (∀ r ∈ results, stages r.1 = .done r.2) ∧
        Store.report (s.targets (s.ready fs)).2 results = report) := by
  refine ⟨exists_all_done k v _ out stages, fun hdone => ?_⟩
  have hready := s.ready_wellFormed hfs
  obtain ⟨place, hfiles⟩ := exists_place hready fun t ht => by
    obtain ⟨q, b, m, hq⟩ := hregular t ht
    exact ⟨q, b, m, .of_resolve hq⟩
  have hunderway := (Underway.start (s.ready fs) k v _ place).interleave hfiles horder
  rw [hrun] at hunderway
  obtain ⟨results, hresults, rfl⟩ := merge_eq hmerge
  obtain ⟨files, hall, -, hmerged⟩ :=
    mergeAll_files (k := k) (v := v) hfiles (nodup_targets hready)
  obtain ⟨rfl, rfl⟩ := Prod.mk.inj (hresults.symm.trans hall)
  have hinterleaved := hunderway.filesMerged hdone
  refine ⟨⟨hinterleaved.current.trans hmerged.current.symm,
    hinterleaved.volume.trans hmerged.volume.symm, hinterleaved.node?_eq hmerged hfiles⟩,
    _, ?_, fun r hr => ?_, rfl⟩
  · rw [List.map_map]
    exact List.map_id' _
  · obtain ⟨t, ht, rfl⟩ := List.mem_map.mp hr
    obtain ⟨r, hr⟩ := hdone t ht
    rw [hr, hunderway.result_eq hfiles ht hr]

/-- A directory with two documents that open, and one between them that does not. -/
def betweenBroken : FileSystem where
  entries :=
    [(["l10n".toList], .directory),
      (["de.arb".toList, "l10n".toList], .file (bytesOf "\x7b\x7d".toList) 0o600),
      (["en.arb".toList, "l10n".toList], .file (bytesOf "\x7b".toList) 0o644),
      (["fr.arb".toList, "l10n".toList], .file (bytesOf "\x7b\x7d".toList) 0o644)]
  current := []

/-- An order in which two documents take turns, the second one finds the name of the new file of the
first one in use, and is done before it. -/
def takingTurns : List (Path × Name) :=
  [("l10n/de.arb", ""), ("l10n/fr.arb", ""), ("l10n/de.arb", ""), ("l10n/fr.arb", ""),
    ("l10n/de.arb", "x"), ("l10n/fr.arb", "x"), ("l10n/fr.arb", "y"), ("l10n/fr.arb", ""),
    ("l10n/de.arb", ""), ("l10n/en.arb", ""), ("l10n/fr.arb", ""), ("l10n/fr.arb", ""),
    ("l10n/de.arb", ""), ("l10n/de.arb", "")].map fun o => (.ofString o.1, o.2.toList)

/-- A key for these documents. -/
def greeting : Key := ⟨"hi".toList, by decide⟩

/-- Two documents that take turns are merged into as they are one after the other. -/
theorem interleave_merge_takingTurns : ∃ report out stages,
    (ofHalfBroken.merge betweenBroken greeting "Hi".toList).result = .ok report ∧
    interleave greeting "Hi".toList betweenBroken (fun _ => .waiting) takingTurns = (out, stages) ∧
    report.written.map (·.path) = [⟨"l10n/de.arb".toList⟩, ⟨"l10n/fr.arb".toList⟩] ∧
    ∀ q, out.node? q = (ofHalfBroken.merge betweenBroken greeting "Hi".toList).files.node? q := by
  obtain ⟨report, hreport, hwritten⟩ : ∃ report,
      (ofHalfBroken.merge betweenBroken greeting "Hi".toList).result = .ok report ∧
      report.written.map (·.path) = [⟨"l10n/de.arb".toList⟩, ⟨"l10n/fr.arb".toList⟩] := by
    decide +kernel
  have hready : ofHalfBroken.ready betweenBroken = betweenBroken := by decide +kernel
  have horder : ∀ o ∈ takingTurns,
      o.1 ∈ (ofHalfBroken.targets (ofHalfBroken.ready betweenBroken)).1 := by decide +kernel
  have hdone : ∀ t ∈ (ofHalfBroken.targets (ofHalfBroken.ready betweenBroken)).1, ∃ r,
      (interleave greeting "Hi".toList betweenBroken (fun _ => .waiting) takingTurns).2 t =
        .done r := by decide +kernel
  rcases hrun : interleave greeting "Hi".toList betweenBroken (fun _ => .waiting) takingTurns
    with ⟨out, stages⟩
  rw [hrun] at hdone
  have hrun' : interleave greeting "Hi".toList (ofHalfBroken.ready betweenBroken)
      (fun _ => .waiting) takingTurns = (out, stages) := by
    rw [hready]
    exact hrun
  obtain ⟨-, hthen⟩ := interleave_merge ofHalfBroken betweenBroken greeting "Hi".toList
    (by decide +kernel) (by decide +kernel) hreport horder hrun'
  exact ⟨report, out, stages, hreport, rfl, hwritten, (hthen hdone).1.2.2⟩

end Externalize.Store
