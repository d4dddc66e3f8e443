import Mathlib.Tactic
import Externalize.Files.Access

/-
Walks along the names of a path.

* `FileSystem.Walk`: the walk as a relation, one rule for each thing that a name can lead to;
  `walk_eq_ok_iff` says that the search finds exactly what the rules derive.
* `FileSystem.Walk.split`, `FileSystem.Walk.append`: a walk goes on from the directory that its
  first names lead to.
* `FileSystem.Keeps`: what a change has to keep for walks to lead to the same directories, and to
  files where there were files. A link may give way to a file if no directory is found through it.
* `FileSystem.Walk.keep_directory`, `FileSystem.Walk.keep_file`: such a change does so.
* `FileSystem.Walk.transfer`: what a walk does not meet does not matter.
-/
namespace Externalize.FileSystem

/-! ### The rules of a walk -/

/-- A name that can be one of an entry: no step to the place itself or up, and not too long. -/
def IsEntryName (n : Name) : Prop := n ≠ ['.'] ∧ n ≠ ['.', '.'] ∧ n.size ≤ maxNameSize

/-- The walk from a directory along some names, through at most so many links, leads to this. -/
inductive Walk (fs : FileSystem) (follow : Bool) : Nat → Place → List Name → Found → Prop
  | done {links : Nat} {here : Place} : Walk fs follow links here [] ⟨here, some .directory⟩
  | stay {links : Nat} {here : Place} {rest : List Name} {f : Found}
      (h : Walk fs follow links here rest f) : Walk fs follow links here (['.'] :: rest) f
  | up {links : Nat} {here : Place} {rest : List Name} {f : Found}
      (h : Walk fs follow links here.tail rest f) : Walk fs follow links here (['.', '.'] :: rest) f
  | missing {links : Nat} {here : Place} {n : Name} (hn : IsEntryName n)
      (hnode : fs.node? (n :: here) = none) : Walk fs follow links here [n] ⟨n :: here, none⟩
  | file {links : Nat} {here : Place} {n : Name} {b : ByteArray} {m : Nat} (hn : IsEntryName n)
      (hnode : fs.node? (n :: here) = some (.file b m)) :
      Walk fs follow links here [n] ⟨n :: here, some (.file b m)⟩
  | link {links : Nat} {here : Place} {n : Name} {target : Path} (hn : IsEntryName n)
      (hnode : fs.node? (n :: here) = some (.link target)) (hfollow : follow = false) :
      Walk fs follow links here [n] ⟨n :: here, some (.link target)⟩
  | enter {links : Nat} {here : Place} {n : Name} {rest : List Name} {f : Found}
      (hn : IsEntryName n) (hnode : fs.node? (n :: here) = some .directory)
      (h : Walk fs follow links (n :: here) rest f) : Walk fs follow links here (n :: rest) f
  | through {links : Nat} {here : Place} {n : Name} {target : Path} {rest : List Name} {f : Found}
      (hn : IsEntryName n) (hnode : fs.node? (n :: here) = some (.link target))
      (hfollow : rest ≠ [] ∨ follow = true)
      (h : Walk fs follow links (startOf target here) (target.names ++ rest) f) :
      Walk fs follow (links + 1) here (n :: rest) f

variable {fs fs' : FileSystem} {follow : Bool} {links : Nat} {here d p : Place} {n : Name}
  {ns rest : List Name} {f : Found}

/-- What becomes of a walk at a link. -/
def walkLink (fs : FileSystem) (follow : Bool) (here : Place) (target : Path)
    (rest : List Name) : Nat → Except OsError Found
  | 0 => .error .tooManyLinks
  | links + 1 => fs.walk follow links (startOf target here) (target.names ++ rest)

lemma walk_nil (fs : FileSystem) (follow : Bool) (links : Nat) (here : Place) :
    fs.walk follow links here [] = .ok ⟨here, some .directory⟩ := by
  cases links <;> rfl

lemma walk_stay (fs : FileSystem) (follow : Bool) (links : Nat) (here : Place)
    (rest : List Name) :
    fs.walk follow links here (['.'] :: rest) = fs.walk follow links here rest := by
  cases links <;> rw [walk, walkNames, if_pos rfl]

lemma walk_up (fs : FileSystem) (follow : Bool) (links : Nat) (here : Place) (rest : List Name) :
    fs.walk follow links here (['.', '.'] :: rest) = fs.walk follow links here.tail rest := by
  cases links <;> rw [walk, walkNames, if_neg (by decide), if_pos rfl]

lemma walk_long (h₁ : n ≠ ['.']) (h₂ : n ≠ ['.', '.']) (h : maxNameSize < n.size) :
    fs.walk follow links here (n :: rest) = .error .nameTooLong := by
  cases links <;> rw [walk, walkNames, if_neg h₁, if_neg h₂, if_pos h]

lemma walk_entry (hn : IsEntryName n) :
    fs.walk follow links here (n :: rest) =
      match fs.node? (n :: here) with
      | none => if rest.isEmpty then .ok ⟨n :: here, none⟩ else .error .notFound
      | some .directory => fs.walk follow links (n :: here) rest
      | some (.file b m) =>
        if rest.isEmpty then .ok ⟨n :: here, some (.file b m)⟩ else .error .notDirectory
      | some (.link target) =>
        if rest.isEmpty && !follow then .ok ⟨n :: here, some (.link target)⟩
        else walkLink fs follow here target rest links := by
  obtain ⟨h₁, h₂, h₃⟩ := hn
  cases links <;>
    (rw [walk, walkNames, if_neg h₁, if_neg h₂, if_neg (by omega)]
     rcases fs.node? (n :: here) with _ | ⟨⟩ <;> rfl)

/-- A name is a step to the place itself, a step up, too long, or that of an entry. -/
lemma name_cases (n : Name) :
    n = ['.'] ∨ n = ['.', '.'] ∨ (n ≠ ['.'] ∧ n ≠ ['.', '.'] ∧ maxNameSize < n.size) ∨
      IsEntryName n := by
  unfold IsEntryName
  by_cases h₁ : n = ['.']
  · exact .inl h₁
  · by_cases h₂ : n = ['.', '.']
    · exact .inr (.inl h₂)
    · rcases Nat.lt_or_ge maxNameSize n.size with h | h
      · exact .inr (.inr (.inl ⟨h₁, h₂, h⟩))
      · exact .inr (.inr (.inr ⟨h₁, h₂, h⟩))

/-- A walk is over names first and, at a link, over links. -/
@[elab_as_elim]
theorem walk_induction {P : Nat → Place → List Name → Prop} (nil : ∀ links here, P links here [])
    (cons : ∀ links here n rest, (∀ here', P links here' rest) →
      (∀ k < links, ∀ here' ns, P k here' ns) → P links here (n :: rest))
    (links : Nat) (here : Place) (ns : List Name) : P links here ns := by
  induction links using Nat.strong_induction_on generalizing here ns with
  | _ links ih =>
      induction ns generalizing here with
      | nil => exact nil links here
      | cons n rest ihrest => exact cons links here n rest ihrest ih

/-- The search finds only what the rules derive. -/
lemma Walk.of_walk (h : fs.walk follow links here ns = .ok f) : Walk fs follow links here ns f := by
  induction links, here, ns using walk_induction generalizing f with
  | nil links here =>
      rw [walk_nil] at h
      cases h
      exact .done
  | cons links here n rest ihrest ihlinks =>
      rcases name_cases n with rfl | rfl | ⟨h₁, h₂, h₃⟩ | hn
      · rw [walk_stay] at h
        exact .stay (ihrest _ h)
      · rw [walk_up] at h
        exact .up (ihrest _ h)
      · rw [walk_long h₁ h₂ h₃] at h
        cases h
      · rw [walk_entry hn] at h
        split at h
        · next hnode =>
            split_ifs at h with hrest
            obtain rfl : rest = [] := by simpa using hrest
            cases h
            exact .missing hn hnode
        · next hnode => exact .enter hn hnode (ihrest _ h)
        · next hnode =>
            split_ifs at h with hrest
            obtain rfl : rest = [] := by simpa using hrest
            cases h
            exact .file hn hnode
        · next target hnode =>
            split_ifs at h with hrest
            · obtain ⟨rfl, hfollow⟩ : rest = [] ∧ follow = false := by simpa using hrest
              cases h
              exact .link hn hnode hfollow
            · cases links with
              | zero => cases h
              | succ k =>
                  refine .through hn hnode ?_ (ihlinks k (Nat.lt_succ_self k) _ _ h)
                  by_contra hcon
                  push Not at hcon
                  exact hrest (by simp [hcon.1, hcon.2])

/-- The search finds all that the rules derive. -/
lemma Walk.walk_eq (h : Walk fs follow links here ns f) :
    fs.walk follow links here ns = .ok f := by
  induction h with
  | done => exact walk_nil ..
  | stay _ ih => rw [walk_stay, ih]
  | up _ ih => rw [walk_up, ih]
  | missing hn hnode => rw [walk_entry hn, hnode]; rfl
  | file hn hnode => rw [walk_entry hn, hnode]; rfl
  | link hn hnode hfollow => rw [walk_entry hn, hnode]; simp [hfollow]
  | enter hn hnode _ ih => rw [walk_entry hn, hnode]; exact ih
  | through hn hnode hfollow _ ih =>
      rw [walk_entry hn, hnode]
      rcases hfollow with hrest | hfollow
      · simp only [List.isEmpty_iff, hrest, Bool.and_eq_true, false_and, if_false]
        exact ih
      · simp only [hfollow, Bool.not_true, Bool.and_false, Bool.false_eq_true, if_false]
        exact hfollow ▸ ih

theorem walk_eq_ok_iff : fs.walk follow links here ns = .ok f ↔ Walk fs follow links here ns f :=
  ⟨Walk.of_walk, Walk.walk_eq⟩

namespace Walk

/-! ### Walks one after the other -/

/-- More links do not change what is found. -/
lemma mono (h : Walk fs follow links here ns f) {k : Nat} (hk : links ≤ k) :
    Walk fs follow k here ns f := by
  induction h generalizing k with
  | done => exact .done
  | stay _ ih => exact .stay (ih hk)
  | up _ ih => exact .up (ih hk)
  | missing hn hnode => exact .missing hn hnode
  | file hn hnode => exact .file hn hnode
  | link hn hnode hfollow => exact .link hn hnode hfollow
  | enter hn hnode _ ih => exact .enter hn hnode (ih hk)
  | through hn hnode hfollow _ ih =>
      obtain ⟨k, rfl⟩ : ∃ j, k = j + 1 := ⟨k - 1, by omega⟩
      exact .through hn hnode hfollow (ih (by omega))

/-- A walk leads to one thing only. -/
lemma unique {k : Nat} {g : Found} (h : Walk fs follow links here ns f)
    (h' : Walk fs follow k here ns g) : f = g := by
  have hf := (h.mono (Nat.le_max_left links k)).walk_eq
  have hg := (h'.mono (Nat.le_max_right links k)).walk_eq
  rw [hf] at hg
  cases hg
  rfl

/-- A walk goes on from the directory that its first names lead to. -/
lemma append (h : Walk fs true links here ns f) (hd : f.node? = some .directory) :
    ∃ k ≤ links, ∀ follow rest g, rest ≠ [] → Walk fs follow k f.place rest g →
      Walk fs follow links here (ns ++ rest) g := by
  induction h with
  | done => exact ⟨_, le_rfl, fun _ _ _ _ hg => hg⟩
  | stay _ ih =>
      obtain ⟨k, hk, hgo⟩ := ih hd
      exact ⟨k, hk, fun _ _ _ hrest hg => .stay (hgo _ _ _ hrest hg)⟩
  | up _ ih =>
      obtain ⟨k, hk, hgo⟩ := ih hd
      exact ⟨k, hk, fun _ _ _ hrest hg => .up (hgo _ _ _ hrest hg)⟩
  | missing _ _ => cases hd
  | file _ _ => cases hd
  | link _ _ _ => cases hd
  | enter hn hnode _ ih =>
      obtain ⟨k, hk, hgo⟩ := ih hd
      exact ⟨k, hk, fun _ _ _ hrest hg => .enter hn hnode (hgo _ _ _ hrest hg)⟩
  | through hn hnode _ _ ih =>
      obtain ⟨k, hk, hgo⟩ := ih hd
      refine ⟨k, by omega, fun _ _ _ hrest hg => .through hn hnode (.inl (by simp [hrest])) ?_⟩
      have := hgo _ _ _ hrest hg
      rwa [List.append_assoc] at this

/-- The first names of a walk lead to a directory, and the other ones go on from there. -/
lemma split (h : Walk fs follow links here (ns ++ rest) f) (hrest : rest ≠ []) :
    ∃ d, Walk fs true links here ns ⟨d, some .directory⟩ ∧
      ∃ k ≤ links, Walk fs follow k d rest f := by
  have hnone : ∀ {links : Nat} {here : Place} {l : List Name} {f : Found}, [] ++ rest = l →
      Walk fs follow links here l f → ∃ d, Walk fs true links here [] ⟨d, some .directory⟩ ∧
        ∃ k ≤ links, Walk fs follow k d rest f := by
    rintro links here l f rfl h
    exact ⟨_, .done, _, le_rfl, h⟩
  have hone : ∀ {n : Name} {ns : List Name}, [n] = ns ++ rest → ns = [] := by
    rintro n (_ | ⟨m, ns⟩) heq
    · rfl
    · exact absurd (List.cons.inj heq).2 (by simp [hrest])
  generalize hl : ns ++ rest = l at h
  induction h generalizing ns with
  | done => exact absurd hl (by simp [hrest])
  | @stay _ _ _ _ h ih =>
      cases ns with
      | nil => exact hnone hl (.stay h)
      | cons n ns =>
          obtain ⟨rfl, hl'⟩ := List.cons.inj hl
          obtain ⟨d, hd, hgo⟩ := ih hl'
          exact ⟨d, .stay hd, hgo⟩
  | @up _ _ _ _ h ih =>
      cases ns with
      | nil => exact hnone hl (.up h)
      | cons n ns =>
          obtain ⟨rfl, hl'⟩ := List.cons.inj hl
          obtain ⟨d, hd, hgo⟩ := ih hl'
          exact ⟨d, .up hd, hgo⟩
  | missing hn hnode =>
      obtain rfl := hone hl.symm
      exact hnone hl (.missing hn hnode)
  | file hn hnode =>
      obtain rfl := hone hl.symm
      exact hnone hl (.file hn hnode)
  | link hn hnode hfollow =>
      obtain rfl := hone hl.symm
      exact hnone hl (.link hn hnode hfollow)
  | @enter _ _ _ _ _ hn hnode h ih =>
      cases ns with
      | nil => exact hnone hl (.enter hn hnode h)
      | cons n ns =>
          obtain ⟨rfl, hl'⟩ := List.cons.inj hl
          obtain ⟨d, hd, hgo⟩ := ih hl'
          exact ⟨d, .enter hn hnode hd, hgo⟩
  | @through _ _ _ target _ _ hn hnode hfollow h ih =>
      cases ns with
      | nil => exact hnone hl (.through hn hnode hfollow h)
      | cons n ns =>
          obtain ⟨rfl, hl'⟩ := List.cons.inj hl
          have htail : (target.names ++ ns) ++ rest = target.names ++ _ :=
            (List.append_assoc ..).trans (congrArg (target.names ++ ·) hl')
          obtain ⟨d, hd, k, hk, hgo⟩ := ih htail
          exact ⟨d, .through hn hnode (.inr rfl) hd, k, by omega, hgo⟩

/-- A last step to the place itself asks for a directory, and changes nothing else. -/
lemma append_dot_iff :
    Walk fs follow links here (ns ++ [['.']]) f ↔
      Walk fs true links here ns f ∧ f.node? = some .directory := by
  constructor
  · intro h
    obtain ⟨d, hd, k, -, hdot⟩ := h.split (by simp)
    have hend : Walk fs follow k d [['.']] ⟨d, some .directory⟩ := .stay .done
    have : f = ⟨d, some .directory⟩ := hdot.unique hend
    exact this ▸ ⟨hd, rfl⟩
  · rintro ⟨h, hd⟩
    obtain ⟨k, -, hgo⟩ := h.append hd
    obtain ⟨place, node⟩ := f
    obtain rfl : node = some .directory := hd
    exact hgo _ _ _ (by simp) (.stay .done)

/-- No walk goes on from a file. -/
lemma not_append_of_file {b : ByteArray} {m : Nat}
    (h : Walk fs true links here ns ⟨p, some (.file b m)⟩) {k : Nat}
    (hrest : rest ≠ []) (h' : Walk fs follow k here (ns ++ rest) f) : False := by
  obtain ⟨d, hd, -⟩ := h'.split hrest
  cases h.unique hd

/-- What a walk finds is there, or it is the directory that the walk begins in. -/
lemma node?_eq (h : Walk fs follow links here ns f) :
    f.node? = fs.node? f.place ∨ f.node? = some .directory := by
  induction h with
  | done => exact .inr rfl
  | stay _ ih => exact ih
  | up _ ih => exact ih
  | missing _ hnode => exact .inl hnode.symm
  | file _ hnode => exact .inl hnode.symm
  | link _ hnode _ => exact .inl hnode.symm
  | enter _ _ _ ih => exact ih
  | through _ _ _ _ ih => exact ih

/-- A link at the end is found only if links are not followed. -/
lemma node?_ne_link (h : Walk fs true links here ns f) (target : Path) :
    f.node? ≠ some (.link target) := by
  induction h with
  | link _ _ hfollow => cases hfollow
  | stay _ ih => exact ih
  | up _ ih => exact ih
  | enter _ _ _ ih => exact ih
  | through _ _ _ _ ih => exact ih
  | _ => simp

end Walk

/-! ### Changes that keep walks -/

/-- A link through which a directory is found. -/
def IsPassage (fs : FileSystem) (p : Place) : Prop :=
  ∃ target links rest d, fs.node? p = some (.link target) ∧
    Walk fs true links (startOf target p.tail) (target.names ++ rest) ⟨d, some .directory⟩

/-- A change after which directories are directories, files are files, and links are the same but
for those that a file took the place of, through which no directory was found. -/
structure Keeps (fs fs' : FileSystem) : Prop where
  current : fs'.current = fs.current
  directory : ∀ p, fs.node? p = some .directory → fs'.node? p = some .directory
  file : ∀ p b m, fs.node? p = some (.file b m) → ∃ b' m', fs'.node? p = some (.file b' m')
  link : ∀ p target, fs.node? p = some (.link target) →
    fs'.node? p = some (.link target) ∨
      ¬ fs.IsPassage p ∧ ∃ b m, fs'.node? p = some (.file b m)

lemma Keeps.of_eq (hcurrent : fs'.current = fs.current) (hnode : ∀ p, fs'.node? p = fs.node? p) :
    Keeps fs fs' where
  current := hcurrent
  directory p h := (hnode p).trans h
  file p b m h := ⟨b, m, (hnode p).trans h⟩
  link p _ h := .inl ((hnode p).trans h)

lemma Keeps.refl (fs : FileSystem) : Keeps fs fs := .of_eq rfl fun _ => rfl

namespace Walk

/-- A walk leads where it did if directories and links are the same, and its end is. -/
lemma transfer (hdir : ∀ p, fs.node? p = some .directory → fs'.node? p = some .directory)
    (hlink : ∀ p target, fs.node? p = some (.link target) → fs'.node? p = some (.link target))
    (h : Walk fs follow links here ns f)
    (hf : f.node? = some .directory ∨ fs'.node? f.place = fs.node? f.place) :
    Walk fs' follow links here ns f := by
  induction h with
  | done => exact .done
  | stay _ ih => exact .stay (ih hf)
  | up _ ih => exact .up (ih hf)
  | missing hn hnode => exact .missing hn ((hf.resolve_left (by simp)).trans hnode)
  | file hn hnode => exact .file hn ((hf.resolve_left (by simp)).trans hnode)
  | link hn hnode hfollow => exact .link hn (hlink _ _ hnode) hfollow
  | enter hn hnode _ ih => exact .enter hn (hdir _ hnode) (ih hf)
  | through hn hnode hfollow _ ih => exact .through hn (hlink _ _ hnode) hfollow (ih hf)

/-- A walk to a directory leads there still. -/
lemma keep_directory (hkeeps : Keeps fs fs') (h : Walk fs true links here ns f)
    (hd : f.node? = some .directory) : Walk fs' true links here ns f := by
  induction h with
  | done => exact .done
  | stay _ ih => exact .stay (ih hd)
  | up _ ih => exact .up (ih hd)
  | missing _ _ => cases hd
  | file _ _ => cases hd
  | link _ _ _ => cases hd
  | enter hn hnode _ ih => exact .enter hn (hkeeps.directory _ hnode) (ih hd)
  | @through _ _ _ _ _ f hn hnode hfollow h ih =>
      rcases hkeeps.link _ _ hnode with hnode' | ⟨hpassage, -⟩
      · exact .through hn hnode' hfollow (ih hd)
      · obtain ⟨place, node⟩ := f
        obtain rfl : node = some .directory := hd
        exact absurd ⟨_, _, _, _, hnode, h⟩ hpassage

/-- A walk to a file leads to a file still: to the same one, or to one that took the place of a
link on the way. -/
lemma keep_file (hkeeps : Keeps fs fs') (h : Walk fs true links here ns f)
    (hf : ∃ b m, f.node? = some (.file b m)) :
    ∃ p b m, Walk fs' true links here ns ⟨p, some (.file b m)⟩ ∧
      (p = f.place ∨ ∃ target, fs.node? p = some (.link target)) := by
  induction h with
  | done => obtain ⟨b, m, hf⟩ := hf; cases hf
  | stay _ ih =>
      obtain ⟨p, b, m, hp, hplace⟩ := ih hf
      exact ⟨p, b, m, .stay hp, hplace⟩
  | up _ ih =>
      obtain ⟨p, b, m, hp, hplace⟩ := ih hf
      exact ⟨p, b, m, .up hp, hplace⟩
  | missing _ _ => obtain ⟨b, m, hf⟩ := hf; cases hf
  | file hn hnode =>
      obtain ⟨b', m', hnode'⟩ := hkeeps.file _ _ _ hnode
      exact ⟨_, b', m', .file hn hnode', .inl rfl⟩
  | link _ _ _ => obtain ⟨b, m, hf⟩ := hf; cases hf
  | enter hn hnode _ ih =>
      obtain ⟨p, b, m, hp, hplace⟩ := ih hf
      exact ⟨p, b, m, .enter hn (hkeeps.directory _ hnode) hp, hplace⟩
  | @through links here n target rest f hn hnode hfollow h ih =>
      obtain ⟨p, b, m, hp, hplace⟩ := ih hf
      rcases hkeeps.link _ _ hnode with hnode' | ⟨hpassage, b', m', hnode'⟩
      · exact ⟨p, b, m, .through hn hnode' hfollow hp, hplace⟩
      · -- the link was the last name, for its target would have to be a directory else
        obtain rfl : rest = [] := by
          by_contra hrest
          obtain ⟨d, hd, -⟩ := h.split hrest
          exact hpassage ⟨target, links, [], d, hnode, by simpa using hd⟩
        exact ⟨_, b', m', .file hn hnode', .inr ⟨target, hnode⟩⟩

end Walk

/-- No directory is found through a link that leads to a file. -/
lemma not_isPassage_of_file {target : Path} {q : Place} {b : ByteArray} {m : Nat}
    (hnode : fs.node? p = some (.link target))
    (h : Walk fs true links (startOf target p.tail) target.names ⟨q, some (.file b m)⟩) :
    ¬ fs.IsPassage p := by
  rintro ⟨target', k, rest, d, hnode', hd⟩
  obtain rfl : target = target' := by simpa [hnode] using hnode'
  rcases eq_or_ne rest [] with rfl | hrest
  · rw [List.append_nil] at hd
    cases h.unique hd
  · exact h.not_append_of_file hrest hd

end Externalize.FileSystem
