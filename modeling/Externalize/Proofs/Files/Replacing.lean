import Externalize.Proofs.Files.Refilling

/-
Entries of a directory after a file took the place of one that led nowhere.

* `FileSystem.Walk.exists_walk_append_eq`: a walk goes on from the directory that its first names
  lead to, with as many links as are left there.
* `FileSystem.Walk.of_replaced`: a walk to a directory that has no more links left than an entry did
  which led nowhere does not pass that entry.
* `FileSystem.directory_join_of_replaced`: what led to a directory leads there still, if the path of
  the directory does not pass the entry that was replaced.
-/
namespace Externalize.FileSystem

variable {fs fs' out : FileSystem} {follow : Bool} {links k : Nat} {here d e q : Place}
  {ns : List Name} {f : Found} {p : Path} {n m : Name}

/-! ### Walks with links left -/

namespace Walk

/-- From the directory that the first names lead to a walk goes on with the links that are left,
also after a change that keeps the ways. -/
theorem exists_walk_append_eq (h : Walk fs true links here ns f) (hd : f.node? = some .directory) :
    ∃ k ≤ links, ∀ fs', KeepsWays fs fs' → ∀ follow rest, rest ≠ [] →
      fs'.walk follow links here (ns ++ rest) = fs'.walk follow k f.place rest := by
  induction h with
  | @done links here => exact ⟨links, le_rfl, fun _ _ _ _ _ => rfl⟩
  | stay _ ih =>
      obtain ⟨k, hk, hgo⟩ := ih hd
      refine ⟨k, hk, fun fs' hways follow rest hrest => ?_⟩
      rw [List.cons_append, walk_stay, hgo fs' hways follow rest hrest]
  | up _ ih =>
      obtain ⟨k, hk, hgo⟩ := ih hd
      refine ⟨k, hk, fun fs' hways follow rest hrest => ?_⟩
      rw [List.cons_append, walk_up, hgo fs' hways follow rest hrest]
  | missing _ _ => cases hd
  | file _ _ => cases hd
  | link _ _ _ => cases hd
  | enter hn hnode _ ih =>
      obtain ⟨k, hk, hgo⟩ := ih hd
      refine ⟨k, hk, fun fs' hways follow rest hrest => ?_⟩
      rw [List.cons_append, walk_entry hn, hways.node? _ _ (by simp) hnode]
      exact hgo fs' hways follow rest hrest
  | through hn hnode _ _ ih =>
      obtain ⟨k, hk, hgo⟩ := ih hd
      refine ⟨k, by omega, fun fs' hways follow rest hrest => ?_⟩
      have hmore : ∀ ns : List Name, ¬ ((ns ++ rest).isEmpty && !follow) = true := by simp [hrest]
      rw [List.cons_append, walk_entry hn, hways.node? _ _ (by simp) hnode]
      simp only [if_neg (hmore _)]
      rw [← hgo fs' hways follow rest hrest, List.append_assoc]
      rfl

/-- A walk to a directory leads there still if an entry gave way through which no directory is found
with the links that the walk has. -/
theorem of_replaced (hdir : fs.node? q ≠ some .directory)
    (hdead : ∀ target, fs.node? q = some (.link target) → ∀ j < k, ∀ e,
      ¬ Walk fs true j (startOf target q.tail) target.names ⟨e, some .directory⟩)
    (hsame : ∀ x ≠ q, out.node? x = fs.node? x) (h : Walk fs true links here ns f)
    (hd : f.node? = some .directory) (hlinks : links ≤ k) : Walk out true links here ns f := by
  induction h with
  | done => exact .done
  | stay _ ih => exact .stay (ih hd hlinks)
  | up _ ih => exact .up (ih hd hlinks)
  | missing _ _ => cases hd
  | file _ _ => cases hd
  | link _ _ _ => cases hd
  | enter hn hnode _ ih =>
      refine .enter hn ?_ (ih hd hlinks)
      rw [hsame _ (fun heq => hdir (heq ▸ hnode)), hnode]
  | @through links here n target rest f hn hnode hfollow h ih =>
      have hne : n :: here ≠ q := by
        rintro rfl
        -- The target of the link would have to be a directory, or names after it could not follow.
        obtain ⟨place, node⟩ := f
        obtain rfl : node = some .directory := hd
        rcases eq_or_ne rest [] with rfl | hrest
        · rw [List.append_nil] at h
          exact hdead target hnode links (by omega) _ h
        · obtain ⟨e, he, -⟩ := h.split hrest
          exact hdead target hnode links (by omega) e he
      exact .through hn ((hsame _ hne).trans hnode) hfollow (ih hd (by omega))

end Walk

/-! ### Entries beside the one that was replaced -/

/-- The ways that do not pass an entry are kept when a file takes its place. -/
lemma keepsWays_of_replaced (hq : q ≠ []) (hcurrent : out.current = fs.current)
    (hsame : ∀ x ≠ q, out.node? x = fs.node? x) : KeepsWays (fs.erase q) out where
  current := hcurrent
  node? x n _ hx := by
    rw [node?_erase _ hq] at hx
    split_ifs at hx with hxq
    rw [hsame x hxq, hx]

/-- What an entry beside the one that was replaced leads to is a directory still, if it was one. -/
theorem directory_join_of_replaced (hn : IsName n) (hm : IsName m)
    (hway : (fs.erase (n :: d)).directory p = .ok d)
    (hdead : ∀ e, fs.directory (p.join ⟨n⟩) ≠ .ok e) (hdir : fs.node? (n :: d) ≠ some .directory)
    (hcurrent : out.current = fs.current) (hsame : ∀ x ≠ n :: d, out.node? x = fs.node? x)
    (he : fs.directory (p.join ⟨m⟩) = .ok e) : out.directory (p.join ⟨m⟩) = .ok e := by
  obtain ⟨hpnul, hpne, hwalk⟩ := resolve_eq_ok_iff.mp (directory_eq_ok_iff.mp hway)
  obtain ⟨k, -, hgo⟩ := (walk_names_iff.mp hwalk).exists_walk_append_eq rfl
  have hfs : KeepsWays (fs.erase (n :: d)) fs :=
    keepsWays_of_replaced (List.cons_ne_nil n d) rfl fun _ _ => rfl
  have hout := keepsWays_of_replaced (List.cons_ne_nil n d) hcurrent hsame
  -- Paths of the directory go on from it with the same number of links, before and after.
  have hjoin : ∀ {fs' : FileSystem} {x : Name} {g : Place}, KeepsWays (fs.erase (n :: d)) fs' →
      IsName x → (fs'.directory (p.join ⟨x⟩) = .ok g ↔
        Walk fs' true k d [x] ⟨g, some .directory⟩) := by
    intro fs' x g hways hx
    rw [directory_eq_ok_iff, resolve_eq_ok_iff, Path.names_join p hx.1 hx.2.1, startOf,
      Path.isAbsolute_join hx.2.1, hways.current, ← walk_eq_ok_iff, ← walk_eq_ok_iff,
      ← hgo fs' hways true [x] (List.cons_ne_nil x []), Path.nul_notMem_join hx.2.1 hpne]
    exact ⟨fun h => h.2.2, fun h => ⟨⟨hpnul, hx.2.2.1⟩, Path.text_join_ne_nil hx.1 hx.2.1, h⟩⟩
  rw [hjoin hfs hm] at he
  rw [hjoin hout hm]
  refine he.of_replaced hdir (fun target hlink j hj e' hleads => hdead e' ?_) hsame rfl le_rfl
  have hthrough : Walk fs true (j + 1) d [n] ⟨e', some .directory⟩ :=
    .through hn.2.2.2 hlink (.inr rfl) (by rwa [List.append_nil])
  exact (hjoin hfs hn).mpr (hthrough.mono hj)

end Externalize.FileSystem
