import Externalize.Json.Reader
import Externalize.Proofs.Json.Numbers

/-
Values that are read.

* `Json.Value.Fits`: how deep a value nests, that its numbers are valid, and that no object in it
  has a name twice.
* `Json.Members.ofPairs_spec`, `Json.Members.ofPairs_of_nodup`: the members that pairs make.
* `Json.fits_of_readValue`: every value that is read fits, as `parse` bounds its depth.
-/
namespace Externalize.Json

/-! ### Values that fit -/

/-- A value whose arrays and objects nest at most so deep, whose numbers are valid, and whose
objects have no name twice. -/
inductive Value.Fits : Nat → Value → Prop
  | null {depth : Nat} : Fits depth .null
  | bool {depth : Nat} (b : Bool) : Fits depth (.bool b)
  | number {depth : Nat} {n : Number} (h : n.IsValid) : Fits depth (.number n)
  | string {depth : Nat} (s : Text) : Fits depth (.string s)
  | array {depth : Nat} {vs : List Value} (h : ∀ v ∈ vs, Fits depth v) :
      Fits (depth + 1) (.array vs)
  | object {depth : Nat} {ms : Members} (hkeys : ms.keys.Nodup) (h : ∀ m ∈ ms, Fits depth m.2) :
      Fits (depth + 1) (.object ms)

namespace Members

lemma set_of_notMem {key : Text} {value : Value} {m : Members} (h : key ∉ m.keys) :
    m.set key value = m ++ [(key, value)] := by
  induction m with
  | nil => rfl
  | cons p r ih =>
      obtain ⟨k, v⟩ := p
      simp only [keys, List.map_cons, List.mem_cons, not_or] at h
      rw [set, if_neg (Ne.symm h.1), ih h.2, List.cons_append]

lemma mem_set {key : Text} {value : Value} {m : Members} {p : Text × Value}
    (h : p ∈ m.set key value) : p = (key, value) ∨ p ∈ m := by
  induction m with
  | nil => exact .inl (by simpa [set] using h)
  | cons q r ih =>
      obtain ⟨k, v⟩ := q
      rw [set] at h
      split_ifs at h with hk
      · subst hk
        rcases List.mem_cons.mp h with rfl | hr
        · exact .inl rfl
        · exact .inr (List.mem_cons_of_mem _ hr)
      · rcases List.mem_cons.mp h with rfl | hr
        · exact .inr List.mem_cons_self
        · exact (ih hr).imp_right (List.mem_cons_of_mem _)

lemma nodup_keys_set {key : Text} {value : Value} {m : Members} (h : m.keys.Nodup) :
    (m.set key value).keys.Nodup := by
  rw [keys_set]
  split_ifs with hk
  · exact h
  · exact List.nodup_append.mpr ⟨h, by simp, by rintro a ha _ hb rfl; simp_all⟩

/-- Members of different names are taken together as they are. -/
lemma ofPairs_of_nodup {ms : Members} (h : ms.keys.Nodup) : ofPairs ms = ms := by
  have hfold : ∀ (ms acc : Members), (acc ++ ms).keys.Nodup →
      ms.foldl (fun m p => m.set p.1 p.2) acc = acc ++ ms := by
    intro ms
    induction ms with
    | nil => simp
    | cons p r ih =>
        obtain ⟨k, v⟩ := p
        intro acc hacc
        have hk : k ∉ acc.keys := by
          intro hmem
          simp only [keys, List.map_append, List.map_cons] at hacc hmem
          exact (List.nodup_append.mp hacc).2.2 k hmem k (by simp) rfl
        have happ : acc ++ (k, v) :: r = (acc ++ [(k, v)]) ++ r := by simp
        calc List.foldl _ acc ((k, v) :: r)
            = List.foldl _ (acc ++ [(k, v)]) r := by rw [← set_of_notMem hk]; rfl
          _ = acc ++ [(k, v)] ++ r := ih _ (happ ▸ hacc)
          _ = acc ++ (k, v) :: r := happ.symm
  exact hfold ms [] h

/-- Members that are read have no name twice, and no value that was not read. -/
lemma ofPairs_spec (pairs : List (Text × Value)) :
    (ofPairs pairs).keys.Nodup ∧ ∀ p ∈ ofPairs pairs, p ∈ pairs := by
  have hfold : ∀ (pairs : List (Text × Value)) (acc : Members), acc.keys.Nodup →
      (pairs.foldl (fun m p => m.set p.1 p.2) acc).keys.Nodup ∧
        ∀ p ∈ pairs.foldl (fun m p => m.set p.1 p.2) acc, p ∈ acc ∨ p ∈ pairs := by
    intro pairs
    induction pairs with
    | nil => exact fun acc hacc => ⟨hacc, fun p hp => .inl hp⟩
    | cons q r ih =>
        obtain ⟨k, v⟩ := q
        intro acc hacc
        obtain ⟨hnodup, hmem⟩ := ih (acc.set k v) (nodup_keys_set hacc)
        refine ⟨hnodup, fun p hp => ?_⟩
        rcases hmem p hp with hset | hr
        · rcases mem_set hset with rfl | hacc'
          · exact .inr List.mem_cons_self
          · exact .inl hacc'
        · exact .inr (List.mem_cons_of_mem _ hr)
  obtain ⟨hnodup, hmem⟩ := hfold pairs [] (by simp [keys])
  exact ⟨hnodup, fun p hp => by simpa using hmem p hp⟩

end Members

/-! ### What is read fits -/

section Reading

variable {α : Type} {P : α → Prop} {item : Reader α}

/-- What is made of something that is read. -/
lemma eq_ok_of_map {α β : Type} {x : Except Fault (α × Text)} {f : α → β} {b : β} {r : Text}
    (h : (x.map fun p => (f p.1, p.2)) = .ok (b, r)) : ∃ a, x = .ok (a, r) ∧ f a = b := by
  cases x with
  | error e => cases h
  | ok p =>
      obtain ⟨hb, hr⟩ : f p.1 = b ∧ p.2 = r := by simpa [Except.map] using h
      exact ⟨p.1, by rw [← hr], hb⟩

/-- What a reader reads has a property. -/
def Reads (item : Reader α) (P : α → Prop) : Prop := ∀ t a r, item t = .ok (a, r) → P a

lemma forall_of_readElements (h : Reads item P) (room : Nat) :
    Reads (readElements item room) fun vs => ∀ v ∈ vs, P v := by
  induction room with
  | zero => intro t vs r ht; simp [readElements] at ht
  | succ room ih =>
      intro t vs r ht
      rw [readElements] at ht
      split at ht
      · simp at ht
      · obtain ⟨rfl, -⟩ : [] = vs ∧ _ := by simpa using ht
        simp
      · split at ht
        · simp at ht
        · simp at ht
        · split at ht
          · simp at ht
          · next a u hitem =>
              obtain ⟨vs, hvs, rfl⟩ := eq_ok_of_map (f := (a :: ·)) ht
              exact List.forall_mem_cons.mpr ⟨h _ _ _ hitem, ih _ _ _ hvs⟩
      · simp at ht

lemma forall_of_readArray (h : Reads item P) : Reads (readArray item) fun vs => ∀ v ∈ vs, P v := by
  intro t vs r ht
  rw [readArray] at ht
  split at ht
  · simp at ht
  · obtain ⟨rfl, -⟩ : [] = vs ∧ _ := by simpa using ht
    simp
  · split at ht
    · simp at ht
    · next a u hitem =>
        obtain ⟨vs, hvs, rfl⟩ := eq_ok_of_map (f := (a :: ·)) ht
        exact List.forall_mem_cons.mpr ⟨h _ _ _ hitem, forall_of_readElements h _ _ _ _ hvs⟩

end Reading

section ReadingMembers

variable {P : Value → Prop} {item : Reader Value}

lemma of_readMember (h : Reads item P) : Reads (readMember item) fun m => P m.2 := by
  intro t m r ht
  rw [readMember] at ht
  split at ht
  · simp at ht
  · split at ht
    · simp at ht
    · obtain ⟨v, hitem, rfl⟩ := eq_ok_of_map (f := fun v => (_, v)) ht
      exact h _ _ _ hitem

lemma forall_of_readMembers (h : Reads item P) (room : Nat) :
    Reads (readMembers item room) fun ms => ∀ m ∈ ms, P m.2 := by
  induction room with
  | zero => intro t ms r ht; simp [readMembers] at ht
  | succ room ih =>
      intro t ms r ht
      rw [readMembers] at ht
      split at ht
      · simp at ht
      · obtain ⟨rfl, -⟩ : [] = ms ∧ _ := by simpa using ht
        simp
      · split at ht
        · simp at ht
        · split at ht
          · simp at ht
          · next a u hmember =>
              obtain ⟨ms, hms, rfl⟩ := eq_ok_of_map (f := (a :: ·)) ht
              exact List.forall_mem_cons.mpr ⟨of_readMember h _ _ _ hmember, ih _ _ _ hms⟩
        · simp at ht
        · simp at ht
      · simp at ht

lemma forall_of_readObject (h : Reads item P) :
    Reads (readObject item) fun ms => ∀ m ∈ ms, P m.2 := by
  intro t ms r ht
  rw [readObject] at ht
  split at ht
  · simp at ht
  · obtain ⟨rfl, -⟩ : [] = ms ∧ _ := by simpa using ht
    simp
  · split at ht
    · simp at ht
    · next a u hmember =>
        obtain ⟨ms, hms, rfl⟩ := eq_ok_of_map (f := (a :: ·)) ht
        exact List.forall_mem_cons.mpr
          ⟨of_readMember h _ _ _ hmember, forall_of_readMembers h _ _ _ _ hms⟩
  · simp at ht

end ReadingMembers

/-- A value that is read with nothing nested in it fits at every depth. -/
lemma fits_of_readValueWith {depth : Nat} {nested : Option (Reader Value)}
    (h : ∀ item ∈ nested, ∃ k, depth = k + 1 ∧ Reads item (Value.Fits k)) :
    Reads (readValueWith nested) (Value.Fits depth) := by
  intro t v r ht
  rw [readValueWith] at ht
  split at ht
  · simp at ht
  · split_ifs at ht
    · obtain ⟨-, -, rfl⟩ := eq_ok_of_map (f := fun _ => Value.null) ht
      exact .null
    · obtain ⟨-, -, rfl⟩ := eq_ok_of_map (f := fun _ => Value.bool true) ht
      exact .bool true
    · obtain ⟨-, -, rfl⟩ := eq_ok_of_map (f := fun _ => Value.bool false) ht
      exact .bool false
    · obtain ⟨n, hn, rfl⟩ := eq_ok_of_map (f := Value.number) ht
      exact .number (isValid_of_readNumber hn)
    · obtain ⟨n, hn, rfl⟩ := eq_ok_of_map (f := Value.number) ht
      exact .number (isValid_of_readNumber hn)
    · obtain ⟨s, -, rfl⟩ := eq_ok_of_map (f := Value.string) ht
      exact .string s
    · split at ht
      · simp at ht
      · next item =>
          obtain ⟨k, rfl, hitem⟩ := h item rfl
          obtain ⟨vs, hvs, rfl⟩ := eq_ok_of_map (f := Value.array) ht
          exact .array (forall_of_readArray hitem _ _ _ hvs)
    · split at ht
      · simp at ht
      · next item =>
          obtain ⟨k, rfl, hitem⟩ := h item rfl
          obtain ⟨ms, hms, rfl⟩ :=
            eq_ok_of_map (f := fun ms => Value.object (Members.ofPairs ms)) ht
          obtain ⟨hnodup, hmem⟩ := Members.ofPairs_spec ms
          exact .object hnodup fun m hm => forall_of_readObject hitem _ _ _ hms m (hmem m hm)

/-- **What is read fits**: it nests no deeper than the bound, its numbers are valid, and no object
in it has a name twice. -/
theorem fits_of_readValue (depth : Nat) : Reads (readValue depth) (Value.Fits depth) := by
  induction depth with
  | zero => exact fits_of_readValueWith (by simp)
  | succ depth ih =>
      refine fits_of_readValueWith fun item hitem => ⟨depth, rfl, ?_⟩
      obtain rfl : readValue depth = item := by simpa using hitem
      exact ih

lemma fits_of_parse {t : Text} {v : Value} (h : parse t = .ok v) : v.Fits maxDepth := by
  cases hv : readValue maxDepth t with
  | error f => simp [parse, hv, bind, Except.bind] at h
  | ok p =>
      have hend : atEnd p = .ok v := by simpa [parse, hv, bind, Except.bind] using h
      have : p.1 = v := by
        rw [atEnd] at hend
        split at hend <;> simp_all
      exact this ▸ fits_of_readValue _ _ _ _ hv

end Externalize.Json
