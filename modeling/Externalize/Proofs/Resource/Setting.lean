import Externalize.Proofs.Resource.Documents

/-
Keys that are set in a document.

* `Document.AllSet`: a document after keys were set one after the other; `Document.allSet_setAll`
  says that setting them does so.
* `Document.ActsOn`: what the action of a key tells of the document before; `Document.actsOn_action`
  says that it does.
-/
namespace Externalize

/-! ### Keys that are set one after the other -/

namespace Json.Members

lemma set_set (key : Text) (v v' : Value) (ms : Members) :
    set key v' (set key v ms) = set key v' ms := by
  induction ms with
  | nil => simp [set]
  | cons m ms ih =>
      obtain ⟨k, w⟩ := m
      by_cases hk : k = key <;> simp [set, hk, ih]

end Json.Members

namespace Document

variable {d : Document} {k : Key} {v : Text} {ms : List (Key × Text)}

lemma set_set (d : Document) (k : Key) (v v' : Text) : (d.set k v).set k v' = d.set k v' := by
  simp only [set, Json.Members.set_set]

/-- The document with keys set one after the other. -/
def setAll (d : Document) (ms : List (Key × Text)) : Document :=
  ms.foldl (fun d m => d.set m.1 m.2) d

/-- A document after keys were set one after the other: its own keys stay in their order, and the
new ones follow in the order in which they were set first; a key that was set has the text that it
was set to last; and all other members are as they were. -/
structure AllSet (d : Document) (ms : List (Key × Text)) (after : Document) : Prop where
  keys : after.members.keys = d.members.keys ++
    ((ms.map fun m => m.1.text).filter fun key => key ∉ d.members.keys).eraseDups
  last : ∀ earlier k v later, ms = earlier ++ (k, v) :: later →
    (∀ m ∈ later, m.1.text ≠ k.text) → after.members.lookup k.text = some (.string v)
  other : ∀ key, (∀ m ∈ ms, m.1.text ≠ key) → after.members.lookup key = d.members.lookup key

lemma keys_setAll (d : Document) (ms : List (Key × Text)) :
    (d.setAll ms).members.keys = d.members.keys ++
      ((ms.map fun m => m.1.text).filter fun key => key ∉ d.members.keys).eraseDups := by
  induction ms generalizing d with
  | nil => simp [setAll]
  | cons m ms ih =>
      have hkeys : (d.set m.1 m.2).members.keys = if m.1.text ∈ d.members.keys then d.members.keys
          else d.members.keys ++ [m.1.text] := Json.Members.keys_set ..
      rw [setAll, List.foldl_cons, ← setAll, ih, hkeys]
      by_cases hm : m.1.text ∈ d.members.keys
      · simp [hm]
      · rw [if_neg hm, List.map_cons, List.filter_cons_of_pos (by simpa using hm),
          List.eraseDups_cons, List.filter_filter, List.append_assoc, List.singleton_append]
        congr 3
        refine List.filter_congr fun key _ => ?_
        rw [Bool.eq_iff_iff]
        simp [and_comm]

lemma lookup_setAll (d : Document) {key : Text} (h : ∀ m ∈ ms, m.1.text ≠ key) :
    (d.setAll ms).members.lookup key = d.members.lookup key := by
  induction ms generalizing d with
  | nil => rfl
  | cons m ms ih =>
      rw [setAll, List.foldl_cons, ← setAll, ih _ fun m' hm' => h m' (List.mem_cons_of_mem m hm')]
      exact Json.Members.lookup_set_of_ne _ _ (h m List.mem_cons_self).symm

/-- Keys that are set one after the other. -/
theorem allSet_setAll (d : Document) (ms : List (Key × Text)) : d.AllSet ms (d.setAll ms) where
  keys := keys_setAll d ms
  last earlier k v later hms hlater := by
    rw [hms, setAll, List.foldl_append, List.foldl_cons, ← setAll, lookup_setAll _ hlater]
    exact Json.Members.lookup_set_self ..
  other _ h := lookup_setAll d h

lemma fits_setAll (h : d.Fits) (ms : List (Key × Text)) : (d.setAll ms).Fits := by
  induction ms generalizing d with
  | nil => exact h
  | cons m ms ih => exact ih (fits_set h m.1 m.2)

lemma isWhole_setAll (h : d.IsWhole) (ms : List (Key × Text)) : (d.setAll ms).IsWhole := by
  induction ms generalizing d with
  | nil => exact h
  | cons m ms ih => exact ih (isWhole_set h m.1 m.2)

lemma path_setAll (d : Document) (ms : List (Key × Text)) : (d.setAll ms).path = d.path := by
  induction ms generalizing d with
  | nil => rfl
  | cons m ms ih => exact ih (d.set m.1 m.2)

lemma Fits.nodup_keys (h : d.Fits) : d.members.keys.Nodup := by
  rw [Fits] at h
  cases h with
  | object hkeys _ => exact hkeys

/-! ### Actions -/

/-- An action tells what was there before a key was set: nothing, the same text, or anything
else. -/
structure ActsOn (d : Document) (k : Key) (v : Text) (a : KeyAction) : Prop where
  added : a = .added ↔ d.members.lookup k.text = none
  unchanged : a = .unchanged ↔ d.members.lookup k.text = some (.string v)
  updated : a = .updated ↔ ∃ w, d.members.lookup k.text = some w ∧ w ≠ .string v

lemma actionOn_of_ne {w : Json.Value} (h : w ≠ .string v) : actionOn v (some w) = .updated := by
  cases w with
  | string s => exact if_neg fun heq => h (congrArg _ heq)
  | _ => rfl

theorem actsOn_action (d : Document) (k : Key) (v : Text) : d.ActsOn k v (d.action k v) := by
  cases hlookup : d.members.lookup k.text with
  | none =>
      have haction : d.action k v = .added := by rw [action, hlookup, actionOn]
      constructor <;> simp [haction, hlookup]
  | some w =>
      rcases eq_or_ne w (.string v) with rfl | hw
      · have haction : d.action k v = .unchanged := by rw [action, hlookup, actionOn, if_pos rfl]
        constructor <;> simp [haction, hlookup]
      · have haction : d.action k v = .updated := by rw [action, hlookup, actionOn_of_ne hw]
        constructor <;> simp [haction, hlookup, hw]

lemma action_set (d : Document) (k : Key) (v : Text) : (d.set k v).action k v = .unchanged := by
  rw [action, set, Json.Members.lookup_set_self, actionOn, if_pos rfl]

end Document

end Externalize
