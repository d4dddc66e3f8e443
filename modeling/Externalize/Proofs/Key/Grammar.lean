import Mathlib.Computability.Language
import Externalize.Proofs.Key.Runs

/-
The grammar of keys and the texts that keys are made of.

* `Key.grammar`: a run of key characters, then any number of runs after an underscore each.
* `Key.isValid_iff_mem_grammar`: what is read as a key is the language of the grammar.
* `Key.normalize_of_isValid`: a key is made into itself.
* `Key.parse?_iff_fixed`: **the keys are the texts, other than the empty one, that are made into
  themselves**, and the texts other than the empty one that something is made into.
-/
namespace Externalize.Key

open Text
open scoped Computability

variable {a b t : Text} {l : List Text} {inRun : Bool}

/-! ### The language of keys -/

/-- One or more key characters. -/
def run : Language Char := {r | r ≠ [] ∧ ∀ c ∈ r, isKeyChar c = true}

/-- A run, then any number of runs after an underscore each. -/
def grammar : Language Char := run * ({['_']} * run)∗

lemma join_cons_eq_append (a : Text) (l : List Text) :
    join (a :: l) = a ++ (l.map ('_' :: ·)).flatten := by
  induction l generalizing a with
  | nil => simp [join_cons]
  | cons b l ih =>
      rw [join_cons, if_neg (List.cons_ne_nil b l), ih b]
      rfl

/-- The grammar describes runs, one or more, joined by underscores. -/
theorem mem_grammar_iff : t ∈ grammar ↔ ∃ l, l ≠ [] ∧ (∀ r ∈ l, r ∈ run) ∧ t = join l := by
  rw [grammar, Language.mem_mul]
  constructor
  · rintro ⟨a, ha, b, hb, rfl⟩
    obtain ⟨parts, rfl, hparts⟩ := Language.mem_kstar.mp hb
    obtain ⟨l, hl, rfl⟩ : ∃ l : List Text, (∀ r ∈ l, r ∈ run) ∧ parts = l.map ('_' :: ·) := by
      clear hb
      induction parts with
      | nil => exact ⟨[], by simp, rfl⟩
      | cons part parts ih =>
          obtain ⟨hpart, hrest⟩ := List.forall_mem_cons.mp hparts
          obtain ⟨u, rfl, r, hr, rfl⟩ := Language.mem_mul.mp hpart
          obtain ⟨l, hl, rfl⟩ := ih hrest
          exact ⟨r :: l, List.forall_mem_cons.mpr ⟨hr, hl⟩, rfl⟩
    exact ⟨a :: l, List.cons_ne_nil a l, List.forall_mem_cons.mpr ⟨ha, hl⟩,
      (join_cons_eq_append a l).symm⟩
  · rintro ⟨l, hne, hl, rfl⟩
    obtain ⟨a, l, rfl⟩ := List.exists_cons_of_ne_nil hne
    obtain ⟨ha, hl⟩ := List.forall_mem_cons.mp hl
    refine ⟨a, ha, (l.map ('_' :: ·)).flatten, Language.mem_kstar.mpr ⟨_, rfl, ?_⟩,
      (join_cons_eq_append a l).symm⟩
    intro part hpart
    obtain ⟨r, hr, rfl⟩ := List.mem_map.mp hpart
    exact Language.mem_mul.mpr ⟨['_'], rfl, r, hl r hr, rfl⟩

/-! ### Reading a key -/

/-- Key characters are read, whatever was read before them. -/
lemma accepts_append (ha : a ∈ run) (b : Text) : accepts inRun (a ++ b) = accepts true b := by
  obtain ⟨hne, hall⟩ := ha
  obtain ⟨c, a, rfl⟩ := List.exists_cons_of_ne_nil hne
  clear hne
  induction a generalizing c inRun with
  | nil => rw [List.singleton_append, accepts, if_pos (hall c List.mem_cons_self)]
  | cons d a ih =>
      rw [List.cons_append, accepts, if_pos (hall c List.mem_cons_self)]
      exact ih d fun e he => hall e (List.mem_cons_of_mem c he)

/-- Joined runs are read to their end. -/
lemma isValid_join (hne : l ≠ []) (hl : ∀ r ∈ l, r ∈ run) : IsValid (join l) := by
  induction l with
  | nil => exact absurd rfl hne
  | cons a l ih =>
      obtain ⟨ha, hl⟩ := List.forall_mem_cons.mp hl
      rw [IsValid, join_cons]
      split_ifs with hnil
      · rw [← List.append_nil a, accepts_append ha]
        rfl
      · rw [accepts_append ha, accepts, if_neg (by simp)]
        exact ih hnil hl

/-- What is read as a key is its runs, joined. -/
lemma join_runs_of_isValid (h : IsValid t) : runs t ≠ [] ∧ join (runs t) = t := by
  induction t using runs_induction with
  | last a ha =>
      have hne := ne_nil_of_isValid h
      rw [runs_of_forall hne ha, join_cons, if_pos rfl]
      exact ⟨List.cons_ne_nil a [], rfl⟩
  | more a c b ha hc ih =>
      rw [IsValid] at h
      rcases eq_or_ne a [] with rfl | hne
      · simp [accepts, hc] at h
      · rw [accepts_append ⟨hne, ha⟩, accepts, if_neg (by simp [hc])] at h
        simp only [Bool.true_and, Bool.and_eq_true, beq_iff_eq] at h
        obtain ⟨hruns, hjoin⟩ := ih h.2
        rw [runs_append_cons hc, runs_of_forall hne ha, List.singleton_append, join_cons,
          if_neg hruns, hjoin, h.1]
        exact ⟨List.cons_ne_nil a _, rfl⟩

/-- **What is read as a key is what the grammar describes.** -/
theorem isValid_iff_mem_grammar : IsValid t ↔ t ∈ grammar := by
  rw [mem_grammar_iff]
  constructor
  · intro h
    obtain ⟨hne, hjoin⟩ := join_runs_of_isValid h
    exact ⟨runs t, hne, fun r hr => of_mem_runs hr, hjoin.symm⟩
  · rintro ⟨l, hne, hl, rfl⟩
    exact isValid_join hne hl

/-! ### Keys and normal forms -/

/-- The characters of keys are in lower case. -/
lemma lowercaseChar_of_isKeyChar {c : Char} (h : isKeyChar c = true ∨ c = '_') :
    lowercaseChar c = [c] := by
  have hcode : c.val.toNat < 0x80 ∧ ¬ (65 ≤ c.val.toNat ∧ c.val.toNat ≤ 90) := by
    rcases h with h | rfl
    · have hcodes : 'a'.val.toNat = 97 ∧ 'z'.val.toNat = 122 ∧ '0'.val.toNat = 48 ∧
        '9'.val.toNat = 57 := by decide
      simp only [isKeyChar, Bool.or_eq_true, Bool.and_eq_true, decide_eq_true_eq, Char.le_def,
        UInt32.le_iff_toNat_le] at h
      omega
    · decide
  have hlower : c.toLower = c := by
    refine dif_neg ?_
    simp only [ge_iff_le, UInt32.le_iff_toNat_le]
    exact hcode.2
  rw [lowercaseChar, Char.toNat, if_pos hcode.1, hlower]

lemma lowercase_of_isValid (h : IsValid t) : t.lowercase = t := by
  have hchars : ∀ c ∈ t, lowercaseChar c = [c] := fun c hc =>
    lowercaseChar_of_isKeyChar (forall_mem_of_accepts h c hc)
  calc t.lowercase = t.flatMap ([·]) := List.flatMap_congr hchars
    _ = t := List.flatMap_singleton' t

/-- A key is made into itself. -/
theorem normalize_of_isValid (h : IsValid t) : normalize t = t := by
  rw [normalize_eq, lowercase_of_isValid h, (join_runs_of_isValid h).2]

lemma parse?_eq_some_iff {k : Key} : parse? t = some k ↔ k.text = t := by
  rw [parse?]
  split_ifs with hvalid
  · rw [Option.some_inj, Key.mk.injEq, eq_comm]
  · refine iff_of_false (fun h => nomatch h) fun h => hvalid (h ▸ k.isValid)

lemma isSome_parse?_iff : (parse? t).isSome ↔ IsValid t := by
  rw [Option.isSome_iff_exists]
  exact ⟨fun ⟨k, hk⟩ => parse?_eq_some_iff.mp hk ▸ k.isValid,
    fun h => ⟨⟨t, h⟩, parse?_eq_some_iff.mpr rfl⟩⟩

lemma isValid_iff_normalize : IsValid t ↔ t ≠ [] ∧ normalize t = t := by
  refine ⟨fun h => ⟨ne_nil_of_isValid h, normalize_of_isValid h⟩, ?_⟩
  rintro ⟨hne, hfixed⟩
  rw [← hfixed]
  exact isValid_normalize (hfixed.symm ▸ hne)

/-- A text that is made into a key is made into one that stays as it is. -/
lemma normalize_normalize (raw : Text) : normalize (normalize raw) = normalize raw := by
  rcases eq_or_ne (normalize raw) [] with hnil | hne
  · rw [hnil]
    rfl
  · exact normalize_of_isValid (isValid_normalize hne)

/-- **The keys are the fixed points of the normal form**, but for the empty text: a text is accepted
as a key if the grammar describes it, which is if it is not empty and made into itself, or if it is
not empty and something is made into it. A key that is derived is accepted and derived from itself,
and a normal form stays as it is. -/
theorem parse?_iff_fixed (t : Text) :
    (∀ k : Key, parse? t = some k ↔ k.text = t) ∧
    ((parse? t).isSome ↔ t ∈ grammar) ∧
    ((parse? t).isSome ↔ t ≠ [] ∧ normalize t = t) ∧
    ((parse? t).isSome ↔ t ≠ [] ∧ ∃ raw, normalize raw = t) ∧
    (derive? t = none ∧ normalize t = [] ∨
      ∃ k, derive? t = some k ∧ k.text = normalize t ∧ parse? k.text = some k ∧
        derive? k.text = some k) ∧
    normalize (normalize t) = normalize t := by
  refine ⟨fun k => parse?_eq_some_iff, isSome_parse?_iff.trans isValid_iff_mem_grammar,
    isSome_parse?_iff.trans isValid_iff_normalize, isSome_parse?_iff.trans ?_, ?_,
    normalize_normalize t⟩
  · constructor
    · exact fun h => ⟨ne_nil_of_isValid h, t, normalize_of_isValid h⟩
    · rintro ⟨hne, raw, rfl⟩
      exact isValid_normalize hne
  · cases hderive : derive? t with
    | none => exact .inl ⟨rfl, derive?_eq_none_iff.mp hderive⟩
    | some k =>
        refine .inr ⟨k, rfl, (derive?_eq_some_iff.mp hderive).symm, parse?_eq_some_iff.mpr rfl, ?_⟩
        exact derive?_eq_some_iff.mpr (normalize_of_isValid k.isValid)

end Externalize.Key
