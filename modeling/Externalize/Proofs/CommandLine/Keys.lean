import Externalize.CommandLine.Run
import Externalize.Proofs.Extraction.Previews
import Externalize.Proofs.Key.Letters
import Externalize.Proofs.Literal.Ranges

/-
The key that a command shows and the key that an extraction uses.

* `Key.normalize_spaced`: the key of words in one text does not depend on what parts them.
* `Key.normalize_joins_runs`: a key is made of the runs of its text, and the `key` command shows the
  one that an extraction of a literal with that text uses, whether the words are given as one
  argument or as several.
* `Key.normalize_eq_nil`: which texts make no key, so that an extraction passes over a literal and
  the `key` command fails.
-/
namespace Externalize

open Text

namespace Key

/-- Words have the same key in one text as joined by blanks. -/
theorem normalize_spaced (first : Text) {rest : List (Text × Text)}
    (h : ∀ p ∈ rest, IsSeparator p.1) :
    normalize ([' '].intercalate (first :: rest.map Prod.snd)) = normalize (spaced first rest) := by
  have hblanks : ∀ p ∈ (rest.map Prod.snd).map ([' '], ·), IsSeparator p.1 := by
    intro p hp
    obtain ⟨word, -, rfl⟩ := List.mem_map.mp hp
    exact isSeparator_blank
  have hwords : ((rest.map Prod.snd).map (([' '] : Text), ·)).map Prod.snd = rest.map Prod.snd := by
    rw [List.map_map]
    exact List.map_id _
  rw [normalize_eq, normalize_eq, intercalate_blank, runs_spaced first h, runs_spaced first hblanks,
    hwords]

end Key

variable {t : Text} {c : Cursor} {candidate : Candidate} {words : List Text} {x : Surroundings}
  {fs : FileSystem}

/-- No key can be derived from the content that a cursor is passed over for. -/
lemma Candidate.derive?_of_emptyKey {content : Text}
    (h : Candidate.at t c = .error (.emptyKey content)) : Key.derive? content = none := by
  rw [Candidate.at] at h
  split at h
  next l hl =>
    rw [ofLiteral] at h
    split at h
    next => cases h
    next hk =>
      cases h
      exact hk
  next => cases h

/-- The key that words make is shown. -/
lemma run_key_of_some {k : Key} (h : Key.derive? ([' '].intercalate words) = some k) :
    Command.run (some (.key words)) x fs = .still fs (.ok .success) [.out k.text] := by
  simp only [Command.run, runKey, h]

/-- Words that make no key are refused. -/
lemma run_key_of_none (h : Key.derive? ([' '].intercalate words) = none) :
    (Command.run (some (.key words)) x fs).result = .ok .failure ∧
      ∀ help, (Command.run (some (.key words)) x fs).stdout help = [] := by
  simp only [Command.run, runKey, h]
  exact ⟨rfl, fun help => rfl⟩

/-- **A key is made of the maximal runs of `a`–`z` and `0`–`9` in the lower case of its text**, with
one underscore between any two of them, wherever a sigma is taken to end a word. So it does not
depend on what parts the words of the text, and the `key` command shows the key that an extraction
of a literal with that text uses, given the text or its words. -/
theorem Key.normalize_joins_runs :
    (∀ (final : Text → Text → Bool) (raw : Text),
      normalize raw = join (runs (lowercaseAmid final [] raw))) ∧
    (∀ a b s t : Text, IsSeparator s → IsSeparator t →
      normalize (a ++ s ++ b) = normalize (a ++ t ++ b)) ∧
    ∀ (first : Text) (rest : List (Text × Text)), (∀ p ∈ rest, IsSeparator p.1) →
      ∀ words ∈ [[spaced first rest], first :: rest.map Prod.snd],
      ∀ (x : Surroundings) (fs : FileSystem) (t : Text) (c : Cursor),
        (∀ candidate, Candidate.at t c = .ok candidate →
          candidate.literal.content = spaced first rest →
          Command.run (some (.key words)) x fs = .still fs (.ok .success)
            [.out candidate.key.text]) ∧
        (Candidate.at t c = .error (.emptyKey (spaced first rest)) →
          (Command.run (some (.key words)) x fs).result = .ok .failure ∧
          ∀ help, (Command.run (some (.key words)) x fs).stdout help = []) := by
  refine ⟨fun final raw => ?_, fun a b s t hs ht => ?_, ?_⟩
  · rw [normalize_eq, runs_lowercaseAmid]
  · rw [normalize_eq, normalize_eq, hs.runs_eq, ht.runs_eq]
  intro first rest hrest words hwords x fs t c
  have hderive : derive? ([' '].intercalate words) = derive? (spaced first rest) := by
    rcases List.mem_cons.mp hwords with rfl | hwords
    · simp
    · rw [List.mem_singleton.mp hwords]
      exact derive?_congr (normalize_spaced first hrest)
  constructor
  · intro candidate hat hcontent
    exact run_key_of_some (hderive.trans (hcontent ▸ (Candidate.at_eq_ok_iff.mp hat).2))
  · intro hat
    exact run_key_of_none (hderive.trans (Candidate.derive?_of_emptyKey hat))

/-- Two words that a letter of no key and a dash part, and a literal of nothing but a dash. -/
theorem Key.normalize_joins_runs_dashes :
    IsSeparator "ö—".toList ∧ normalize "Grö—SE".toList = normalize "Gr SE".toList ∧
    (∃ candidate, Candidate.at "f('Grö—SE')".toList (.caret 4) = .ok candidate ∧
      candidate.literal.content = spaced "Gr".toList [("ö—".toList, "SE".toList)] ∧
      candidate.key.text = "gr_se".toList ∧
      Command.run (some (.key ["Gr".toList, "SE".toList])) ⟨false, .notStarted ""⟩ (.mk [] []) =
        .still (.mk [] []) (.ok .success) [.out candidate.key.text]) ∧
    Candidate.at "f('—')".toList (.caret 2) = .error (.emptyKey (spaced "—".toList [])) ∧
    (Command.run (some (.key ["—".toList])) ⟨false, .notStarted ""⟩ (.mk [] [])).result =
      .ok .failure := by
  have hdash : IsSeparator "ö—".toList := by decide +kernel
  have hrest : ∀ p ∈ [("ö—".toList, "SE".toList)], IsSeparator p.1 := by
    intro p hp
    rw [List.mem_singleton.mp hp]
    exact hdash
  obtain ⟨-, hparts, hshown⟩ := normalize_joins_runs
  have hat : Candidate.at "f('Grö—SE')".toList (.caret 4) =
      .ok ⟨⟨2, 13, "Grö—SE".toList, .singleQuoted⟩, ⟨"gr_se".toList, by decide⟩⟩ := by
    decide +kernel
  have hempty : Candidate.at "f('—')".toList (.caret 2) =
      .error (.emptyKey (spaced "—".toList [])) := by
    decide +kernel
  refine ⟨hdash, hparts "Gr".toList "SE".toList _ _ hdash isSeparator_blank, ⟨_, hat, rfl, rfl, ?_⟩,
    hempty, ?_⟩
  · exact (hshown "Gr".toList _ hrest ["Gr".toList, "SE".toList] (by simp) _ (.mk [] []) _ _).1
      _ hat rfl
  · exact ((hshown "—".toList [] (by simp) ["—".toList] (by simp) _ (.mk [] []) _ _).2 hempty).1

/-! ### Texts that make no key -/

/-- An extraction passes over a cursor for the same reason as the candidate at it. -/
lemma Extraction.begin_eq_error_iff {s : Store} {r : Skip} :
    (Extraction.begin s fs t c).result = .ok (.error r) ↔ Candidate.at t c = .error r := by
  rw [← Extraction.preview_eq_error_iff, Extraction.preview]
  cases Candidate.at t c <;> simp

/-- No key can be derived from the content of the literal at a cursor if none is derived from that
content. -/
lemma Candidate.at_eq_emptyKey_iff {content : Text} :
    Candidate.at t c = .error (.emptyKey content) ↔
    ∃ l, Literal.at? t c = some l ∧ l.content = content ∧ Key.derive? content = none := by
  rw [Candidate.at]
  cases Literal.at? t c with
  | none => simp
  | some l =>
      simp only [Option.some.injEq, exists_eq_left', ofLiteral]
      cases hderive : Key.derive? l.content with
      | none =>
          simp only [Except.error.injEq, Skip.emptyKey.injEq]
          exact ⟨fun h => ⟨h, h ▸ hderive⟩, fun h => h.1⟩
      | some k =>
          refine iff_of_false (by simp) ?_
          rintro ⟨rfl, hnone⟩
          cases hderive.symm.trans hnone

/-- **A text makes no key if and only if it has no letter and no digit of ASCII, no dotted capital I
and no Kelvin sign**, wherever a sigma is taken to end a word. So the letters and digits decide it
unless there are none of them and one of these two is there. For such a content an extraction passes
over its literal, and for such words the `key` command fails and says that there are no letters or
digits; for others it shows the key. -/
theorem Key.normalize_eq_nil (raw : Text) :
    (normalize raw = [] ↔ Keyless raw) ∧
    ((normalize raw = [] ↔ ∀ c ∈ raw, c.isAlphanum = false) ↔
      (∃ c ∈ raw, c.isAlphanum = true) ∨ ∀ c ∈ raw, c ≠ '\u0130' ∧ c ≠ '\u212A') ∧
    (∀ final : Text → Text → Bool, join (runs (lowercaseAmid final [] raw)) = [] ↔ Keyless raw) ∧
    (∀ (s : Store) (fs : FileSystem) (t : Text) (c : Cursor),
      (Extraction.begin s fs t c).result = .ok (.error (.emptyKey raw)) ↔
        ∃ l, Literal.at? t c = some l ∧ l.content = raw ∧ Keyless raw) ∧
    ∀ (words : List Text) (x : Surroundings) (fs : FileSystem),
      Command.run (some (.key words)) x fs =
        if Keyless ([' '].intercalate words) then
          .still fs (.ok .failure)
            [.err (Report.failure x.colours ("Cannot build a key from ".toList ++
            Text.quoted ([' '].intercalate words) ++ ": no letters or digits".toList))]
        else .still fs (.ok .success) [.out (normalize ([' '].intercalate words))] := by
  have hkey : normalize raw = [] ↔ Keyless raw := by
    rw [← derive?_eq_none_iff, derive?_eq_none_iff_keyless]
  refine ⟨hkey, ?_, fun final => ?_, fun s fs t c => ?_, fun words x fs => ?_⟩
  · rw [hkey, keyless_iff, and_iff_left_iff_imp, imp_iff_not_or]
    exact or_congr_left (by simp)
  · rw [runs_lowercaseAmid, join_runs_eq_nil_iff, runs_lowercase_eq_nil_iff]
  · rw [Extraction.begin_eq_error_iff, Candidate.at_eq_emptyKey_iff]
    simp only [derive?_eq_none_iff_keyless]
  · split_ifs with hkeyless
    · rw [Command.run, runKey, derive?_eq_none_iff_keyless.mpr hkeyless]
      rfl
    · obtain ⟨k, hk⟩ := Option.ne_none_iff_exists'.mp (mt derive?_eq_none_iff_keyless.mp hkeyless)
      rw [run_key_of_some hk, derive?_eq_some_iff.mp hk]

/-- The sign of the unit of temperature makes a key, although it is no letter of ASCII. -/
example : Key.normalize "\u212A".toList = "k".toList := by decide +kernel

end Externalize
