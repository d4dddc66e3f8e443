import Externalize.Proofs.Files.Outcomes
import Externalize.Proofs.Json.Rationals
import Externalize.Proofs.Json.Spelling
import Externalize.Proofs.Json.Unambiguous

/-
The numbers of a document before and after a key of it is set.

* `Document.Shows`, `Document.ShowsAt`: the form that a file spells, found by a path or at a place.
* `Document.Carried`: two forms that have numerals along the same paths under all names but one,
  where each of the second form is one that the numeral of the first one becomes.
* `Document.carriesNumbers_of_save`: so it is with the file that a document is read from and the one
  that it is written to. The numbers stay what they are up to a certain size and length, and are
  altered beyond that.
-/
namespace Externalize

namespace Document

open FileSystem Json

variable {fs now out : FileSystem} {p : Path} {place : Place} {d : Document} {k : Key}
  {t v : Text} {f f' before after : Form}

/-! ### What files spell -/

/-- The form that a text spells; a blank text stands for an object without members. -/
def ShowsText (t : Text) (f : Form) : Prop :=
  if t.all isBlank then f = .object [] else SpellsText f t

/-- The form that the file of a path spells, or an object without members if there is nothing. -/
def Shows (fs : FileSystem) (p : Path) (f : Form) : Prop :=
  fs.has p = false ∧ f = .object [] ∨ ∃ t, fs.readText p = .ok t ∧ ShowsText t f

/-- The form that the file at a place spells. -/
def ShowsAt (fs : FileSystem) (place : Place) (f : Form) : Prop :=
  ∃ t m, fs.node? place = some (.file (bytesOf t) m) ∧ ShowsText t f

lemma ShowsText.unique (h : ShowsText t f) (h' : ShowsText t f') : f = f' := by
  rw [ShowsText] at h h'
  split_ifs at h h'
  · rw [h, h']
  · exact SpellsText.unique h h'

lemma not_readText_of_has (h : fs.has p = false) : fs.readText p ≠ .ok t := by
  intro ht
  obtain ⟨q, b, m, hq, -⟩ := exists_of_readText ht
  rw [has_iff.mpr ⟨q, _, hq⟩] at h
  cases h

/-- A path shows one form at most. -/
lemma Shows.unique (h : Shows fs p f) (h' : Shows fs p f') : f = f' := by
  rcases h with ⟨hnone, rfl⟩ | ⟨t, ht, hf⟩ <;> rcases h' with ⟨hnone', rfl⟩ | ⟨t', ht', hf'⟩
  · rfl
  · exact absurd ht' (not_readText_of_has hnone)
  · exact absurd ht (not_readText_of_has hnone')
  · obtain rfl := Except.ok.inj (ht.symm.trans ht')
    exact hf.unique hf'

lemma bytesOf_injective {t t' : Text} (h : bytesOf t = bytesOf t') : t = t' := by
  have htext := textOf?_bytesOf t
  rw [h, textOf?_bytesOf] at htext
  exact (Option.some_injective _ htext).symm

/-- A place shows one form at most. -/
lemma ShowsAt.unique (h : ShowsAt fs place f) (h' : ShowsAt fs place f') : f = f' := by
  obtain ⟨t, m, hnode, hf⟩ := h
  obtain ⟨t', m', hnode', hf'⟩ := h'
  have hsame := Option.some_injective _ (hnode.symm.trans hnode')
  injection hsame with hbytes _
  obtain rfl := bytesOf_injective hbytes
  exact hf.unique hf'

/-- A document that is opened is shown by its path. -/
lemma exists_shows_of_open (h : Document.open fs p = .ok d) :
    ∃ f, Shows fs p f ∧ Agree Numeral.Reads f (.object d.members) := by
  have hempty : Agree Numeral.Reads (.object []) (.object []) := .object fun _ => .none
  rcases open_eq_ok_iff.mp h with ⟨hhas, rfl⟩ | ⟨q, b, m, hq, hd⟩
  · exact ⟨.object [], .inl ⟨hhas, rfl⟩, hempty⟩
  · obtain ⟨-, t, ht, hparse⟩ := ofBytes_eq_ok_iff.mp hd
    have hread : fs.readText p = .ok t := by rw [readText_eq hq, ht]
    suffices hf : ∃ f, ShowsText t f ∧ Agree Numeral.Reads f (.object d.members) by
      obtain ⟨f, hf, hagree⟩ := hf
      exact ⟨f, .inr ⟨t, hread, hf⟩, hagree⟩
    rw [parse] at hparse
    split_ifs at hparse with hblank
    · rw [← Except.ok.inj hparse]
      exact ⟨.object [], by rw [ShowsText, if_pos hblank], hempty⟩
    · split at hparse
      · cases hparse
      · next members hmembers =>
          rw [← Except.ok.inj hparse]
          obtain ⟨f, hf, hagree⟩ := exists_spellsText_of_parse hmembers
          exact ⟨f, by rwa [ShowsText, if_neg hblank], hagree⟩
      · cases hparse

/-- The written form of a document shows it. -/
lemma exists_showsText_render (hfits : d.Fits) :
    ∃ f, ShowsText d.render f ∧ AgreeWritten f (.object d.members) := by
  have hend : EndsNumber ['\n'] := by simpa [indent] using endsNumber_indent 0 []
  obtain ⟨f, hf, hagree⟩ := exists_spells_renderAt hfits 0 ['\n'] hend
  refine ⟨f, ?_, hagree⟩
  rw [ShowsText, if_neg d.render_not_blank]
  exact ⟨_, _, .refl _, hf, ['\n'], by simp [isSpace], rfl⟩

/-! ### Numbers under other names -/

/-- Two forms that have numerals along the same paths under all names but one, where each one of the
second form is what the one of the first form can become. -/
def Carried (key : Text) (before after : Form) : Prop :=
  ∀ name ≠ key, ∀ steps,
    (∀ n, before.at? (.member name :: steps) = some (.number n) →
      ∃ n', after.at? (.member name :: steps) = some (.number n') ∧ n.Becomes n') ∧
    ∀ n', after.at? (.member name :: steps) = some (.number n') →
      ∃ n, before.at? (.member name :: steps) = some (.number n) ∧ n.Becomes n'

lemma carried_of_agree {ms : Members} {key : Text} {value : Value}
    (hbefore : Agree Numeral.Reads before (.object ms))
    (hafter : AgreeWritten after (.object (ms.set key value))) : Carried key before after := by
  intro name hname steps
  have hsame : (Value.object (ms.set key value)).at? (.member name :: steps) =
      (Value.object ms).at? (.member name :: steps) := by
    rw [Value.at?, Value.at?, Members.lookup_set_of_ne value ms hname]
  obtain ⟨hread, hread'⟩ := hbefore (.member name :: steps)
  obtain ⟨hwritten, hwritten'⟩ := hafter (.member name :: steps)
  rw [hsame] at hwritten hwritten'
  refine ⟨fun n hn => ?_, fun n' hn' => ?_⟩
  · obtain ⟨m, hm, hreads⟩ := hread n hn
    obtain ⟨n', hn', hvalue⟩ := hwritten' m hm
    exact ⟨n', hn', Numeral.becomes_of_reads hreads hvalue⟩
  · obtain ⟨m, hm, hvalue⟩ := hwritten n' hn'
    obtain ⟨n, hn, hreads⟩ := hread' m hm
    exact ⟨n, hn, Numeral.becomes_of_reads hreads hvalue⟩

/-- What becomes of the numbers of a document from one file to another: each of the two spells one
form, and the numerals of the first one are carried to the second one, except under the key. -/
structure CarriesNumbers (fs : FileSystem) (p : Path) (out : FileSystem) (place : Place)
    (key : Text) : Prop where
  before : ∃! f, Shows fs p f
  after : ∃! f, ShowsAt out place f
  carried : ∀ before after, Shows fs p before → ShowsAt out place after →
    Carried key before after

/-- **The numbers of a document are carried to the file that it is written to**, when a key of it is
set. The path leads to this file unless it runs through the entry that was replaced. -/
theorem carriesNumbers_of_save (hopen : Document.open fs p = .ok d)
    (hsave : (d.set k v).save now = (out, .ok ())) :
    ∃ entry, now.destination p = some entry ∧ CarriesNumbers fs p out entry.place k.text ∧
      (¬ Store.RunsThroughEntry now p → ∀ f, Shows out p f ↔ ShowsAt out entry.place f) := by
  obtain ⟨before, hbefore, hread⟩ := exists_shows_of_open hopen
  obtain ⟨after, hafter, hwritten⟩ := exists_showsText_render (fits_set (fits_of_open hopen) k v)
  have hpath : d.path = p := path_of_open hopen
  rw [save, show (d.set k v).path = p from hpath] at hsave
  obtain ⟨entry, hputs⟩ := writeAtomically_ok hsave
  obtain ⟨m, hm⟩ := hputs.node?_place
  have hat : ShowsAt out entry.place after := ⟨_, m, hm, hafter⟩
  refine ⟨entry, hputs.destination_eq, ⟨⟨before, hbefore, fun f hf => hf.unique hbefore⟩,
    ⟨after, hat, fun f hf => hf.unique hat⟩, fun f f' hf hf' => ?_⟩, fun hruns f => ?_⟩
  · obtain rfl := hf.unique hbefore
    obtain rfl := hf'.unique hat
    exact carried_of_agree hread hwritten
  · have hleads := (hputs.resolve_eq_iff hm).mpr hruns
    have hshows : Shows out p after := by
      refine .inr ⟨_, ?_, hafter⟩
      rw [readText_eq hleads, textOf?_bytesOf]
    exact ⟨fun hf => hf.unique hshows ▸ hat, fun hf => hf.unique hat ▸ hshows⟩

/-- A file with one number, the least natural one that is too large for 64 bits. -/
def tooLarge : FileSystem where
  entries := [(["k.arb".toList], .file (bytesOf (['\x7b', '"', '@', '@', 'x', '"', ':', ' '] ++
    Nat.toDigits 10 (2 ^ 64) ++ ['\x7d'])) 0o644)]
  current := []

/-- This number is altered when another key is set. -/
theorem carriesNumbers_of_save_tooLarge : ∃ d out place after n',
    Document.open tooLarge ⟨"k.arb".toList⟩ = .ok d ∧
    (d.set ⟨"hi".toList, by decide⟩ "Hi".toList).save tooLarge = (out, .ok ()) ∧
    CarriesNumbers tooLarge ⟨"k.arb".toList⟩ out place "hi".toList ∧
    Shows tooLarge ⟨"k.arb".toList⟩
      (.object [(['@', '@', 'x'], .number (.ofNat false (2 ^ 64)))]) ∧
    ShowsAt out place after ∧ after.at? [.member ['@', '@', 'x']] = some (.number n') ∧
    (Numeral.ofNat false (2 ^ 64)).value = 18446744073709551616 ∧
    n'.value = 18446744073709552000 := by
  obtain ⟨d, hopen, u, hsave, -⟩ : ∃ d, Document.open tooLarge ⟨"k.arb".toList⟩ = .ok d ∧
      ∃ u, ((d.set ⟨"hi".toList, by decide⟩ "Hi".toList).save tooLarge).2 = .ok u ∧ True := by
    decide +kernel
  rcases hwrite : (d.set ⟨"hi".toList, by decide⟩ "Hi".toList).save tooLarge with ⟨out, r⟩
  rw [hwrite] at hsave
  subst hsave
  obtain ⟨entry, -, hcarries, -⟩ := carriesNumbers_of_save hopen hwrite
  obtain ⟨after, hafter, -⟩ := hcarries.after
  have hshows : Shows tooLarge ⟨"k.arb".toList⟩
      (.object [(['@', '@', 'x'], .number (.ofNat false (2 ^ 64)))]) := by
    refine .inr ⟨['\x7b', '"', '@', '@', 'x', '"', ':', ' '] ++ Nat.toDigits 10 (2 ^ 64) ++
      ['\x7d'], by decide +kernel, ?_⟩
    rw [ShowsText, if_neg (by decide +kernel)]
    have hname : SpellsString ['@', '@', 'x'] ('@' :: '@' :: 'x' :: '"' :: ':' :: ' ' ::
        (Nat.toDigits 10 (2 ^ 64) ++ ['\x7d']))
          (':' :: ' ' :: (Nat.toDigits 10 (2 ^ 64) ++ ['\x7d'])) :=
      .plain (by decide) (.plain (by decide) (.plain (by decide) .done))
    have hspace : Blanks (' ' :: (Nat.toDigits 10 (2 ^ 64) ++ ['\x7d']))
        (Nat.toDigits 10 (2 ^ 64) ++ ['\x7d']) := ⟨[' '], by simp [isSpace], rfl⟩
    have hnumber : Spells (.number (.ofNat false (2 ^ 64))) (Nat.toDigits 10 (2 ^ 64) ++ ['\x7d'])
        ['\x7d'] := .number _ (by rw [Numeral.text_ofNat]; rfl) (by simp [EndsNumber])
    exact ⟨_, [], .refl _, .object (.refl _) (.colon hname (.refl _) hspace hnumber)
      (.done (.refl _)), .refl _⟩
  obtain ⟨hcarried, -⟩ := hcarries.carried _ _ hshows hafter ['@', '@', 'x'] (by decide) []
  obtain ⟨n', hn', hbecomes⟩ := hcarried (.ofNat false (2 ^ 64)) (by simp [Form.at?, lastOf])
  obtain ⟨m, hreads, hvalue⟩ := hbecomes.read
  have hread : readNumber false (Numeral.ofNat false (2 ^ 64)).unsigned =
      .ok (.float ⟨false, ⟨2 ^ 52, 12⟩⟩, []) := by decide +kernel
  have hm : m = .float ⟨false, ⟨2 ^ 52, 12⟩⟩ := by
    have h := hreads [] endsNumber_nil
    rw [List.append_nil] at h
    exact congrArg Prod.fst (Except.ok.inj (h.symm.trans hread))
  have hshortest : Decimal.shortest ⟨2 ^ 52, 12⟩ = ⟨18446744073709552, 3⟩ := by decide +kernel
  refine ⟨d, out, _, after, n', hopen, hwrite, hcarries, hshows, hafter, hn', ?_, ?_⟩
  · rw [Numeral.value_ofNat]
    norm_num
  · rw [hvalue, hm, Number.textValue, hshortest, Decimal.value]
    norm_num

end Document

end Externalize
