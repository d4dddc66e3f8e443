import Externalize.Proofs.Resource.Merging
import Externalize.Proofs.Resource.Setting

/-
A document that is opened, given keys, written, and opened again.

* `Document.actions`: what setting keys one after the other does to each of them.
* `Document.SetsAll`: a document with keys set one after the other; `Document.setsAll_of_fits` says
  that setting them does so.
* `Document.reopen_of_save`: what is written is read back, and has been written as it would be
  again.
* `Document.keeps_of_open`: all of this for a document that was opened.
-/
namespace Externalize

open FileSystem

namespace Document

variable {fs now out : FileSystem} {p : Path} {d : Document} {k : Key} {v : Text}
  {ms earlier later : List (Key × Text)}

/-! ### Actions -/

/-- What setting keys one after the other does to each of them. -/
def actions : Document → List (Key × Text) → List KeyAction
  | _, [] => []
  | d, m :: ms => d.action m.1 m.2 :: (d.set m.1 m.2).actions ms

/-- The action of a key is that on the document with the keys before it set. -/
theorem getElem?_actions (d : Document) (earlier : List (Key × Text)) (k : Key) (v : Text)
    (later : List (Key × Text)) :
    (d.actions (earlier ++ (k, v) :: later))[earlier.length]? =
      some ((d.setAll earlier).action k v) := by
  induction earlier generalizing d with
  | nil => rfl
  | cons m earlier ih => exact ih (d.set m.1 m.2)

lemma length_actions (d : Document) (ms : List (Key × Text)) :
    (d.actions ms).length = ms.length := by
  induction ms generalizing d with
  | nil => rfl
  | cons m ms ih => exact congrArg (· + 1) (ih (d.set m.1 m.2))

/-! ### Writing and reading back -/

/-- A document with whole numbers that was written is read back as it is, if its path does not run
through its own entry. The bytes of its file are those of its written form. -/
theorem reopen_of_save (hfits : d.Fits) (hwhole : d.IsWhole) (h : d.save now = (out, .ok ()))
    (hruns : ¬ Store.RunsThroughEntry now d.path) :
    Document.open out d.path = .ok d ∧ out.read d.path = .ok (bytesOf d.render) := by
  obtain ⟨f, hputs⟩ := writeAtomically_ok h
  obtain ⟨m, hresolve⟩ := hputs.resolve_eq (Store.lastPlace_erase_of_puts hputs hruns)
  refine ⟨?_, read_eq hresolve⟩
  rw [open_eq hresolve, ofBytes_render hfits, reread_of_isWhole hwhole]

/-! ### Keys set one after the other in a document that was opened -/

/-- What is asked of keys that are set one after the other: they are added behind the ones that are
there, no key twice, each one with its last text; all other members stay, such as those whose key
begins with an at sign; and each action tells what was there just before. -/
structure SetsAll (d : Document) (ms : List (Key × Text)) (after : Document) (as : List KeyAction) :
    Prop where
  allSet : d.AllSet ms after
  nodup : after.members.keys.Nodup
  metadata : ∀ key, key.head? = some '@' → after.members.lookup key = d.members.lookup key
  length : as.length = ms.length
  action : ∀ earlier k v later, ms = earlier ++ (k, v) :: later → ∃ between a,
    d.AllSet earlier between ∧ as[earlier.length]? = some a ∧ between.ActsOn k v a

theorem setsAll_of_fits (h : d.Fits) (ms : List (Key × Text)) :
    d.SetsAll ms (d.setAll ms) (d.actions ms) where
  allSet := allSet_setAll d ms
  nodup := (fits_setAll h ms).nodup_keys
  metadata key hkey := by
    refine lookup_setAll d fun m _ heq => ?_
    have hat := m.1.isKeyChar_of_mem (heq ▸ List.mem_of_mem_head? hkey)
    revert hat
    decide
  length := length_actions d ms
  action earlier k v later hms := by
    rw [hms]
    exact ⟨_, _, allSet_setAll d earlier, getElem?_actions d earlier k v later,
      actsOn_action (d.setAll earlier) k v⟩

/-- **A document that is opened keeps what it has.** Keys are set one after the other as asked; and
when the document is written, under a path that does not run through its own entry, the same
document is read back, and its file has the bytes that it would be written with again. -/
theorem keeps_of_open (h : Document.open fs p = .ok d) (hwhole : d.IsWhole)
    (ms : List (Key × Text)) : d.SetsAll ms (d.setAll ms) (d.actions ms) ∧
    ∀ now out, (d.setAll ms).save now = (out, .ok ()) → ¬ Store.RunsThroughEntry now p →
      Document.open out p = .ok (d.setAll ms) ∧
        out.read p = .ok (bytesOf (d.setAll ms).render) := by
  have hfits := fits_of_open h
  have hpath : (d.setAll ms).path = p := (path_setAll d ms).trans (path_of_open h)
  refine ⟨setsAll_of_fits hfits ms, fun now out hsave hruns => ?_⟩
  have hreopen := reopen_of_save (fits_setAll hfits ms) (isWhole_setAll hwhole ms) hsave
  rw [hpath] at hreopen
  exact hreopen hruns

/-- A document with metadata, a nested value, and a key that it has twice. -/
def annotated : FileSystem where
  entries := [(["app_en.arb".toList],
    .file (bytesOf ("\x7b\"@@locale\": \"en\", \"visits\": 1, ".toList ++
    "\"@visits\": \x7b\"x\": [-2, \x7b\x7d]\x7d, \"visits\": [null]\x7d".toList)) 0o644)]
  current := []

/-- Keys to set in it, one of them twice, to a text of odd characters. -/
def greetings : List (Key × Text) :=
  [(⟨"greeting".toList, by decide⟩, "\"é\u2028\x00\\".toList),
    (⟨"visits".toList, by decide⟩, "Visits".toList),
    (⟨"greeting".toList, by decide⟩, "\"é\u2028\x00\\".toList)]

/-- Of three calls one adds its key, one sets a key that had no text, and the last one changes
nothing. -/
theorem keeps_of_open_annotated : ∃ d out, Document.open annotated ⟨"app_en.arb".toList⟩ = .ok d ∧
    d.IsWhole ∧ d.SetsAll greetings (d.setAll greetings) (d.actions greetings) ∧
    d.actions greetings = [.added, .updated, .unchanged] ∧
    (d.setAll greetings).members.keys =
      ["@@locale", "visits", "@visits", "greeting"].map String.toList ∧
    (d.setAll greetings).save annotated = (out, .ok ()) ∧
    Document.open out ⟨"app_en.arb".toList⟩ = .ok (d.setAll greetings) := by
  obtain ⟨d, hopen, hwhole, hactions, hkeys, u, hsave, -⟩ : ∃ d,
      Document.open annotated ⟨"app_en.arb".toList⟩ = .ok d ∧ d.IsWhole ∧
      d.actions greetings = [.added, .updated, .unchanged] ∧
      (d.setAll greetings).members.keys =
        ["@@locale", "visits", "@visits", "greeting"].map String.toList ∧
      ∃ u, ((d.setAll greetings).save annotated).2 = .ok u ∧ True := by decide +kernel
  have hruns : ¬ Store.RunsThroughEntry annotated ⟨"app_en.arb".toList⟩ := by decide +kernel
  obtain ⟨hsets, hreopen⟩ := keeps_of_open hopen hwhole greetings
  have hwritten := Prod.ext (x := (d.setAll greetings).save annotated) (y := (_, .ok ())) rfl hsave
  exact ⟨d, _, hopen, hwhole, hsets, hactions, hkeys, hwritten, (hreopen _ _ hwritten hruns).1⟩

/-- A link that leads to nothing. -/
def withDeadLink : FileSystem where
  entries := [(["k.arb".toList], .link ⟨"d".toList⟩)]
  current := []

/-- What is written need not be read back: a path that runs through its own entry, a link to a
directory that is made for the write, leads nowhere when a file has taken the place of the link. -/
theorem not_forall_reopen_of_save : ¬ ∀ (fs out : FileSystem) (p : Path) (d : Document)
    (ms : List (Key × Text)), fs.WellFormed → Document.open fs p = .ok d → d.IsWhole →
      (d.setAll ms).save fs = (out, .ok ()) →
      ∃ d', Document.open out p = .ok d' ∧ d'.members.keys = (d.setAll ms).members.keys := by
  intro h
  obtain ⟨ms, hms⟩ : ∃ ms : List (Key × Text), ms = [(⟨"hi".toList, by decide⟩, "Hi".toList)] :=
    ⟨_, rfl⟩
  obtain ⟨d, hopen, hwhole, hlost, u, hsave, -⟩ : ∃ d,
      Document.open withDeadLink ⟨"d/../k.arb/../k.arb".toList⟩ = .ok d ∧ d.IsWhole ∧
      (∀ d', Document.open ((d.setAll ms).save withDeadLink).1
        ⟨"d/../k.arb/../k.arb".toList⟩ = .ok d' →
          d'.members.keys ≠ (d.setAll ms).members.keys) ∧
      ∃ u, ((d.setAll ms).save withDeadLink).2 = .ok u ∧ True := by
    rw [hms]
    decide +kernel
  obtain ⟨d', hd', hkeys⟩ := h withDeadLink _ _ d ms (by decide +kernel) hopen hwhole
    (Prod.ext (x := (d.setAll ms).save withDeadLink) (y := (_, .ok ())) rfl hsave)
  exact hlost d' hd' hkeys

end Document

end Externalize
