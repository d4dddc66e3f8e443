import Externalize.Proofs.Files.Places
import Externalize.Proofs.Json.RoundTrip
import Externalize.Resource.Document

/-
Documents and their files.

* `Document.ofBytes`: the document that the bytes of a file hold; `Document.open_eq_ok_iff` says
  that opening a path reads it off the file that the path leads to.
* `Document.reread`: a document with its numbers as they are read back; `Document.ofBytes_render`
  says that the written form of a document is read as that.
* `Document.IsWhole`: a document whose numbers have no fraction and no exponent; it is read back as
  it is.
* `Document.Holds`: a document that gives a key this text.
-/
namespace Externalize

/-! ### Properties of what is computed -/

instance decidableForallOk {ε α : Type} (x : Except ε α) (P : α → Prop) [DecidablePred P] :
    Decidable (∀ a, x = .ok a → P a) :=
  match x with
  | .error _ => isTrue fun _ h => nomatch h
  | .ok a => decidable_of_iff (P a) ⟨fun h _ ha => Except.ok.inj ha ▸ h, fun h => h a rfl⟩

instance decidableExistsOk {ε α : Type} (x : Except ε α) (P : α → Prop) [DecidablePred P] :
    Decidable (∃ a, x = .ok a ∧ P a) :=
  match x with
  | .error _ => isFalse fun ⟨_, h, _⟩ => nomatch h
  | .ok a => decidable_of_iff (P a)
      ⟨fun h => ⟨a, rfl, h⟩, fun ⟨_, ha, h⟩ => Except.ok.inj ha ▸ h⟩

instance decidableForallSome {α : Type} (x : Option α) (P : α → Prop) [DecidablePred P] :
    Decidable (∀ a, x = some a → P a) :=
  match x with
  | none => isTrue fun _ h => nomatch h
  | some a => decidable_of_iff (P a) ⟨fun h _ ha => Option.some.inj ha ▸ h, fun h => h a rfl⟩

instance decidableForallNotLink (n? : Option Node) :
    Decidable (∀ target, n? ≠ some (.link target)) :=
  match n? with
  | none | some (.file _ _) | some .directory => isTrue fun _ h => nomatch h
  | some (.link target) => isFalse fun h => h target rfl

instance decidableExistsFile (x : Except OsError FileSystem.Found) :
    Decidable (∃ q b m, x = .ok ⟨q, some (.file b m)⟩) :=
  match x with
  | .ok ⟨q, some (.file b m)⟩ => isTrue ⟨q, b, m, rfl⟩
  | .error _ | .ok ⟨_, none⟩ | .ok ⟨_, some .directory⟩ | .ok ⟨_, some (.link _)⟩ =>
    isFalse fun ⟨_, _, _, h⟩ => nomatch h

/-! ### Opening -/

/-- The text that bytes are read as. -/
def textOf? (b : ByteArray) : Option Text := (String.fromUTF8? b).map String.toList

/-- The bytes of a text are read as that text. -/
theorem textOf?_bytesOf (t : Text) : textOf? (FileSystem.bytesOf t) = some t := by
  have hread : String.fromUTF8? (String.ofList t).toUTF8 = some (String.ofList t) :=
    dif_pos (String.ofList t).isValidUTF8
  rw [textOf?, FileSystem.bytesOf, hread, Option.map_some, String.toList_ofList]

/-- Bytes that are read as a text are the bytes of that text. -/
theorem bytesOf_of_textOf? {b : ByteArray} {t : Text} (h : textOf? b = some t) :
    FileSystem.bytesOf t = b := by
  rw [textOf?, Option.map_eq_some_iff] at h
  obtain ⟨s, hs, rfl⟩ := h
  rw [String.fromUTF8?] at hs
  split_ifs at hs
  cases hs
  rw [FileSystem.bytesOf, String.ofList_toList]
  rfl

namespace FileSystem

variable {fs : FileSystem} {p : Path} {q : Place} {b : ByteArray} {m : Nat}

/-- A path leads to something that is no link, or to nothing. -/
lemma has_iff : fs.has p = true ↔ ∃ q n, fs.resolve true p = .ok ⟨q, some n⟩ := by
  rw [has, status]
  rcases fs.resolve true p with e | ⟨q, _ | n⟩ <;> simp [Except.isOk, Except.toBool]

lemma read_eq (h : fs.resolve true p = .ok ⟨q, some (.file b m)⟩) : fs.read p = .ok b := by
  rw [read, status, h]

lemma exists_of_read (h : fs.read p = .ok b) :
    ∃ q m, fs.resolve true p = .ok ⟨q, some (.file b m)⟩ := by
  rw [read, status] at h
  rcases hfound : fs.resolve true p with e | ⟨q, _ | ⟨⟨b', m⟩ | - | target⟩⟩ <;>
    rw [hfound] at h <;> cases h
  exact ⟨q, m, rfl⟩

lemma readText_eq (h : fs.resolve true p = .ok ⟨q, some (.file b m)⟩) :
    fs.readText p = match textOf? b with
      | some t => .ok t
      | none => .error .notUtf8 := by
  rw [readText, read_eq h, textOf?]
  simp only
  cases String.fromUTF8? b <;> rfl

lemma exists_of_readText {t : Text} (h : fs.readText p = .ok t) :
    ∃ q b m, fs.resolve true p = .ok ⟨q, some (.file b m)⟩ ∧ textOf? b = some t := by
  have hread : ∃ b, fs.read p = .ok b := by
    rw [readText] at h
    split at h
    · cases h
    · next b hb => exact ⟨b, hb⟩
  obtain ⟨b, hb⟩ := hread
  obtain ⟨q, m, hq⟩ := exists_of_read hb
  refine ⟨q, b, m, hq, ?_⟩
  rw [readText_eq hq] at h
  split at h
  · cases h
    assumption
  · cases h

end FileSystem

namespace Document

variable {fs : FileSystem} {p : Path} {q : Place} {b : ByteArray} {m : Nat} {d : Document}
  {k : Key} {v : Text}

/-- The document of a path whose file has these bytes. -/
def ofBytes (p : Path) (b : ByteArray) : Except DocumentError Document :=
  match textOf? b with
  | some t => (parse p t).map fun members => ⟨p, members⟩
  | none => .error (.read p .notUtf8)

lemma open_eq (h : fs.resolve true p = .ok ⟨q, some (.file b m)⟩) :
    Document.open fs p = ofBytes p b := by
  rw [Document.open, if_pos (FileSystem.has_iff.mpr ⟨_, _, h⟩), FileSystem.readText_eq h, ofBytes]
  cases textOf? b <;> rfl

/-- A document is opened from the file that its path leads to, or is new if there is nothing. -/
theorem open_eq_ok_iff : Document.open fs p = .ok d ↔
    fs.has p = false ∧ d = ⟨p, []⟩ ∨
      ∃ q b m, fs.resolve true p = .ok ⟨q, some (.file b m)⟩ ∧ ofBytes p b = .ok d := by
  constructor
  · intro h
    by_cases hhas : fs.has p = true
    · right
      have htext : ∃ t, fs.readText p = .ok t := by
        rw [Document.open, if_pos hhas] at h
        split at h
        · cases h
        · next t ht => exact ⟨t, ht⟩
      obtain ⟨t, ht⟩ := htext
      obtain ⟨q, b, m, hq, -⟩ := FileSystem.exists_of_readText ht
      exact ⟨q, b, m, hq, (open_eq hq).symm.trans h⟩
    · left
      rw [Document.open, if_neg hhas] at h
      cases h
      exact ⟨by simpa using hhas, rfl⟩
  · rintro (⟨hhas, rfl⟩ | ⟨q, b, m, hq, hd⟩)
    · rw [Document.open, if_neg (by simp [hhas])]
    · rw [open_eq hq, hd]

lemma ofBytes_eq_ok_iff : ofBytes p b = .ok d ↔
    d.path = p ∧ ∃ t, textOf? b = some t ∧ parse p t = .ok d.members := by
  rw [ofBytes]
  cases textOf? b with
  | none => simp
  | some t =>
      cases hparse : parse p t with
      | error e => simp [Except.map, hparse]
      | ok members =>
          obtain ⟨path, members'⟩ := d
          simp only [Except.map, Except.ok.injEq, Document.mk.injEq, Option.some.injEq,
            exists_eq_left', hparse]
          exact and_congr_left' eq_comm

/-- What bytes hold does not depend on the path. -/
lemma ofBytes_of_ofBytes (h : ofBytes p b = .ok d) (p' : Path) :
    ofBytes p' b = .ok ⟨p', d.members⟩ := by
  obtain ⟨-, t, ht, hparse⟩ := ofBytes_eq_ok_iff.mp h
  refine ofBytes_eq_ok_iff.mpr ⟨rfl, t, ht, ?_⟩
  rw [parse] at hparse ⊢
  split_ifs at hparse ⊢
  · exact hparse
  · cases hjson : Json.parse t with
    | error f => simp [hjson] at hparse
    | ok value => cases value <;> simp_all

lemma path_of_open (h : Document.open fs p = .ok d) : d.path = p := by
  rcases open_eq_ok_iff.mp h with ⟨-, rfl⟩ | ⟨_, _, _, -, hd⟩
  · rfl
  · exact (ofBytes_eq_ok_iff.mp hd).1

/-! ### Documents that are written -/

/-- A document of the shape that documents are read in. -/
def Fits (d : Document) : Prop := (Json.Value.object d.members).Fits Json.maxDepth

lemma fits_of_ofBytes (h : ofBytes p b = .ok d) : d.Fits := by
  obtain ⟨-, t, -, ht⟩ := ofBytes_eq_ok_iff.mp h
  rw [Fits]
  rw [parse] at ht
  split_ifs at ht
  · have hnil : d.members = [] := (Except.ok.inj ht).symm
    rw [hnil]
    exact .object (by simp [Json.Members.keys]) (by simp)
  · split at ht
    · cases ht
    · next members hmembers =>
        rw [← Except.ok.inj ht]
        exact Json.fits_of_parse hmembers
    · cases ht

lemma fits_of_open (h : Document.open fs p = .ok d) : d.Fits := by
  rcases open_eq_ok_iff.mp h with ⟨-, rfl⟩ | ⟨_, _, _, -, hd⟩
  · exact .object (by simp [Json.Members.keys]) (by simp)
  · exact fits_of_ofBytes hd

lemma fits_set (h : d.Fits) (k : Key) (v : Text) : (d.set k v).Fits := by
  rw [Fits] at h ⊢
  cases h with
  | object hkeys hms =>
      refine .object (Json.Members.nodup_keys_set hkeys) fun m hm => ?_
      rcases Json.Members.mem_set hm with rfl | hm
      · exact .string v
      · exact hms m hm

/-- A document with its numbers as they are read back. -/
def reread (d : Document) : Document := { d with members := Json.rereadMembers d.members }

/-- The written form of a document is not blank. -/
lemma render_not_blank (d : Document) : ¬ d.render.all isBlank = true := by
  have hbrace : isBlank '\x7b' = false := rfl
  have hhead : '\x7b' ∈ d.render := by
    rw [render, Json.Value.render]
    cases d.members <;> simp [Json.Value.renderAt]
  intro hall
  rw [List.all_eq_true.mp hall _ hhead] at hbrace
  cases hbrace

/-- The written form of a document is read as that document, with its numbers as they are read
back. -/
theorem ofBytes_render (hfits : d.Fits) :
    ofBytes d.path (FileSystem.bytesOf d.render) = .ok d.reread := by
  refine ofBytes_eq_ok_iff.mpr ⟨rfl, d.render, textOf?_bytesOf _, ?_⟩
  rw [parse, if_neg d.render_not_blank, render, Json.parse_render hfits]
  rfl

/-- The written form of a document with a key set, as it is read. -/
lemma ofBytes_set (hfits : d.Fits) (k : Key) (v : Text) :
    ofBytes d.path (FileSystem.bytesOf (d.set k v).render) = .ok (d.set k v).reread :=
  ofBytes_render (fits_set hfits k v)

/-- A document whose numbers are whole. -/
def IsWhole (d : Document) : Prop := (Json.Value.object d.members).isWhole = true

instance (d : Document) : Decidable d.IsWhole :=
  inferInstanceAs (Decidable ((Json.Value.object d.members).isWhole = true))

lemma isWhole_set (h : d.IsWhole) (k : Key) (v : Text) : (d.set k v).IsWhole := by
  rw [IsWhole, Json.Value.isWhole, Json.membersAreWhole_iff] at h ⊢
  intro m hm
  rcases Json.Members.mem_set hm with rfl | hm
  · rfl
  · exact h m hm

/-- A document with whole numbers is read back as it is. -/
theorem reread_of_isWhole (h : d.IsWhole) : d.reread = d := by
  rw [reread, Json.rereadMembers_of_membersAreWhole d.members h]

/-! ### Keys in documents -/

/-- The document of a path opens, and gives a key this text. -/
def Holds (fs : FileSystem) (p : Path) (k : Key) (v : Text) : Prop :=
  ∃ d, Document.open fs p = .ok d ∧ d.get? k.text = some v

instance (fs : FileSystem) (p : Path) (k : Key) (v : Text) : Decidable (Holds fs p k v) := by
  unfold Holds
  infer_instance

/-- A key that is set has its text still when the document is read back. -/
lemma get?_reread_set (d : Document) (k : Key) (v : Text) :
    (d.set k v).reread.get? k.text = some v := by
  rw [get?, reread, set, Json.lookup_rereadMembers, Json.Members.lookup_set_self]
  rfl

end Document

end Externalize
