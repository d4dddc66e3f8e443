import Externalize.Cursor
import Externalize.Numeric.Word64
import Externalize.Proofs.Text.Bytes

/-
The lines of a text, found in its bytes.

Offsets are words of 64 bits, and a text is an array of bytes. An operation that has no result stops
the program.

* `Checked`: a value, unless an operation on the way to it has no result.
* `Checked.lineStart`, `Checked.lineEnd`, `Checked.lines`: the range of a line, by a search of the
  bytes.
* `Checked.lineStart_eq`, `Checked.lineEnd_eq`, `Checked.lines_eq`: they always have a result, also
  for offsets past the end or within a character, and it is that of the search by characters.
-/
namespace Externalize

/-- Why an operation has no result. -/
inductive Violation where
  /-- A range is reversed, or goes past the end. -/
  | outOfBounds
  /-- An end of the range splits a character. -/
  | splitsCharacter
  /-- A number is too large for a word. -/
  | overflow
  /-- A number is below zero. -/
  | underflow
deriving DecidableEq

/-- A value, unless an operation on the way to it has no result. -/
abbrev Checked := Except Violation

namespace Checked

variable {t above line below : Text} {o m n : Nat} {α β : Type}

/-- A value that is there is passed on. -/
@[simp] lemma ok_bind (a : α) (f : α → Checked β) : ((.ok a : Checked α) >>= f) = f a := rfl

/-! ### Operations -/

/-- The sum of two words. -/
def add (m n : Nat) : Checked Nat :=
  if m + n ≤ Word64.largest then .ok (m + n) else .error .overflow

/-- The difference of two words. -/
def sub (m n : Nat) : Checked Nat := if n ≤ m then .ok (m - n) else .error .underflow

/-- The bytes before an index. -/
def upTo (bytes : List UInt8) (n : Nat) : Checked (List UInt8) :=
  if n ≤ bytes.length then .ok (bytes.take n) else .error .outOfBounds

/-- The bytes from an index on. -/
def onward (bytes : List UInt8) (n : Nat) : Checked (List UInt8) :=
  if n ≤ bytes.length then .ok (bytes.drop n) else .error .outOfBounds

/-- The byte at an index. -/
def byteAt (bytes : List UInt8) (n : Nat) : Checked UInt8 :=
  if h : n < bytes.length then .ok (bytes.get ⟨n, h⟩) else .error .outOfBounds

/-- A part of a text. -/
def slice (t : Text) (start stop : Nat) : Checked Text :=
  if stop < start ∨ t.size < stop then .error .outOfBounds
  else if t.IsBoundary start ∧ t.IsBoundary stop then .ok (t.slice start stop)
  else .error .splitsCharacter

lemma add_eq (h : m + n ≤ Word64.largest) : add m n = .ok (m + n) := if_pos h

lemma sub_eq (h : n ≤ m) : sub m n = .ok (m - n) := if_pos h

lemma slice_eq {start stop : Nat} (h : start ≤ stop) (hstart : t.IsBoundary start)
    (hstop : t.IsBoundary stop) : slice t start stop = .ok (t.slice start stop) := by
  rw [slice, if_neg (not_or.mpr ⟨h.not_gt, hstop.le_size.not_gt⟩), if_pos ⟨hstart, hstop⟩]

lemma slice_append (a b r : Text) :
    slice (a ++ (b ++ r)) a.size (a ++ b : Text).size = .ok b := by
  have hcut : a ++ (b ++ r) = a ++ b ++ r := (List.append_assoc a b r).symm
  rw [slice_eq (by rw [Text.size_append]; omega) (Text.isBoundary_size_append a _)
    (hcut ▸ Text.isBoundary_size_append (a ++ b) r), Text.slice_append]

/-- What is left of a text can be cut off. -/
lemma slice_append_right (a b : Text) : slice (a ++ b) a.size (a ++ b : Text).size = .ok b := by
  simpa using slice_append a b []

/-- A part that begins within a character is none. -/
example : slice "é".toList 1 2 = .error .splitsCharacter := by decide

/-! ### Searches -/

/-- The index of the last byte that is `b`. -/
def lastIdxOf? (b : UInt8) (bytes : List UInt8) : Option Nat :=
  (bytes.reverse.idxOf? b).map fun i => bytes.length - 1 - i

lemma idxOf?_append_cons {b : UInt8} {front : List UInt8} (h : b ∉ front) (rest : List UInt8) :
    (front ++ b :: rest).idxOf? b = some front.length := by
  have hfront : front.idxOf? b = none := List.idxOf?_eq_none_iff.mpr h
  rw [List.idxOf?] at hfront ⊢
  rw [List.findIdx?_append, hfront, Option.none_or, List.findIdx?_cons, if_pos (beq_self_eq_true b),
    Option.map_some, Nat.zero_add]

lemma lastIdxOf?_append_cons {b : UInt8} {rest : List UInt8} (h : b ∉ rest) (front : List UInt8) :
    lastIdxOf? b (front ++ b :: rest) = some front.length := by
  have hcut : (front ++ b :: rest).reverse = rest.reverse ++ b :: front.reverse := by simp
  rw [lastIdxOf?, hcut, idxOf?_append_cons (by simpa using h), Option.map_some, Option.some_inj]
  simp only [List.length_append, List.length_cons, List.length_reverse]
  omega

lemma lastIdxOf?_eq_none {b : UInt8} {bytes : List UInt8} (h : b ∉ bytes) :
    lastIdxOf? b bytes = none := by
  rw [lastIdxOf?, List.idxOf?_eq_none_iff.mpr (by simpa using h), Option.map_none]

/-! ### The line of an offset -/

/-- The first byte of the line that holds the offset: after the last line feed before it. -/
def lineStart (t : Text) (o : Nat) : Checked Nat := do
  let front ← upTo t.bytes (min o t.size)
  match lastIdxOf? '\n'.toUInt8 front with
  | some i => add i 1
  | none => .ok 0

/-- The next line feed after an offset, or the end of the text. -/
def nextFeed (t : Text) (o : Nat) : Checked Nat := do
  let rest ← onward t.bytes o
  match rest.idxOf? '\n'.toUInt8 with
  | some i => add o i
  | none => .ok t.size

/-- The end of a line, not counting a return that ends it, unless the return is before the
offset. -/
def beforeReturn (t : Text) (o stop : Nat) : Checked Nat :=
  if o < stop then do
    let last ← sub stop 1
    let b ← byteAt t.bytes last
    if b = '\r'.toUInt8 then sub stop 1 else .ok stop
  else .ok stop

/-- The byte after the line that holds the offset, its terminator not counted. -/
def lineEnd (t : Text) (o : Nat) : Checked Nat := do
  let stop ← nextFeed t (min o t.size)
  beforeReturn t (min o t.size) stop

/-- The range of the lines that a cursor touches. -/
def lines (c : Cursor) (t : Text) : Checked (Nat × Nat) := do
  let first ← lineStart t c.start
  let last ← lineEnd t c.stop
  .ok (first, max last first)

lemma toNat_feed : '\n'.val.toNat < 128 := by decide

lemma toNat_return : '\r'.val.toNat < 128 := by decide

lemma bytes_feed (t : Text) : Text.bytes ('\n' :: t) = '\n'.toUInt8 :: t.bytes := rfl

/-- The bytes before an offset in a line are those above the line and some of the line. -/
lemma upTo_line (h : Text.IsLine t above line below) (habove : above.size ≤ n)
    (hline : n ≤ (above ++ line : Text).size) :
    upTo t.bytes n = .ok (above.bytes ++ line.bytes.take (n - above.size)) := by
  rw [Text.size_append] at hline
  rw [h.append, upTo, if_pos (by simp only [Text.length_bytes, Text.size_append]; omega),
    Text.bytes_append, Text.bytes_append, List.append_assoc, List.take_append, Text.length_bytes,
    List.take_of_length_le (by rwa [Text.length_bytes]),
    List.take_append_of_le_length (by rw [Text.length_bytes]; omega)]

/-- **The search of the bytes before an offset finds the start of its line**, wherever the offset
is. -/
theorem lineStart_eq (ht : t.size < Word64.largest) (o : Nat) :
    lineStart t o = .ok (t.lineStart o) := by
  obtain ⟨above, line, below, hline, habove, hin⟩ :=
    Text.exists_isLine_of_le (Nat.min_le_right o t.size)
  have hstart : t.lineStart o = above.size := by
    rw [habove, Text.lineStart_min_size]
  have hnone : '\n'.toUInt8 ∉ line.bytes.take (min o t.size - above.size) := fun hmem =>
    hline.line ((Text.mem_bytes_iff toNat_feed).mp (List.mem_of_mem_take hmem))
  rw [lineStart, upTo_line hline (habove ▸ Text.lineStart_le t _) hin, ok_bind, hstart]
  rcases List.eq_nil_or_concat above with rfl | ⟨init, c, rfl⟩
  · rw [Text.bytes_nil, List.nil_append, lastIdxOf?_eq_none hnone]
    rfl
  · obtain rfl : c = '\n' := hline.above c (by simp)
    have hsize : Text.size (init.concat '\n') = Text.size init + 1 := by
      rw [List.concat_eq_append, Text.size_append]
      rfl
    have hle : Text.size (init.concat '\n') ≤ t.size := by
      rw [habove]
      exact (Text.isBoundary_lineStart t _).le_size
    rw [hsize] at hle hnone ⊢
    rw [List.concat_eq_append, Text.bytes_append, bytes_feed, Text.bytes_nil, List.append_assoc,
      List.singleton_append, lastIdxOf?_append_cons hnone, Text.length_bytes]
    exact add_eq (by omega)

/-- The next line feed ends the line that goes on after an offset. -/
lemma nextFeed_append {u r : Text} (ht : (u ++ r : Text).size < Word64.largest) (ho : o ≤ u.size)
    (hbytes : ∀ b ∈ u.bytes.drop o, 128 ≤ b.toNat) :
    nextFeed (u ++ r) o = .ok (u ++ r.firstLine : Text).size := by
  have hrest : onward (u ++ r : Text).bytes o = .ok (u.bytes.drop o ++ r.bytes) := by
    rw [onward, if_pos (by rw [Text.length_bytes, Text.size_append]; omega), Text.bytes_append,
      List.drop_append_of_le_length (by rwa [Text.length_bytes])]
  have hnone : ∀ line : Text, '\n' ∉ line → '\n'.toUInt8 ∉ u.bytes.drop o ++ line.bytes := by
    intro line hline hmem
    rcases List.mem_append.mp hmem with hmem | hmem
    · exact absurd (hbytes _ hmem) (by decide)
    · exact hline ((Text.mem_bytes_iff toNat_feed).mp hmem)
  rw [nextFeed, hrest, ok_bind]
  by_cases hfeed : '\n' ∈ r
  · obtain ⟨line, below, rfl, hline⟩ := List.eq_append_cons_of_mem hfeed
    have hsum : o + (u.bytes.drop o ++ Text.bytes line).length = (u ++ line : Text).size := by
      rw [List.length_append, List.length_drop, Text.length_bytes, Text.length_bytes,
        Text.size_append]
      omega
    rw [← List.append_assoc, Text.size_append] at ht
    rw [Text.firstLine_append line (Text.beginsAfterLine_cons below),
      Text.firstLine_of_notMem hline, Text.bytes_append, bytes_feed, ← List.append_assoc,
      idxOf?_append_cons (hnone line hline), ← hsum]
    exact add_eq (by omega)
  · rw [List.idxOf?_eq_none_iff.mpr (hnone r hfeed), Text.firstLine_of_notMem hfeed]

/-- The last byte of a part of a text is at the index before the end of the part. -/
lemma byteAt_append {a : Text} {b : UInt8} (hb : a.bytes.getLast? = some b) (r : Text) :
    byteAt (a ++ r : Text).bytes (a.size - 1) = .ok b := by
  rw [List.getLast?_eq_getElem?, Text.length_bytes] at hb
  obtain ⟨hlt, hget⟩ := List.getElem?_eq_some_iff.mp hb
  rw [byteAt, dif_pos (by rw [Text.bytes_append, List.length_append]; omega)]
  simp only [Text.bytes_append, List.get_eq_getElem, List.getElem_append_left hlt, hget]

/-- A return that ends the line of an offset is not before the offset. -/
lemma getLast?_append_iff {u line : Text} (hlt : o < (u ++ line : Text).size)
    (hbytes : ∀ b ∈ u.bytes.drop o, 128 ≤ b.toNat) :
    (u ++ line : Text).getLast? = some '\r' ↔ line.getLast? = some '\r' := by
  rcases eq_or_ne line [] with rfl | hne
  · -- the offset is within the last character, which is then no return
    rw [List.append_nil] at hlt ⊢
    refine iff_of_false (fun hlast => ?_) (fun h => nomatch h)
    rw [← Text.getLast?_bytes_iff toNat_return, ← List.take_append_drop o u.bytes,
      List.getLast?_append_of_ne_nil] at hlast
    · exact absurd (hbytes _ (List.mem_of_getLast? hlast)) (by decide)
    · rw [← List.length_pos_iff, List.length_drop, Text.length_bytes]
      omega
  · rw [List.getLast?_append_of_ne_nil _ hne]

lemma size_dropLast {line : Text} (h : line.getLast? = some '\r') :
    line.size = Text.size line.dropLast + 1 := by
  have hcut := congrArg Text.size (List.dropLast_append_getLast? _ h)
  rw [Text.size_append] at hcut
  exact hcut.symm

/-- A return that ends the line is found by its byte. -/
lemma beforeReturn_append {u line : Text} (ho : o ≤ u.size)
    (hbytes : ∀ b ∈ u.bytes.drop o, 128 ≤ b.toNat) (below : Text) :
    beforeReturn (u ++ line ++ below) o (u ++ line : Text).size =
      .ok (u ++ line.dropReturn : Text).size := by
  rw [beforeReturn, Text.dropReturn]
  split_ifs with hlt hlast hlast
  · have hb : (u ++ line : Text).bytes.getLast? = some '\r'.toUInt8 :=
      (Text.getLast?_bytes_iff toNat_return).mpr ((getLast?_append_iff hlt hbytes).mpr hlast)
    rw [sub_eq (by omega), ok_bind, byteAt_append hb, ok_bind, if_pos rfl, Text.size_append,
      Text.size_append, size_dropLast hlast, ← Nat.add_assoc, Nat.add_sub_cancel]
  · have hne : (u ++ line : Text).bytes ≠ [] := by
      rw [← List.length_pos_iff, Text.length_bytes]
      omega
    have hb := List.getLast?_eq_some_getLast hne
    generalize (u ++ line : Text).bytes.getLast hne = b at hb
    have hreturn : b ≠ '\r'.toUInt8 := by
      rintro rfl
      exact hlast ((getLast?_append_iff hlt hbytes).mp
        ((Text.getLast?_bytes_iff toNat_return).mp hb))
    rw [sub_eq (by omega), ok_bind, byteAt_append hb, ok_bind, if_neg hreturn]
  · -- the line that goes on after the offset is empty
    rw [Text.size_append] at hlt
    obtain rfl : line = [] := Text.eq_nil_of_size_eq_zero (by omega)
    cases hlast
  · rfl

/-- **The search of the bytes after an offset finds the end of its line**, wherever the offset is:
past the end, within a character, or between a return and a line feed. -/
theorem lineEnd_eq (ht : t.size < Word64.largest) (o : Nat) :
    lineEnd t o = .ok (t.lineEnd o) := by
  obtain ⟨u, hcut, ho, hbytes⟩ := Text.exists_around (Nat.min_le_right o t.size)
  rw [Text.after_min_size] at hcut
  have hend : t.lineEnd o = (u ++ Text.dropReturn (t.after o).firstLine : Text).size := by
    have hsize := congrArg Text.size hcut
    rw [Text.size_append] at hsize ⊢
    rw [Text.lineEnd]
    omega
  have hfeed := nextFeed_append (hcut ▸ ht) ho hbytes
  have hline : u ++ (t.after o).firstLine ++ (t.after o).dropWhile (· != '\n') = t := by
    rw [List.append_assoc, Text.firstLine, List.takeWhile_append_dropWhile, ← hcut]
  rw [← hcut] at hfeed
  rw [lineEnd, hfeed, ok_bind, hend, ← beforeReturn_append ho hbytes, hline]

/-- **The lines that a cursor touches are found**, whatever its offsets are. -/
theorem lines_eq (ht : t.size < Word64.largest) (c : Cursor) : lines c t = .ok (c.lines t) := by
  rw [lines, lineStart_eq ht, ok_bind, lineEnd_eq ht, ok_bind]
  rfl

end Checked

end Externalize
