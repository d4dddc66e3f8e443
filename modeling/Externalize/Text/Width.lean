import Externalize.Text.Unprintable
import Externalize.Text.WidthRanges

/-
How many columns a text takes.

Most characters take one column, wide ones two, marks none. Some neighbours are shown as one sign
and count as one: emoji with their variations and skin tones, emoji joined to a sequence, and the
ligatures of some scripts.

* `Ligature`: two characters that are shown as one, and what has to stand between them.
* `Text.width`: the number of columns.
-/
namespace Externalize

/-- The columns of a character by itself. -/
def columns (c : Char) : Nat :=
  if c.toNat < 0xA0 then 1
  else if c.toNat = 0x17D8 then 3
  else if inRanges zeroWidthRanges c then 0
  else if inRanges wideRanges c then 2
  else 1

/-- Zero width joiner. -/
def joiner : Char := Char.ofNat 0x200D

/-- The variation selector that asks for the emoji form. -/
def emojiSelector : Char := Char.ofNat 0xFE0F

/-- The variation selector that asks for the text form. -/
def textSelector : Char := Char.ofNat 0xFE0E

/-- A pair of characters of which the second takes no column after the first, with the marks that
may join them: none needed, or one that has to stand between them. -/
structure Ligature where
  first : List (Nat × Nat)
  second : List (Nat × Nat)
  joiners : List Nat
deriving DecidableEq

/-- The pairs: a line end, Arabic lam and alef, Hebrew alef and lamed, the subscripts of Khmer, the
tones of Lisu, and joined letters of Tifinagh, Buginese and Old Turkic. -/
def ligatures : List Ligature :=
  [⟨[(0x0D, 0x0D)], [(0x0A, 0x0A)], []⟩,
    ⟨[(0x644, 0x644), (0x6B5, 0x6B8), (0x76A, 0x76A), (0x8A6, 0x8A6), (0x8C7, 0x8C7)],
      [(0x622, 0x623), (0x625, 0x625), (0x627, 0x627), (0x671, 0x673), (0x675, 0x675),
        (0x773, 0x774), (0x870, 0x882)], []⟩,
    ⟨[(0x5D0, 0x5D0)], [(0x5DC, 0x5DC)], [0x200D]⟩,
    ⟨[(0, 0x10FFFF)],
      [(0x1780, 0x1782), (0x1784, 0x1787), (0x1789, 0x178C), (0x178E, 0x1793), (0x1795, 0x1798),
        (0x179B, 0x179D), (0x17A0, 0x17A0), (0x17A2, 0x17A2), (0x17A7, 0x17A7), (0x17AB, 0x17AC),
        (0x17AF, 0x17AF)], [0x17D2]⟩,
    ⟨[(0xA4F8, 0xA4FB)], [(0xA4FC, 0xA4FD)], []⟩,
    ⟨[(0x2D31, 0x2D65), (0x2D6F, 0x2D6F)], [(0x2D31, 0x2D65), (0x2D6F, 0x2D6F)], [0x200D, 0x2D7F]⟩,
    ⟨[(0x1A15, 0x1A15)], [(0x1A10, 0x1A10)], [0x200D]⟩,
    ⟨[(0x10C32, 0x10C32)], [(0x10C03, 0x10C03)], [0x200D]⟩]

/-- What stands before the next character: the last one that is no mark, whether it is shown as an
emoji, and the marks since, the last one first. -/
structure WidthContext where
  last : Option Char
  isEmoji : Bool
  marks : List Char

namespace WidthContext

/-- Whether a character is joined to what stands before it. -/
def joins (x : WidthContext) (c : Char) : Bool :=
  x.last.any fun b =>
    ligatures.any fun l =>
      inRanges l.first b && inRanges l.second c &&
        (if l.joiners.isEmpty then !x.marks.contains joiner
          else x.marks.any fun m => l.joiners.contains m.toNat)

/-- Whether a skin tone belongs to what stands before it. -/
def takesModifier (x : WidthContext) (c : Char) : Bool :=
  0x1F3FB ≤ c.toNat && c.toNat ≤ 0x1F3FF && x.marks.isEmpty &&
    x.last.any (inRanges modifierBaseRanges)

end WidthContext

/-- The columns of a text in its context. -/
def Text.widthAfter (x : WidthContext) : Text → Nat
  | [] => 0
  | c :: r =>
    if columns c = 0 then Text.widthAfter { x with marks := c :: x.marks } r
    else if x.takesModifier c then
      (2 - (x.last.map columns).getD 0) + Text.widthAfter { x with isEmoji := true, marks := [] } r
    else
      let varies := inRanges emojiVariationRanges c
      let asText :=
        varies && r.head? == some textSelector && !(0x1F200 ≤ c.toNat && c.toNat < 0x1F300)
      let asEmoji := (varies && r.head? == some emojiSelector) || inRanges emojiRanges c
      let own := if asText then 1 else if asEmoji then 2 else columns c
      let emoji := asEmoji && !asText
      let joined := x.joins c || (emoji && x.isEmoji && x.marks.head? == some joiner)
      (if joined then 0 else own) + Text.widthAfter ⟨some c, emoji, []⟩ r

/-- The number of columns that a text takes. -/
def Text.width (t : Text) : Nat := Text.widthAfter ⟨none, false, []⟩ t

end Externalize
