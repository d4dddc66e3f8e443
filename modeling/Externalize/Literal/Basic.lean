import Externalize.Text.Basic

/-
String literals in a source text.

Four grammars quote a text: a quote or a double quote, or three of either. Inside the simple ones a
backslash takes the next character with it, which must not be a line feed; the triple ones end at
the next triple and know no escapes.

* `Grammar.match?`: reads one literal at the start of a text.
* `Grammar.occurrences`: the literals of one grammar from left to right, none overlapping another.
* `Literal.containing?`: of the literals that contain a range, the first one in the order of the
  grammars, then of the text.
-/
namespace Externalize

/-- The quoting conventions. -/
inductive Grammar where
  | singleQuoted
  | doubleQuoted
  | tripleSingleQuoted
  | tripleDoubleQuoted
deriving DecidableEq

/-- A literal with the byte range of its text, delimiters included, and the text between them,
escapes unread. -/
structure Literal where
  start : Nat
  stop : Nat
  content : Text
  grammar : Grammar
deriving DecidableEq

namespace Grammar

/-- The grammars in the order in which they are tried. -/
def priority : List Grammar := [singleQuoted, doubleQuoted, tripleSingleQuoted, tripleDoubleQuoted]

/-- The quote character. -/
def quote : Grammar → Char
  | singleQuoted | tripleSingleQuoted => '\''
  | doubleQuoted | tripleDoubleQuoted => '"'

/-- Whether the delimiter is three quotes. -/
def isTriple : Grammar → Bool
  | singleQuoted | doubleQuoted => false
  | tripleSingleQuoted | tripleDoubleQuoted => true

/-- What opens and closes a literal. -/
def delimiter (g : Grammar) : Text :=
  if g.isTriple then [g.quote, g.quote, g.quote] else [g.quote]

/-- Reads up to the closing quote: what stands before it, and what follows it. -/
def close? (q : Char) : Text → Option (Text × Text)
  | [] => none
  | c :: r =>
    if c = q then some ([], r)
    else if c = '\\' then
      match r with
      | [] => none
      | d :: r =>
        if d = '\n' then none
        else (close? q r).map fun (body, rest) => (c :: d :: body, rest)
    else (close? q r).map fun (body, rest) => (c :: body, rest)

/-- Reads up to the next three quotes: what stands before them, and what follows them. -/
def closeTriple? (q : Char) : Text → Option (Text × Text)
  | a :: b :: c :: r =>
    if a = q ∧ b = q ∧ c = q then some ([], r)
    else (closeTriple? q (b :: c :: r)).map fun (body, rest) => (a :: body, rest)
  | _ => none

/-- Reads a literal at the start of the text: what its delimiters enclose, and what follows it. -/
def match? (g : Grammar) (t : Text) : Option (Text × Text) :=
  if g.delimiter.isPrefixOf t then
    let r := t.drop g.delimiter.length
    if g.isTriple then closeTriple? g.quote r else close? g.quote r
  else none

/-- The literals of a text, `offset` being the offset of its first character, after the first
`skip` characters have been passed over. -/
def occurrencesFrom (g : Grammar) (offset : Nat) : (skip : Nat) → Text → List Literal
  | _, [] => []
  | skip + 1, c :: r => g.occurrencesFrom (offset + c.utf8Size) skip r
  | 0, c :: r =>
    match g.match? (c :: r) with
    | some (content, rest) =>
      ⟨offset, offset + (Text.size (c :: r) - Text.size rest), content, g⟩ ::
        g.occurrencesFrom (offset + c.utf8Size) (r.length - rest.length) r
    | none => g.occurrencesFrom (offset + c.utf8Size) 0 r

/-- The literals of a text from left to right: each begins at the first place after the last one
where the grammar matches. -/
def occurrences (g : Grammar) (t : Text) : List Literal := g.occurrencesFrom 0 0 t

/-! ### Nothing is lost in a literal -/

theorem append_of_close? {q : Char} {t body rest : Text} (h : close? q t = some (body, rest)) :
    t = body ++ q :: rest := by
  fun_induction close? q t generalizing body rest with
  | case1 => simp at h
  | case2 r =>
    obtain ⟨rfl, rfl⟩ : body = [] ∧ rest = r := by simpa [eq_comm] using h
    rfl
  | case3 => simp at h
  | case4 => simp at h
  | case5 d r hd hq ih =>
    simp only [Option.map_eq_some_iff, Prod.exists, Prod.mk.injEq] at h
    obtain ⟨b, r', hr, rfl, rfl⟩ := h
    simp [ih hr]
  | case6 c r hq hc ih =>
    simp only [Option.map_eq_some_iff, Prod.exists, Prod.mk.injEq] at h
    obtain ⟨b, r', hr, rfl, rfl⟩ := h
    simp [ih hr]

theorem append_of_closeTriple? {q : Char} {t body rest : Text}
    (h : closeTriple? q t = some (body, rest)) : t = body ++ q :: q :: q :: rest := by
  fun_induction closeTriple? q t generalizing body rest with
  | case1 a b c r hq =>
    obtain ⟨rfl, rfl, rfl⟩ := hq
    obtain ⟨rfl, rfl⟩ : body = [] ∧ rest = r := by simpa [eq_comm] using h
    rfl
  | case2 a b c r hq ih =>
    simp only [Option.map_eq_some_iff, Prod.exists, Prod.mk.injEq] at h
    obtain ⟨b', r', hr, rfl, rfl⟩ := h
    simp [ih hr]
  | case3 => simp at h

end Grammar

namespace Literal

/-- The literal covers the whole range, an end of the one at an end of the other included. -/
def contains (l : Literal) (start stop : Nat) : Bool := l.start ≤ start && stop ≤ l.stop

/-- The first literal that contains the range, by the order of the grammars, then of the text. -/
def containing? (t : Text) (start stop : Nat) : Option Literal :=
  Grammar.priority.findSome? fun g => (g.occurrences t).find? (·.contains start stop)

/-- The literal in a text that has `by` bytes more in front. -/
def shift (l : Literal) (by_ : Nat) : Literal :=
  { l with start := l.start + by_, stop := l.stop + by_ }

end Literal

end Externalize
