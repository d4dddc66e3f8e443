import Externalize.Log.Record
import Externalize.Numeric.Word64
import Externalize.Text.Blank

/-
Which records are shown.

A filter is a list of directives. Of those that fit a record the most specific one counts: it names
the longer target, or, with targets of one length, a value. It shows the records up to its level.

* `Directive`, `Directive.ofText?`: a directive, and how it is written.
* `LogFilter.shows`: whether a record is shown.
* `LogFilter.inForce`: the filter that is asked for, or else the usual one.
-/
namespace Externalize

/-! ### Directives -/

/-- A directive: the records that it fits, and the level up to which it shows them; none shows no
record. -/
structure Directive where
  /-- What the targets begin with; any target if it is missing. -/
  target : Option Text
  /-- The value that goes with the records. -/
  field : Option Text
  level : Option Level
deriving DecidableEq

/-- The levels by number, from showing nothing to showing all. -/
def Level.limits : List (String × Option Level) :=
  [("off", none), ("error", some .error), ("warn", some .warn), ("info", some .info),
    ("debug", some .debug), ("trace", some .trace)]

/-- The level that a text names, by its number or by its word in any case. -/
def Level.limitOf? (t : Text) : Option (Option Level) :=
  match Word64.ofText t with
  | .ok n => limits[n]?.map (·.2)
  | .error _ => (limits.find? fun (w, _) => w.toList = t.map Char.toLower).map (·.2)

/-- What one part of a filter says. -/
inductive FilterPart where
  | directive (d : Directive)
  /-- It is about spans, in which no record is. -/
  | span
deriving DecidableEq

namespace FilterPart

/-- A part with the level that is written after it. -/
def ofLevel (part : Option Level → FilterPart) (t : Text) : Option FilterPart :=
  if t.isEmpty then some (part (some .trace)) else (Level.limitOf? t).map part

/-- What a field stands for: with a value it is about spans. -/
def ofField (target : Option Text) (field : Text) : Option Level → FilterPart :=
  if field.any (· == '=') then fun _ => span else fun l => directive ⟨target, some field, l⟩

/-- What is written after the closing bracket: nothing, or a level. -/
def afterBracket (part : Option Level → FilterPart) (t : Text) : Option FilterPart :=
  match t with
  | '=' :: r => ofLevel part r
  | r => if r.all isBlank then some (part (some .trace)) else none

/-- What is written after an opening bracket: the name of a span, a field in braces, or both. -/
def afterOpening (target : Option Text) (t : Text) : Option FilterPart :=
  let isEnd (c : Char) : Bool := c == ']' || c == '\x7b'
  let name := t.takeWhile fun c => !isEnd c
  match t.dropWhile fun c => !isEnd c with
  | ']' :: r => afterBracket (fun _ => span) r
  | _ :: r =>
    let field := r.takeWhile (· != '\x7d')
    match r.dropWhile (· != '\x7d') with
    | _ :: ']' :: r =>
      if field.isEmpty then none
      else afterBracket (if name.isEmpty then ofField target field else fun _ => span) r
    | _ => none
  | [] => none

/-- Whether a character can begin a target. -/
def canBegin (c : Char) : Bool :=
  c == '-' || c == ':' || c == '_' || c.isAlphanum || 128 ≤ c.toNat

/-- What a part says; none if it is malformed. A blank before it or after it belongs to it, so with
one it names neither a level nor the target of a record. -/
def ofText? (t : Text) : Option FilterPart :=
  let isEnd (c : Char) : Bool := c == '=' || c == '['
  let s := t.trimStart
  let name := s.takeWhile fun c => !isEnd c
  match s, s.dropWhile fun c => !isEnd c with
  | '[' :: _, _ :: r => afterOpening none r
  | c :: _, rest =>
    if canBegin c then
      match rest with
      | [] =>
        match Level.limitOf? t with
        | some l => some (directive ⟨none, none, l⟩)
        | none => some (directive ⟨some t, none, some .trace⟩)
      | '=' :: r =>
        if s.length = t.length then ofLevel (fun l => directive ⟨some name, none, l⟩) r else none
      | _ :: r => afterOpening (some name) r
    else none
  | [], _ => none

end FilterPart

namespace Directive

/-- Whether a record is one of those that the directive is about. -/
def fits (d : Directive) (r : LogRecord) : Bool :=
  d.target.all (·.isPrefixOf r.target.toList) &&
    d.field.all fun f => f == "message".toList || r.fields.any fun (n, _) => n.toList == f

/-- How specific a directive is: the size of its target, and whether it names a value. -/
def rank (d : Directive) : Nat × Nat :=
  ((d.target.map fun t => t.size + 1).getD 0, if d.field.isSome then 1 else 0)

/-- Whether the first of two directives that fit one record gives way to the second: that is as
specific, and of two values it does not have the smaller name. -/
def givesWay (a b : Directive) : Bool :=
  a.rank.1 < b.rank.1 ||
    (a.rank.1 == b.rank.1 && (a.rank.2 < b.rank.2 ||
      (a.rank.2 == b.rank.2 && !decide (b.field.getD [] < a.field.getD []))))

end Directive

/-! ### Filters -/

/-- A filter, its directives in the order in which they are given. -/
abbrev LogFilter := List Directive

namespace LogFilter

/-- The most specific directive that fits a record. -/
def directive? (f : LogFilter) (r : LogRecord) : Option Directive :=
  (f.filter (·.fits r)).foldl
    (fun best d =>
      match best with
      | none => some d
      | some b => if b.givesWay d then some d else some b)
    none

/-- Whether a record is shown. -/
def shows (f : LogFilter) (r : LogRecord) : Bool :=
  match f.directive? r with
  | some ⟨_, _, some l⟩ => r.level.depth ≤ l.depth
  | _ => false

/-- The filter that a text writes: its parts, with commas between them. One without parts shows the
errors. -/
def ofText? (t : Text) : Option LogFilter :=
  match ((t.splitOn ',').filter fun p => !p.isEmpty).mapM FilterPart.ofText? with
  | none => none
  | some [] => some [⟨none, none, some .error⟩]
  | some parts => some (parts.filterMap fun
    | .directive d => some d
    | .span => none)

/-- The usual filter: warnings, or all that the program itself does. -/
def usual (verbose : Bool) : LogFilter :=
  if verbose then [⟨some "arbify".toList, none, some .debug⟩] else [⟨none, none, some .warn⟩]

/-- The filter that is asked for, if it is well-formed, or else the usual one. -/
def inForce (asked : Option Text) (verbose : Bool) : LogFilter :=
  (asked.bind ofText?).getD (usual verbose)

end LogFilter

/-! ### Lines -/

/-- A character of a message as it is shown: controls that could start an escape sequence are
spelled out. -/
def shownChar (c : Char) : Text :=
  if c ∈ [Char.ofNat 7, Char.ofNat 8, Char.ofNat 12] then
    ['\\', 'x', '0', Nat.digitChar c.toNat]
  else if c = Char.ofNat 27 then ['\\', 'x', '1', 'b']
  else if c = Char.ofNat 127 then ['\\', 'x', '7', 'f']
  else if 128 ≤ c.toNat && c.toNat ≤ 159 then
    ['\\', 'u', '\x7b'] ++ Nat.toDigits 16 c.toNat ++ ['\x7d']
  else [c]

/-- A record as it is shown: its level, its target if that is asked for, its message and its
values. -/
def LogRecord.shown (r : LogRecord) (withTarget : Bool) : String :=
  let target := if withTarget then s!"{r.target}: " else ""
  let message := String.ofList (r.message.toList.flatMap shownChar)
  " ".intercalate (s!"{r.level.label} {target}{message}" ::
    r.fields.map fun (name, value) => s!"{name}={value}")

end Externalize
