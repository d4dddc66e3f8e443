import Externalize.Key
import Externalize.Literal.Basic
import Externalize.Source.Edit
import Externalize.Text.Blank
import Externalize.Text.Line

/-
Taking a literal out of a source text.

A literal becomes the lookup of its key, and a text that does not hold the import declaration gets
it on a line of its own: after the last import directive, or at the top.

* `importEdit?`: the insertion of the declaration.
* `Plan.externalizing`: the lookup, then the insertion if one is needed.
-/
namespace Externalize

/-- The expression that gives the texts of the current context. -/
def accessor : Text := "AppLocalizations.of(context)!".toList

/-- The declaration that brings the accessor into scope. -/
def importDeclaration : Text :=
  "import 'package:flutter_gen/gen_l10n/app_localizations.dart';".toList

/-- The expression that looks a key up. -/
def lookupExpression (k : Key) : Text := accessor ++ '.' :: k.text

namespace Text

/-- The line terminator of a text: `\r\n` if its first line ends so, else `\n`. -/
def terminator (t : Text) : Text :=
  if '\n' ∈ t ∧ t.firstLine.getLast? = some '\r' then ['\r', '\n'] else ['\n']

/-- Whether a line, its blanks at the start taken off, begins an import directive. -/
def isImportLine (line : Text) : Bool :=
  "import ".toList.isPrefixOf line || "import\t".toList.isPrefixOf line

/-- The text from its last import directive on; none if no line begins one. -/
def fromLastImport? (t : Text) : Option Text :=
  (terminatedLines t).foldr
    (fun line (rest, found) =>
      (line ++ rest,
        match found with
        | some later => some later
        | none => if isImportLine line.trimStart then some (line.trimStart ++ rest) else none))
    ([], (none : Option Text)) |>.2

/-- The offset at which the last import directive starts. -/
def lastImportStart? (t : Text) : Option Nat := (fromLastImport? t).map fun d => t.size - d.size

/-- The offset after the last import directive: after its first semicolon, on whatever line that
is, or at the end of its line if there is none. -/
def lastImportEnd? (t : Text) : Option Nat :=
  (fromLastImport? t).map fun d =>
    let start := t.size - d.size
    if ';' ∈ d then start + size (d.takeWhile (· != ';')) + 1
    else start + size (dropReturn (firstLine d))

end Text

/-- The insertion that makes the text import the declaration; none if the text holds it already. -/
def importEdit? (t : Text) : Option Edit :=
  if Text.contains importDeclaration t then none
  else
    match t.lastImportEnd? with
    | some o => some ⟨o, o, t.terminator ++ importDeclaration⟩
    | none => some ⟨0, 0, importDeclaration ++ t.terminator⟩

/-- The edit that puts the lookup of a key in the place of a literal. -/
def Literal.replacement (l : Literal) (k : Key) : Edit := ⟨l.start, l.stop, lookupExpression k⟩

/-- The edits that externalize a literal under a key: the lookup first, then the import. -/
def Plan.externalizing (t : Text) (l : Literal) (k : Key) : Plan :=
  ⟨l.replacement k :: (importEdit? t).toList⟩

end Externalize
