import Externalize.CommandLine.Argument
import Externalize.CommandLine.Command

/-
Reading the arguments of a command line.

The arguments of an extraction first become uses of its parameters and flags; the uses are then
made in turn. A value that is an argument of its own is looked at when the next use is made, so an
unknown argument right after it counts first.

* `Use.ofTexts`: the uses.
* `Draft.use`: what the uses add up to.
* `Command.ofArguments`: the command, none if no argument asks for one.
-/
namespace Externalize

/-! ### Uses -/

/-- A use of a parameter or a flag. -/
inductive Use where
  /-- A parameter and its value, if there is one; `attached` if it stands in the same argument. -/
  | assign (p : Parameter) (value : Option Text) (attached : Bool)
  | flag (f : Flag)
  /-- What cannot be used; nothing after it counts. -/
  | refused (e : ArgumentError)
deriving DecidableEq

namespace Use

/-- The uses of flags of one letter. -/
def ofLetters : Text → List Use
  | [] => []
  | c :: r =>
    match Flag.ofLetter? c with
    | some f => flag f :: ofLetters r
    | none => [refused .unknownArgument]

/-- The use of a word: the first one is the file. -/
def ofWord (fileSeen : Bool) (t : Text) : Use :=
  if fileSeen then refused .unknownArgument else assign .file (some t) false

/-- The uses of arguments that are all words. -/
def ofWords : (fileSeen : Bool) → List Text → List Use
  | _, [] => []
  | fileSeen, t :: ts => ofWord fileSeen t :: ofWords true ts

/-- Whether an argument can be the value of the option before it. -/
def isValue (t : Text) : Bool := Argument.ofText t = .word t

/-- The uses that arguments stand for; `waiting` is the option that waits for its value. -/
def ofTexts : (waiting : Option Parameter) → (fileSeen : Bool) → List Text → List Use
  | none, _, [] => []
  | some p, _, [] => [assign p none false]
  | some p, fileSeen, t :: ts =>
    if isValue t then assign p (some t) false :: ofTexts none fileSeen ts
    else assign p none false :: ofArgument fileSeen t ts
  | none, fileSeen, t :: ts => ofArgument fileSeen t ts
where
  /-- The uses of an argument that is no value, and of those after it. -/
  ofArgument (fileSeen : Bool) (t : Text) (ts : List Text) : List Use :=
    match Argument.ofText t with
    | .escape => ofWords fileSeen ts
    | .word w => ofWord fileSeen w :: ofTexts none true ts
    | .short letters => ofLetters letters ++ ofTexts none fileSeen ts
    | .long name value =>
      match Parameter.ofName? name, Flag.ofName? name, value with
      | some p, _, some v => assign p (some v) true :: ofTexts none fileSeen ts
      | some p, _, none => ofTexts (some p) fileSeen ts
      | none, some f, none => flag f :: ofTexts none fileSeen ts
      | none, some _, some _ => [refused .unneededValue]
      | none, none, _ => [refused .unknownArgument]

end Use

/-! ### What the uses add up to -/

/-- What is given of an extraction. -/
structure Draft where
  file : Option Path := none
  target : Target := ⟨none, none, none, none⟩
  directory : Option Text := none
  locale : Option Text := none
  trigger : Option Trigger := none
  flags : List Flag := []
deriving DecidableEq

namespace Draft

/-- Whether a parameter has its value. -/
def has (d : Draft) : Parameter → Bool
  | .file => d.file.isSome
  | .offset => d.target.offset.isSome
  | .line => d.target.line.isSome
  | .column => d.target.column.isSome
  | .selection => d.target.selection.isSome
  | .directory => d.directory.isSome
  | .locale => d.locale.isSome
  | .trigger => d.trigger.isSome

/-- The number that is the value of a parameter. -/
def number (p : Parameter) (t : Text) : Except ArgumentError Nat :=
  match Word64.ofText t with
  | .ok n => .ok n
  | .error f => .error (.malformed p (.number f))

/-- The path that is the value of a parameter. -/
def nonempty (p : Parameter) (t : Text) : Except ArgumentError Text :=
  if t.isEmpty then .error (.invalidValue p) else .ok t

/-- Gives a parameter its value. -/
def put (d : Draft) (p : Parameter) (t : Text) : Except ArgumentError Draft :=
  match p with
  | .file => (nonempty p t).map fun t => { d with file := some ⟨t⟩ }
  | .offset => (number p t).map fun n => { d with target := { d.target with offset := some n } }
  | .line => (number p t).map fun n => { d with target := { d.target with line := some n } }
  | .column => (number p t).map fun n => { d with target := { d.target with column := some n } }
  | .selection =>
    match Selection.ofText t with
    | .ok r => .ok { d with target := { d.target with selection := some r } }
    | .error f => .error (.malformed p (.selection f))
  | .directory => (nonempty p t).map fun t => { d with directory := some t }
  | .locale => .ok { d with locale := some t }
  | .trigger =>
    match Trigger.ofWord? t with
    | some m => .ok { d with trigger := some m }
    | none => .error (.invalidValue p)

/-- Uses a parameter. It needs a value, and it may have only one. -/
def assign (d : Draft) (p : Parameter) : Option Text → Except ArgumentError Draft
  | none => .error (.invalidValue p)
  | some t => if d.has p then .error .conflict else d.put p t

/-- Uses a flag, which can be used once. -/
def raise (d : Draft) (f : Flag) : Except ArgumentError Draft :=
  if f = .help then .error .help
  else if f ∈ d.flags then .error .conflict
  else .ok { d with flags := f :: d.flags }

/-- Makes uses in turn. -/
def use (d : Draft) : List Use → Except ArgumentError Draft
  | [] => .ok d
  | .refused e :: _ => .error e
  | .assign _ _ false :: .refused e :: _ => .error e
  | .assign p t _ :: us =>
    match d.assign p t with
    | .ok d => use d us
    | .error e => .error e
  | .flag f :: us =>
    match d.raise f with
    | .ok d => use d us
    | .error e => .error e

/-- Whether two ways to name the place are mixed. -/
def isMixed (g : Target) : Bool :=
  g.offset.isSome && (g.line.isSome || g.column.isSome || g.selection.isSome) ||
    g.selection.isSome && (g.line.isSome || g.column.isSome)

/-- The request, if nothing is missing: a line needs a column, and a column needs a line. -/
def request (d : Draft) : Except ArgumentError ExtractRequest :=
  if isMixed d.target then .error .conflict
  else
    match d.file with
    | none => .error .missingArgument
    | some file =>
      if d.target.line.isSome = d.target.column.isSome then
        .ok {
          file, target := d.target, directory := d.directory, locale := d.locale
          trigger := d.trigger
          dryRun := decide (.dryRun ∈ d.flags)
          noHook := decide (.noHook ∈ d.flags)
          verbose := decide (.verbose ∈ d.flags) }
      else .error .missingArgument

end Draft

/-- The request for an extraction. -/
def ExtractRequest.ofArguments (ts : List Text) : Except ArgumentError ExtractRequest :=
  match Draft.use {} (Use.ofTexts none false ts) with
  | .ok d => d.request
  | .error e => .error e

/-! ### Commands -/

/-- What an option stands for where help is the only one. -/
def ArgumentError.ofOption : Argument → ArgumentError
  | .long name value =>
    if Flag.ofName? name = some .help then
      if value.isSome then unneededValue else help
    else unknownArgument
  | .short (c :: _) => if Flag.ofLetter? c = some .help then help else unknownArgument
  | _ => unknownArgument

/-- The words of arguments that are words only. -/
def wordsOf : List Text → Except ArgumentError (List Text)
  | [] => .ok []
  | t :: ts =>
    match Argument.ofText t with
    | .escape => .ok ts
    | .word w => (wordsOf ts).map (w :: ·)
    | option => .error (.ofOption option)

/-- What the arguments after the name of a command ask for. -/
def Command.ofName (n : CommandName) (ts : List Text) : Except ArgumentError Command :=
  match n with
  | .extract => (ExtractRequest.ofArguments ts).map extract
  | .key =>
    match wordsOf ts with
    | .error e => .error e
    | .ok [] => .error .missingArgument
    | .ok ws => .ok (key ws)
  | .init =>
    match ts with
    | [] => .ok init
    | t :: ts =>
      match Argument.ofText t, ts with
      | .escape, [] => .ok init
      | a, _ => .error (.ofOption a)
  | .help =>
    match ts with
    | [] => .error .help
    | [t] => .error (if (CommandName.ofText? t).isSome then .help else .unknownCommand)
    | _ => .error .unknownCommand

/-- What an option before any command stands for. -/
def ArgumentError.ofLeadingOption : Argument → ArgumentError
  | .long name value =>
    if name = "version".toList then
      if value.isSome then unneededValue else version
    else ofOption (.long name value)
  | .short ('V' :: _) => version
  | a => ofOption a

/-- What the arguments ask for; none if there are none, or only the mark that ends the options. -/
def Command.ofArguments : List Text → Except ArgumentError (Option Command)
  | [] => .ok none
  | t :: ts =>
    match Argument.ofText t, ts with
    | .escape, [] => .ok none
    | .escape, t :: _ =>
      .error (if (CommandName.ofText? t).isSome then .unknownArgument else .unknownCommand)
    | .word w, ts =>
      match CommandName.ofText? w with
      | some n => (Command.ofName n ts).map some
      | none => .error .unknownCommand
    | option, _ => .error (.ofLeadingOption option)

end Externalize
