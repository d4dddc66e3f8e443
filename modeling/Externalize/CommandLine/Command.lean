import Externalize.CommandLine.Selection
import Externalize.CommandLine.Target
import Externalize.Files.Path
import Externalize.Trigger

/-
The commands, and why arguments are none.

* `Command`: what the program can be asked to do.
* `Parameter`, `Flag`: what can be given to an extraction.
* `ArgumentError`: what the arguments are instead of a command.
-/
namespace Externalize

/-- What an extraction is asked to do. -/
structure ExtractRequest where
  file : Path
  target : Target
  /-- A localization directory in place of the configured one. -/
  directory : Option Text
  /-- A default locale in place of the configured one. -/
  locale : Option Text
  /-- A trigger in place of the configured one. -/
  trigger : Option Trigger
  /-- Shows what would be done and changes nothing. -/
  dryRun : Bool
  /-- Leaves the hook out. -/
  noHook : Bool
  verbose : Bool
deriving DecidableEq

/-- What the program can be asked to do. -/
inductive Command where
  /-- Moves a literal into the resource documents. -/
  | extract (request : ExtractRequest)
  /-- Shows the key that the words make. -/
  | key (words : List Text)
  /-- Writes a configuration file. -/
  | init
deriving DecidableEq

/-- Whether a command asks for all records. -/
def Command.isVerbose : Command → Bool
  | extract r => r.verbose
  | key _ => false
  | init => false

/-- The names of the commands. -/
inductive CommandName where
  | extract
  | key
  | init
  | help
deriving DecidableEq

/-- The word for a command. -/
def CommandName.word : CommandName → String
  | extract => "extract"
  | key => "key"
  | init => "init"
  | help => "help"

/-- The command with this name. -/
def CommandName.ofText? (t : Text) : Option CommandName :=
  [extract, key, init, help].find? fun n => n.word.toList = t

/-- What takes a value in an extraction. -/
inductive Parameter where
  | file
  | offset
  | line
  | column
  | selection
  | directory
  | locale
  | trigger
deriving DecidableEq

namespace Parameter

/-- The parameters that are given as options, with their names. -/
def options : List (String × Parameter) :=
  [("offset", offset), ("line", line), ("column", column), ("selection", selection),
    ("l10n-dir", directory), ("default-locale", locale), ("mode", trigger)]

/-- The option with this name. -/
def ofName? (t : Text) : Option Parameter :=
  (options.find? fun (n, _) => n.toList = t).map (·.2)

/-- A parameter as messages show it. -/
def label : Parameter → String
  | file => "<FILE>"
  | offset => "--offset <OFFSET>"
  | line => "--line <LINE>"
  | column => "--column <COLUMN>"
  | selection => "--selection <SELECTION>"
  | directory => "--l10n-dir <L10N_DIR>"
  | locale => "--default-locale <DEFAULT_LOCALE>"
  | trigger => "--mode <MODE>"

end Parameter

/-- What takes no value. -/
inductive Flag where
  | dryRun
  | noHook
  | verbose
  | help
deriving DecidableEq

namespace Flag

/-- The names of the flags. -/
def names : List (String × Flag) :=
  [("dry-run", dryRun), ("no-hook", noHook), ("verbose", verbose), ("help", help)]

/-- The flag with this name. -/
def ofName? (t : Text) : Option Flag := (names.find? fun (n, _) => n.toList = t).map (·.2)

/-- The flag with this letter. -/
def ofLetter? (c : Char) : Option Flag :=
  if c = 'v' then some verbose else if c = 'h' then some help else none

end Flag

/-- Why the value of a parameter cannot be read. -/
inductive ValueFault where
  | number (f : NumberFault)
  | selection (f : SelectionFault)
deriving DecidableEq

/-- The message of a fault. -/
def ValueFault.message : ValueFault → String
  | number f => f.message
  | selection f => f.message

/-- What the arguments are instead of a command. -/
inductive ArgumentError where
  /-- They ask for help. -/
  | help
  /-- They ask for the version. -/
  | version
  /-- The first word is no command. -/
  | unknownCommand
  | unknownArgument
  /-- A flag has a value. -/
  | unneededValue
  /-- Two arguments exclude each other, or one is given twice. -/
  | conflict
  /-- Something that is needed is not given. -/
  | missingArgument
  /-- The value is missing, or it is none of those allowed. -/
  | invalidValue (p : Parameter)
  | malformed (p : Parameter) (f : ValueFault)
deriving DecidableEq

/-- The name of the program and its version. -/
def versionLine : String := "arbify 0.1.0"

end Externalize
