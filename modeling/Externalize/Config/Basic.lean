import Externalize.Json.Printer
import Externalize.Resource.Store
import Externalize.Trigger

/-
The configuration of a project.

* `Config`: the settings, with a default for each.
* `Config.problem?`: the first setting that makes no sense.
* `Config.store`: the store of a project.
* `Config.text`: the configuration as its file has it.
-/
namespace Externalize

/-- The settings of a project. -/
structure Config where
  /-- The localization directory, from the root of the project. -/
  directory : Text
  locale : Text
  stem : Text
  resourceExtension : Text
  sourceExtensions : List Text
  trigger : Trigger
  runHook : Bool
deriving DecidableEq

/-- The settings by name. -/
inductive ConfigField where
  | directory
  | locale
  | stem
  | resourceExtension
  | sourceExtensions
  | trigger
  | runHook
deriving DecidableEq

namespace ConfigField

/-- The settings in the order of the file. -/
def all : List ConfigField :=
  [directory, locale, stem, resourceExtension, sourceExtensions, trigger, runHook]

/-- The name of a setting in the file. -/
def name : ConfigField → String
  | directory => "l10nDir"
  | locale => "defaultLocale"
  | stem => "filePrefix"
  | resourceExtension => "resourceExtension"
  | sourceExtensions => "sourceExtensions"
  | trigger => "triggerMode"
  | runHook => "runHook"

end ConfigField

/-- What is wrong with a configuration. -/
inductive ConfigProblem where
  /-- An extension is empty or holds a dot or a slash. -/
  | extension (field : ConfigField) (value : Text)
  | noSourceExtension
  | blank (field : ConfigField)
deriving DecidableEq

/-- The message of a problem. -/
def ConfigProblem.message : ConfigProblem → String
  | extension field value =>
    s!"Invalid extension in '{field.name}': \"{String.ofList value}\" " ++
      "(use a bare extension like \"arb\")"
  | noSourceExtension =>
    s!"'{ConfigField.sourceExtensions.name}' must list at least one extension"
  | blank field => s!"'{field.name}' must not be empty"

namespace Config

/-- The name of the configuration file. -/
def fileName : Path := .ofString ".arbifyrc.json"

/-- The settings of a project without a file. -/
def default : Config where
  directory := "lib/l10n".toList
  locale := "en".toList
  stem := "app".toList
  resourceExtension := "arb".toList
  sourceExtensions := ["dart".toList]
  trigger := .caret
  runHook := true

/-- What is wrong with an extension: it has to be bare. -/
def extensionProblem? (field : ConfigField) (e : Text) : Option ConfigProblem :=
  if e.isEmpty || e.any (fun c => c == '.' || c == '/' || c == '\\') then some (.extension field e)
  else none

/-- What is wrong with a setting that must not be blank. -/
def blankProblem? (field : ConfigField) (t : Text) : Option ConfigProblem :=
  if t.all isBlank then some (.blank field) else none

/-- The first problem of a configuration. -/
def problem? (c : Config) : Option ConfigProblem :=
  extensionProblem? .resourceExtension c.resourceExtension <|>
    (if c.sourceExtensions.isEmpty then some .noSourceExtension else none) <|>
    c.sourceExtensions.findSome? (extensionProblem? .sourceExtensions) <|>
    blankProblem? .locale c.locale <|>
    blankProblem? .stem c.stem <|>
    blankProblem? .directory c.directory

/-- The store of the project at a root. -/
def store (c : Config) (root : Path) : Store :=
  .of (root.join ⟨c.directory⟩) c.resourceExtension c.stem c.locale

/-- The value of a setting. -/
def value (c : Config) : ConfigField → Json.Value
  | .directory => .string c.directory
  | .locale => .string c.locale
  | .stem => .string c.stem
  | .resourceExtension => .string c.resourceExtension
  | .sourceExtensions => .array (c.sourceExtensions.map .string)
  | .trigger => .string c.trigger.word.toList
  | .runHook => .bool c.runHook

/-- The configuration as its file has it. -/
def text (c : Config) : Text :=
  (Json.Value.object (ConfigField.all.map fun f => (f.name.toList, c.value f))).render

end Config

end Externalize
