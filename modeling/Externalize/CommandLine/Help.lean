import Externalize.CommandLine.Command

/-
What the program says of its command line.

* `helpText`: the commands and their options.
* `ArgumentError.message`: why arguments are refused.
-/
namespace Externalize

/-- The commands and their options. -/
def helpText : String :=
  "Extract string literals from Flutter sources into ARB localization files\n\n" ++
  "Usage: arbify [COMMAND]\n\n" ++
  "Commands:\n" ++
  "  extract  Replace the string literal at a position with a localization lookup\n" ++
  "  key      Print the resource key that would be derived from some text\n" ++
  "  init     Initialize a new .arbifyrc.json configuration file\n" ++
  "  help     Print this message\n\n" ++
  "Options of extract, before or after the file:\n" ++
  "  --offset <OFFSET>                  Caret position as a byte offset into the file\n" ++
  "  --line <LINE>                      Caret line (1-based)\n" ++
  "  --column <COLUMN>                  Caret column in characters (1-based)\n" ++
  "  --selection <SELECTION>            Selected byte range, as START..END\n" ++
  "  --l10n-dir <L10N_DIR>              Localization directory, from the project root\n" ++
  "  --default-locale <DEFAULT_LOCALE>  Locale of the resource file created when none exist\n" ++
  "  --mode <MODE>                      How the literal is pointed at: caret or selection\n" ++
  "  --dry-run                          Show what would change without writing anything\n" ++
  "  --no-hook                          Skip the hook after updating the resource files\n" ++
  "  -v, --verbose                      Enable verbose output\n\n" ++
  "Options:\n" ++
  "  -h, --help     Print help\n" ++
  "  -V, --version  Print version\n"

/-- Why arguments are refused, or what they ask for. -/
def ArgumentError.message : ArgumentError → String
  | help => helpText
  | version => versionLine ++ "\n"
  | unknownCommand => "error: unrecognized subcommand\n"
  | unknownArgument => "error: unexpected argument\n"
  | unneededValue => "error: a flag takes no value\n"
  | conflict => "error: arguments cannot be used together, or more than once\n"
  | missingArgument => "error: a required argument was not provided\n"
  | invalidValue p => s!"error: invalid value for '{p.label}'\n"
  | malformed p f => s!"error: invalid value for '{p.label}': {f.message}\n"

/-- Whether the arguments ask for something that can be shown. -/
def ArgumentError.isRequest : ArgumentError → Bool
  | help | version => true
  | _ => false

end Externalize
