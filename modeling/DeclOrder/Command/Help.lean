/-!
# Help texts

What the program says about its commands and their options when it is asked.
-/

namespace DeclOrder.Help

/-- The lines, each followed by a line feed. -/
def text (lines : List String) : String := String.join (lines.map (· ++ "\n"))

/-- The program as a whole. -/
def overview : String := text [
  "Reorders generated model declarations so every type is declared after its dependencies.",
  "",
  "Usage: declfix [OPTIONS] <COMMAND>",
  "",
  "Commands:",
  "  fix         Rewrite generated model files in place (or preview with --dry-run)",
  "  check       Exit 2 if any file would be rewritten; prints the pending patch",
  "  strategies  List available reordering strategies",
  "  help        Print this message or the help of the given subcommand(s)",
  "",
  "Options:",
  "  -v, --verbose  Log at debug level unless RUST_LOG says otherwise",
  "  -h, --help     Print help",
  "  -V, --version  Print version"]

/-- The options that choose modules and how to process them. -/
def selectionLines : List String := [
  "      --root <ROOT>              Directory holding the generated files and optional " ++
    "declfix.toml [default: .]",
  "  -v, --verbose                  Log at debug level unless RUST_LOG says otherwise",
  "      --stem <STEMS>             File stem to process (repeatable). Extends [files].stems",
  "      --pattern <PATTERN>        Glob relative to the root (default: *.py)",
  "      --strategy <STRATEGY>      Reordering strategy key (see `declfix strategies`)",
  "      --max-passes <MAX_PASSES>  Repair pass cap for the window strategy",
  "      --no-version-constraint    Leave the version field annotation untouched",
  "      --out-dir <OUT_DIR>        Write report.json, report.md and patch.diff here"]

/-- The last option of every command. -/
def helpLine : String := "  -h, --help                     Print help"

/-- The command `fix`. -/
def fix : String := text <|
  ["Rewrite generated model files in place (or preview with --dry-run)", "",
    "Usage: declfix fix [OPTIONS]", "", "Options:"] ++ selectionLines ++
  ["      --dry-run                  Print the patch instead of writing files", helpLine]

/-- The command `check`. -/
def check : String := text <|
  ["Exit 2 if any file would be rewritten; prints the pending patch", "",
    "Usage: declfix check [OPTIONS]", "", "Options:"] ++ selectionLines ++ [helpLine]

/-- The command `strategies`. -/
def strategies : String := text [
  "List available reordering strategies",
  "",
  "Usage: declfix strategies [OPTIONS]",
  "",
  "Options:",
  "      --format <FORMAT>  Output format (text, json) [default: text] " ++
    "[possible values: text, json]",
  "  -v, --verbose          Log at debug level unless RUST_LOG says otherwise",
  "  -h, --help             Print help"]

/-- The command `help`. -/
def help : String := text [
  "Print this message or the help of the given subcommand(s)",
  "",
  "Usage: declfix help [COMMAND]...",
  "",
  "Arguments:",
  "  [COMMAND]...  Print help for the subcommand(s)"]

/-- The text on the command of a name. -/
def topic? (name : String) : Option String :=
  [("help", help), ("fix", fix), ("check", check), ("strategies", strategies)].lookup name

end DeclOrder.Help
