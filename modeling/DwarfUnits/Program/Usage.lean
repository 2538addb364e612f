import DwarfUnits.Program.Report

/-! What the program says of itself, and its answer to a command line. -/
namespace DwarfUnits.Program

def name : String := "dwarfsrc"

def versionText : String := name ++ " 0.0.0\n"

def usageLine : String := "Usage: " ++ name ++ " [OPTIONS] <FILE>"

def helpHead : List String :=
  ["List the source files recorded in a binary's DWARF debug information",
    "",
    usageLine,
    ""]

/-- Help with one line for each option. -/
def shortHelp : String :=
  unlines (helpHead ++ [
    "Arguments:",
    "  <FILE>  ELF or Mach-O file to read",
    "",
    "Options:",
    "      --format <FORMAT>        Report format [default: text] [possible values: text, json]",
    "      --strict                 Stop on a line table whose header length is inconsistent",
    "      --log-level <LOG_LEVEL>  Log level (error, warn, info, debug, trace); overrides RUST_LOG",
    "  -h, --help                   Print help (see more with '--help')",
    "  -V, --version                Print version"])

/-- Help with a paragraph for each option. Inside a paragraph an empty line is indented too. -/
def longHelp : String :=
  unlines (helpHead ++ [
    "Arguments:",
    "  <FILE>",
    "          ELF or Mach-O file to read",
    "",
    "Options:",
    "      --format <FORMAT>",
    "          Report format",
    "          ",
    "          [default: text]",
    "",
    "          Possible values:",
    "          - text: Nested key/value text",
    "          - json: A single JSON document",
    "",
    "      --strict",
    "          Stop on a line table whose header length is inconsistent",
    "",
    "      --log-level <LOG_LEVEL>",
    "          Log level (error, warn, info, debug, trace); overrides RUST_LOG",
    "",
    "  -h, --help",
    "          Print help (see a summary with '-h')",
    "",
    "  -V, --version",
    "          Print version"])

/-- A command line that cannot be understood. -/
def Results.misuse : Results :=
  { Results.message 2 "" with
    usage := some (unlines [usageLine, "", "For more information, try '--help'."]) }

/-- The answer to a request, given the way to run on a file. -/
def Request.answer {m : Type → Type} [Monad m] (runOn : Arguments → m Results) :
    Request → m Results
  | .run arguments => runOn arguments
  | .help isLong => return Results.message 0 (if isLong then longHelp else shortHelp)
  | .version => return Results.message 0 versionText
  | .misuse => return Results.misuse

end DwarfUnits.Program
