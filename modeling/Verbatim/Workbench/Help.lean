/-! What the program says about itself. -/

namespace Verbatim.Help

def programName : String := "tugrewrite"

def version : String := programName ++ " 0.1.0\n"

inductive Topic where
  | program
  | run
  | print
  | visitors
  | help
  deriving DecidableEq, Repr

def unlines (rows : List String) : String := String.join (rows.map (· ++ "\n"))

def logLevelSummary : String :=
  "Log level for tracing output [default: warn] [possible values: trace, debug, info, warn, error]"

def program : String :=
  unlines
    ["Lossless source rewriting",
      "",
      "Usage: " ++ programName ++ " [OPTIONS] <COMMAND>",
      "",
      "Commands:",
      "  run       Run a recipe document over files and directories",
      "  print     Parse a file and print it back",
      "  visitors  List registered visitors",
      "  help      Print this message or the help of the given subcommand(s)",
      "",
      "Options:",
      "      --log-level <LOG_LEVEL>  " ++ logLevelSummary,
      "  -h, --help                   Print help",
      "  -V, --version                Print version"]

def runUsage : String :=
  "Usage: " ++ programName ++ " run [OPTIONS] --recipe <RECIPE> <PATHS>..."

def run : String :=
  unlines
    ["Run a recipe document over files and directories",
      "",
      runUsage,
      "",
      "Arguments:",
      "  <PATHS>...  Files and directories to rewrite",
      "",
      "Options:",
      "      --log-level <LOG_LEVEL>    " ++ logLevelSummary,
      "      --recipe <RECIPE>          Recipe document (TOML, or JSON with a `.json` extension)",
      "      --dry-run                  Report diffs without writing files",
      "      --timeout-ms <TIMEOUT_MS>  Time limit in milliseconds for the recipe over one file",
      "  -h, --help                     Print help (see more with '--help')"]

def runAtLength : String :=
  unlines
    ["Run a recipe document over files and directories.",
      "",
      "Directories are searched recursively for files a language front end recognizes. " ++
        "Exits with code 5 when any file failed; the other files are still rewritten.",
      "",
      runUsage,
      "",
      "Arguments:",
      "  <PATHS>...",
      "          Files and directories to rewrite",
      "",
      "Options:",
      "      --log-level <LOG_LEVEL>",
      "          Log level for tracing output",
      "          ",
      "          [default: warn]",
      "          [possible values: trace, debug, info, warn, error]",
      "",
      "      --recipe <RECIPE>",
      "          Recipe document (TOML, or JSON with a `.json` extension)",
      "",
      "      --dry-run",
      "          Report diffs without writing files",
      "",
      "      --timeout-ms <TIMEOUT_MS>",
      "          Time limit in milliseconds for the recipe over one file",
      "",
      "  -h, --help",
      "          Print help (see a summary with '-h')"]

def print : String :=
  unlines
    ["Parse a file and print it back",
      "",
      "Usage: " ++ programName ++ " print [OPTIONS] <PATH>",
      "",
      "Arguments:",
      "  <PATH>  File to parse",
      "",
      "Options:",
      "      --log-level <LOG_LEVEL>  " ++ logLevelSummary,
      "  -h, --help                   Print help"]

def visitors : String :=
  unlines
    ["List registered visitors",
      "",
      "Usage: " ++ programName ++ " visitors [OPTIONS]",
      "",
      "Options:",
      "      --log-level <LOG_LEVEL>  " ++ logLevelSummary,
      "  -h, --help                   Print help"]

def help : String :=
  unlines
    ["Print this message or the help of the given subcommand(s)",
      "",
      "Usage: " ++ programName ++ " help [COMMAND]...",
      "",
      "Arguments:",
      "  [COMMAND]...  Print help for the subcommand(s)"]

/-- Only about runs there is more to say at length. -/
def about (atLength : Bool) : Topic → String
  | .program => program
  | .run => if atLength then runAtLength else run
  | .print => print
  | .visitors => visitors
  | .help => help

end Verbatim.Help
