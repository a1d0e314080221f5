import LS8.Command

/-!
# Help

The texts that explain the command line.
-/

namespace LS8

/-- The version of the program. -/
def versionText : String := "ls8 0.3.0"

namespace Topic

def subcommands : List String :=
  ["Commands:",
   "  run     Load and execute a program",
   "  disasm  Disassemble a program without running it",
   "  help    Print this message or the help of the given subcommand(s)"]

/-- The lines of the help on a topic. -/
def lines : Topic → List String
  | .program =>
    ["LS-8 interpreter", "", "Usage: ls8 <COMMAND>", ""] ++ subcommands ++
    ["",
     "Options:",
     "  -h, --help     Print help (see more with '--help')",
     "  -V, --version  Print version"]
  | .programAtLength =>
    ["Run or disassemble an LS-8 program.",
     "",
     "Programs are text files with one 8-bit binary literal per line; `#` starts a comment.",
     "",
     "Examples:",
     "  ls8 run programs/mult.ls8",
     "  ls8 run programs/call.ls8 --trace --max-steps 1000",
     "  ls8 disasm programs/stack.ls8",
     "",
     "Usage: ls8 <COMMAND>",
     ""] ++ subcommands ++
    ["",
     "Options:",
     "  -h, --help",
     "          Print help (see a summary with '-h')",
     "",
     "  -V, --version",
     "          Print version"]
  | .run =>
    ["Load and execute a program",
     "",
     "Usage: ls8 run [OPTIONS] <FILE>",
     "",
     "Arguments:",
     "  <FILE>  Program source file",
     "",
     "Options:",
     "  -c, --config <CONFIG>          JSON configuration file; command-line flags override it",
     "      --trace                    Log a trace line before every instruction",
     "      --max-steps <MAX_STEPS>    Stop with an error if the program has not halted after "
       ++ "this many steps",
     "      --on-unknown <ON_UNKNOWN>  What to do when an undefined opcode is fetched "
       ++ "[possible values: halt, skip]",
     "      --stats                    Print execution statistics as JSON to stderr after the run",
     "  -h, --help                     Print help"]
  | .disasm =>
    ["Disassemble a program without running it",
     "",
     "Usage: ls8 disasm <FILE>",
     "",
     "Arguments:",
     "  <FILE>  Program source file",
     "",
     "Options:",
     "  -h, --help  Print help"]
  | .help =>
    ["Print this message or the help of the given subcommand(s)",
     "",
     "Usage: ls8 help [COMMAND]...",
     "",
     "Arguments:",
     "  [COMMAND]...  Print help for the subcommand(s)"]

end Topic

end LS8
