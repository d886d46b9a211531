import Pseudocode.Host

/-!
The help text of the command: one line for each argument, with the explanations in one column.
-/

namespace Pseudocode.CommandLine

def defaultNote (n : Nat) : String := s!"[default: {n}]"

/-- The options as they are written, and what is said of each. -/
def optionHelp : List (String × String) :=
  let start : Config := {}
  [("    --debug", "Pause before each statement (any key steps, q stops)"),
   ("    --echo-files", "Echo WRITEFILE lines to the output"),
   ("    --max-iterations <N>", defaultNote start.maxIterations),
   ("    --max-depth <N>", defaultNote start.maxDepth),
   ("    --arena-size <N>", defaultNote start.arenaSize),
   ("    --trace", "Print the operation trace after the run"),
   ("    --dump <START> <LEN>",
    "Hex dump of the arena after the run (START may be 0x-prefixed)"),
   ("    --files-dir <DIR>", "Directory for files opened FOR READ and written FOR WRITE/APPEND"),
   ("-h, --help", "Print help")]

/-- How wide the written options are together. -/
def optionWidth : Nat := (optionHelp.map (·.1.length)).foldl max 0

def helpLines : List String :=
  ["Run Cambridge-style pseudocode with a simulated memory arena",
   "",
   "Usage: pseudomem [OPTIONS] <FILE>",
   "",
   "Arguments:",
   "  <FILE>  Program source file",
   "",
   "Options:"]
    ++ optionHelp.map fun (written, said) => s!"  {Text.padRight optionWidth written}  {said}"

def helpText : String := String.join (helpLines.map (· ++ "\n"))

end Pseudocode.CommandLine
