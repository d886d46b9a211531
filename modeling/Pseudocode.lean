import Pseudocode.Main
import Pseudocode.Proofs.Arena.Bump
import Pseudocode.Proofs.Arena.Dumping
import Pseudocode.Proofs.Arena.Freeing
import Pseudocode.Proofs.Attribution.Endings
import Pseudocode.Proofs.Attribution.Runs
import Pseudocode.Proofs.Builtins.Slicing
import Pseudocode.Proofs.Comparison.ArenaSize
import Pseudocode.Proofs.Comparison.Budgets
import Pseudocode.Proofs.Comparison.Placement
import Pseudocode.Proofs.Comparison.Switches
import Pseudocode.Proofs.Constants.Runs
import Pseudocode.Proofs.Counting
import Pseudocode.Proofs.Files.Automaton
import Pseudocode.Proofs.Files.Confinement
import Pseudocode.Proofs.Files.Reloading
import Pseudocode.Proofs.Files.Rereading
import Pseudocode.Proofs.Grammar.Display
import Pseudocode.Proofs.Grammar.Programs
import Pseudocode.Proofs.Isolation.Runs
import Pseudocode.Proofs.Layout.BlankLines
import Pseudocode.Proofs.Layout.LineEnds
import Pseudocode.Proofs.Memory.Offsets
import Pseudocode.Proofs.Memory.Sizes
import Pseudocode.Proofs.Outside.Modes
import Pseudocode.Proofs.Reading.Totality
import Pseudocode.Proofs.Scoping.Visibility
import Pseudocode.Proofs.Stack.Runs
import Pseudocode.Proofs.Stopping.Runs
import Pseudocode.Proofs.Trace.Pointers
import Pseudocode.Syntax.Outline
