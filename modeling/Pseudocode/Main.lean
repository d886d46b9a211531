import Pseudocode.CommandLine.Session

/-!
The command itself: reads files and input as a run asks for them, prints, and saves. A run is pure,
so it starts afresh each time it has been told more, and only what it prints beyond the time before
is shown.
-/

namespace Pseudocode.CommandLine

/-- The number of a system error, which may be given negated. -/
def errorNumber (code : UInt32) : Nat := min code.toNat (Nat.pow 2 32 - code.toNat)

/-- The operating system's wording of a failure. -/
def reasonOf (e : IO.Error) : String :=
  match e with
  | .noFileOrDirectory .. => PathError.notFound.message
  | .inappropriateType _ code _ =>
    (if errorNumber code = 20 then PathError.notDirectory else .isDirectory).message
  | .invalidArgument _ code _ => if errorNumber code = 36 then PathError.nameTooLong.message else toString e
  | .permissionDenied .. => "Permission denied (os error 13)"
  | .userError _ => "stream did not contain valid UTF-8"
  | e => toString e

/-- Prints what a text has beyond its first `shown` characters. -/
def printBeyond (stream : IO.FS.Stream) (shown text : String) : IO Unit := do
  stream.putStr (String.ofList (text.toList.drop shown.length))
  stream.flush

/-- What has been learnt of the world. -/
structure Known where
  files : List (String × Option String) := []
  inputs : List String := []
  ended : Bool := false

/-- Answers a request. -/
def Known.learn (k : Known) (request : Request) : IO Known := do
  match request with
  | .file path =>
    let content ← try some <$> IO.FS.readFile path catch _ => pure none
    pure { k with files := (path, content) :: k.files }
  | .line =>
    let line ← (← IO.getStdin).getLine
    if line.isEmpty then pure { k with ended := true }
    else pure { k with inputs := k.inputs ++ [String.ofList (dropLineEnd line.toList)] }

/-- No key can be read, since the terminal gives its input by lines. -/
def Known.world (k : Known) : World := ⟨fun path => k.files.lookup path, k.inputs, k.ended, []⟩

/-- Numbers from zero to below one that look random: each is made of the upper bits of its place in the
stream, which is mixed with the seed. -/
def Draws.ofSeed (seed : UInt64) : Draws where
  number n :=
    let z := seed + 0x9E3779B97F4A7C15 * UInt64.ofNat (n + 1)
    let z := (z ^^^ (z >>> 30)) * 0xBF58476D1CE4E5B9
    let z := (z ^^^ (z >>> 27)) * 0x94D049BB133111EB
    Number.ofParts ⟨false, (z ^^^ (z >>> 31)).toNat / Nat.pow 2 11, -53⟩
  taken := 0

/-- Runs a program until it is short of nothing. `out` and `err` have been printed already. -/
partial def settle (options : Options) (source : String) (draws : Draws) (k : Known) (out err : String) :
    IO Session := do
  let s := Session.run options source draws k.world
  printBeyond (← IO.getStdout) out s.terminal.out
  printBeyond (← IO.getStderr) err s.terminal.err
  match s.terminal.needs with
  | none => pure s
  | some request => settle options source draws (← k.learn request) s.terminal.out s.terminal.err

/-- Writes a file; gives the reason if that fails. -/
def save (path content : String) : IO (Option String) := do
  try
    IO.FS.writeFile path content
    pure none
  catch e => pure (some (reasonOf e))

/-- Runs a program file. -/
def runFile (file : String) (options : Options) : IO UInt32 := do
  let stderr ← IO.getStderr
  match ← (IO.FS.readFile file).toBaseIO with
  | .error e =>
    stderr.putStr (failureText s!"cannot read {file}" (reasonOf e))
    pure 1
  | .ok source =>
    let draws := Draws.ofSeed (UInt64.ofNat (← IO.monoNanosNow))
    let s ← settle options source draws {} "" ""
    let report ← s.finish save
    printBeyond stderr s.terminal.err report.err
    pure (UInt32.ofNat report.exit)

end Pseudocode.CommandLine

open Pseudocode.CommandLine in
def main (args : List String) : IO UInt32 := do
  match Command.parse? args with
  | some (.run file options) => runFile file options
  | some .help =>
    (← IO.getStdout).putStr helpText
    pure 0
  | none =>
    (← IO.getStderr).putStrLn "error: these arguments cannot be used"
    pure 2
