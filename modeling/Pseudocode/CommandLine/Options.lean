import Pseudocode.Host

/-!
The arguments of the command line: one program file, switches, and settings with one or two values.
Each option may be given once, ranges to dump apart, and a double dash ends the options. Arguments
behind a request for help are not read.
-/

namespace Pseudocode.CommandLine

structure Options where
  config : Config
  trace : Bool
  dump : Option (Nat × Nat)
  filesDir : Option String
deriving DecidableEq, Repr

/-- What a command line asks for. -/
inductive Command where
  | run (file : String) (options : Options)
  | help
deriving DecidableEq, Repr

inductive Switch where
  | debug
  | echoFiles
  | trace
deriving DecidableEq, Repr

inductive Setting where
  | maxIterations
  | maxDepth
  | arenaSize
  | filesDir
deriving DecidableEq, Repr

/-- An argument, with the values that belong to it. -/
inductive Argument where
  | positional (text : String)
  | switch (s : Switch)
  | setting (s : Setting) (value : String)
  | dump (start length : String)
  | help
deriving DecidableEq, Repr

def switch? : String → Option Switch
  | "debug" => some .debug
  | "echo-files" => some .echoFiles
  | "trace" => some .trace
  | _ => none

def setting? : String → Option Setting
  | "max-iterations" => some .maxIterations
  | "max-depth" => some .maxDepth
  | "arena-size" => some .arenaSize
  | "files-dir" => some .filesDir
  | _ => none

/-- Whether an argument can stand for itself: it starts with no dash, or is just one. -/
def isPlain (arg : String) : Bool :=
  match arg.toList with
  | ['-'] => true
  | '-' :: _ => false
  | _ => true

/-- The name of an option that starts with two dashes, and the value behind its equals sign. -/
def longOption? (arg : String) : Option (String × Option String) :=
  match arg.toList with
  | '-' :: '-' :: rest =>
    let name := String.ofList (rest.takeWhile (· != '='))
    match rest.dropWhile (· != '=') with
    | _ :: value => some (name, some (String.ofList value))
    | [] => some (name, none)
  | _ => none

/-- Help is asked for by name, or by a letter whatever stands behind it. -/
def asksHelp (arg : String) : Bool :=
  match arg.toList with
  | '-' :: 'h' :: _ => true
  | _ => arg == "--help"

/-- Reads the arguments one by one, up to a request for help; none if one is unknown or lacks a
value. -/
def arguments? : List String → Option (List Argument)
  | [] => some []
  | arg :: rest =>
    if arg == "--" then some (rest.map .positional)
    else if isPlain arg then (arguments? rest).map (.positional arg :: ·)
    else if asksHelp arg then some [.help]
    else
      match longOption? arg with
      | none => none
      | some (name, attached) =>
        match switch? name, setting? name, attached with
        | some s, _, none => (arguments? rest).map (.switch s :: ·)
        | _, some s, some value => (arguments? rest).map (.setting s value :: ·)
        | _, some s, none =>
          match rest with
          | value :: rest => if isPlain value then (arguments? rest).map (.setting s value :: ·) else none
          | [] => none
        | _, _, _ =>
          if name == "dump" && attached.isNone then
            match rest with
            | start :: length :: rest =>
              if isPlain start && isPlain length then
                (arguments? rest).map (.dump start length :: ·)
              else none
            | _ => none
          else none

/-- The value of a non-empty run of decimal digits. -/
def digits? : List Char → Option Nat
  | [] => none
  | cs => if cs.all Char.isDigit then some (cs.foldl (fun n c => 10 * n + (c.toNat - '0'.toNat)) 0) else none

/-- A number without the plus sign it may start with. -/
def dropPlus : List Char → List Char
  | '+' :: cs => cs
  | cs => cs

/-- A number that is a 64-bit word. -/
def word? (n : Option Nat) : Option Nat := n.filter (· ≤ wordMax)

def decimal? (s : String) : Option Nat := word? (digits? (dropPlus s.toList))

/-- A number in decimal or, behind `0x`, in hexadecimal digits. -/
def number? (s : String) : Option Nat :=
  match s.toList with
  | '0' :: 'x' :: cs => word? (Text.readHex (dropPlus cs))
  | '0' :: 'X' :: cs => word? (Text.readHex (dropPlus cs))
  | _ => decimal? s

/-- At most one of some things. -/
def atMostOne : List α → Option (Option α)
  | [] => some none
  | [a] => some (some a)
  | _ => none

namespace Argument

def positional? : Argument → Option String
  | .positional s => some s
  | _ => none

def isSwitch (s : Switch) (a : Argument) : Bool := a = .switch s

def value? (s : Setting) : Argument → Option String
  | .setting t value => if t = s then some value else none
  | _ => none

def dump? : Argument → Option (String × String)
  | .dump start length => some (start, length)
  | _ => none

end Argument

/-- Whether a switch is given, which may be done once. -/
def switched? (args : List Argument) (s : Switch) : Option Bool :=
  (atMostOne (args.filter (·.isSwitch s))).map Option.isSome

/-- The value of a setting, which may be given once. -/
def setting (args : List Argument) (s : Setting) : Option (Option String) :=
  atMostOne (args.filterMap (·.value? s))

/-- The number that a setting gives, or else a default. -/
def numberOr (args : List Argument) (s : Setting) (default : Nat) : Option Nat := do
  match ← setting args s with
  | some text => decimal? text
  | none => pure default

/-- A text that is not empty, if there is one at all. -/
def filled? : Option String → Option (Option String)
  | some "" => none
  | other => some other

/-- The only member of a list. -/
def only? : List α → Option α
  | [a] => some a
  | _ => none

/-- The range to dump. More than one may be given, and then none is dumped. -/
def dumpRange (args : List Argument) : Option (Option (Nat × Nat)) := do
  let ranges ← (args.filterMap (·.dump?)).mapM fun (first, length) => do
    pure (← number? first, ← number? length)
  pure (only? ranges)

/-- Reads the options among the arguments; none if one cannot be used. -/
def Options.ofArguments? (args : List Argument) : Option Options := do
  let start : Config := {}
  let debug ← switched? args .debug
  let echo ← switched? args .echoFiles
  let trace ← switched? args .trace
  let maxIterations ← numberOr args .maxIterations start.maxIterations
  let maxDepth ← numberOr args .maxDepth start.maxDepth
  let arenaSize ← numberOr args .arenaSize start.arenaSize
  let filesDir ← filled? (← setting args .filesDir)
  let dump ← dumpRange args
  pure ⟨{ start with arenaSize, maxIterations, maxDepth, debug, echo }, trace, dump, filesDir⟩

/-- Reads a whole command line; none if it cannot be used. Only help needs no program file. -/
def Command.parse? (args : List String) : Option Command := do
  let args ← arguments? args
  let file ← filled? (← atMostOne (args.filterMap (·.positional?)))
  let options ← Options.ofArguments? args
  if .help ∈ args then pure .help else file.map (.run · options)

end Pseudocode.CommandLine
