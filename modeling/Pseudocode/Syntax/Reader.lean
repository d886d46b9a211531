import Pseudocode.SyntaxError

/-!
Reading trees off an input of tokens. The rules stand over any input that has a current token and can go
on to the next (`Cursor`). The plainest is a list: a reader knows where the input ends, sees the tokens that
are left, and either takes some of them from the front or fails at a place.
-/

namespace Pseudocode

/-- The tokens before the end of input, and the place of that end. -/
structure TokenStream where
  tokens : List Token
  finish : Location
deriving DecidableEq, Repr

/-- Comments are dropped and reading stops at the first end of input. A list without one ends where
its last token stands. -/
def TokenStream.ofTokens (ts : List Token) : TokenStream :=
  let ts := ts.filter (·.kind != .comment)
  let tokens := ts.takeWhile (·.kind != .endOfInput)
  let stop := ts.dropWhile (·.kind != .endOfInput)
  { tokens
    finish :=
      match stop.head?.or ts.getLast? with
      | some t => t.location
      | none => .none }

/-- What the rules of the grammar ask of an input. -/
class Cursor (m : Type → Type) where
  /-- The current token, unless the input has ended. -/
  peek : m (Option Token)
  /-- Where the input ends, once it has ended. -/
  finish : m Location
  advance : m Unit
  skipNewlines : m Unit
  /-- How many tokens are left, ends of lines apart. -/
  left : m Nat
  /-- Goes on where a loop has come to its bound, so that nothing but ends of lines can be left. -/
  exhausted {α : Type} : m α → m α
  failAt {α : Type} (location : Location) (complaint : Complaint) : m α

namespace Reader

export Cursor (peek finish advance skipNewlines left exhausted failAt)

variable {m : Type → Type} [Monad m] [Cursor m] {α : Type}

/-- The place of the current token. -/
def place : m Location := do
  match ← peek with
  | some t => pure t.location
  | none => finish

/-- How messages name the current token. -/
def found : m String := do
  match ← peek with
  | some t => pure t.describe
  | none => pure "end of input"

def fail (complaint : Complaint) : m α := do failAt (← place) complaint

/-- Fails because something else should stand here. -/
def expected (what : String) : m α := do fail (.expected what (← found))

def atEnd : m Bool := return (← peek).isNone

/-- Whether the current token is of a sort. -/
def check (sort : Token → Bool) : m Bool := return (← peek).any sort

/-- Takes the current token if it is of a sort. -/
def accept (sort : Token → Bool) : m Bool := do
  if ← check sort then
    advance
    pure true
  else pure false

def isKind (kind : TokenKind) (t : Token) : Bool := t.kind == kind

/-- How many of the tokens are no ends of lines. -/
def count (ts : List Token) : Nat := ts.countP (!isKind .newline ·)

def acceptKeyword (word : String) : m Bool := accept (·.isKeyword word)

def acceptOperator (symbol : String) : m Bool := accept (·.isOperator symbol)

/-- Takes a token of a kind, which must stand here. -/
def expectKind (kind : TokenKind) (what : String) : m Unit := do
  unless ← accept (isKind kind) do expected what

def expectKeyword (word context : String) : m Unit := do
  unless ← acceptKeyword word do expected s!"'{word}' {context}"

def expectIdentifier : m String := do
  match ← peek with
  | some t =>
    if t.kind = .identifier then
      advance
      pure t.text
    else expected "identifier"
  | none => expected "identifier"

/-- A statement ends with its line or with the input. -/
def endOfStatement : m Unit := do
  unless ← atEnd do expectKind .newline "end of line"

/-- Items behind commas, after the first ones. `n` bounds the tokens left: when none is left, the
list ends. -/
def moreItems (item : m α) : Nat → List α → m (List α)
  | 0, items => exhausted (pure items)
  | n + 1, items => do
    if ← accept (isKind .comma) then
      moreItems item n (items ++ [← item])
    else pure items

/-- One or more items with commas between them. -/
def commaList (item : m α) : m (List α) := do
  let first ← item
  moreItems item (← left) [first]

end Reader

/-- The environment is the place where the input ends, the state the tokens left. -/
abbrev Reader := ReaderT Location (StateT (List Token) (Except SyntaxError))

instance : Cursor Reader where
  peek := return (← get).head?
  finish := read
  advance := modify List.tail
  skipNewlines := modify (·.dropWhile (Reader.isKind .newline))
  left := return Reader.count (← get)
  exhausted next := next
  failAt location complaint := throw ⟨complaint, location⟩

end Pseudocode
