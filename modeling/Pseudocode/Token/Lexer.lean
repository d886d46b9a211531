import Pseudocode.Number.Decimal
import Pseudocode.SyntaxError
import Pseudocode.Text

/-!
Splitting a program text into tokens. A token is read as a lexeme: the characters it was written
with, its kind and its text. Lexemes and the blanks between them make up the source, so a token's
place is found by walking over the characters before it.
-/

namespace Pseudocode

/-- A token as written. -/
structure Lexeme where
  raw : List Char
  kind : TokenKind
  text : String
deriving DecidableEq, Repr

namespace Lexeme

/-- Characters that separate tokens without being one. The line feed is a token. -/
def isGap (c : Char) : Bool := c == ' ' || c == '\t' || c == '\r' || c == '\ufeff'

def startsWord (c : Char) : Bool := c.isAlpha || c == '_'

def continuesWord (c : Char) : Bool := c.isAlphanum || c == '_'

/-- A lexeme whose text is what was written. -/
def symbol (kind : TokenKind) (raw : List Char) : Lexeme := ⟨raw, kind, String.ofList raw⟩

def word (raw : List Char) : Lexeme :=
  let text := String.ofList raw
  ⟨raw, if isKeyword text then .keyword else .identifier, text⟩

/-- A quoted text ends at the same quote on the same line, and knows no escapes. One character
between single quotes is a character literal. -/
def quoted (quote : Char) (cs : List Char) : Except Complaint (Lexeme × List Char) :=
  let inside := fun c => c != quote && c != '\n'
  let body := cs.takeWhile inside
  match cs.dropWhile inside with
  | [] => throw .unterminatedString
  | c :: rest =>
    if c = quote then
      let kind := if quote = '\'' ∧ body.length = 1 then .char else .string
      pure (⟨quote :: body ++ [quote], kind, String.ofList body⟩, rest)
    else throw .unterminatedString

/-- Hexadecimal digits behind the mark `0x`, which must fit 64 bits. -/
def hexadecimal (mark : List Char) (cs : List Char) : Except Complaint (Lexeme × List Char) :=
  let digits := cs.takeWhile Char.isAlphanum
  let refused := Complaint.malformedHex (String.ofList digits)
  match Text.readHex digits with
  | none => throw refused
  | some n =>
    if n < Nat.pow 2 64 then
      pure (⟨mark ++ digits, .number (Float.ofNat n), "0x" ++ String.ofList digits⟩,
        cs.dropWhile Char.isAlphanum)
    else throw refused

/-- The digits behind a decimal point, when the point is followed by a digit. -/
def fraction : List Char → List Char
  | '.' :: c :: rest => if c.isDigit then (c :: rest).takeWhile Char.isDigit else []
  | _ => []

def decimal (cs : List Char) : Lexeme × List Char :=
  let whole := cs.takeWhile Char.isDigit
  let behind := cs.dropWhile Char.isDigit
  match fraction behind with
  | [] => (symbol (.number (Number.ofDigits whole 0)) whole, behind)
  | digits =>
    let value := Number.ofDigits (whole ++ digits) (-(digits.length : Int))
    (symbol (.number value) (whole ++ '.' :: digits), behind.drop (digits.length + 1))

def number : List Char → Except Complaint (Lexeme × List Char)
  | '0' :: 'x' :: rest => hexadecimal ['0', 'x'] rest
  | '0' :: 'X' :: rest => hexadecimal ['0', 'X'] rest
  | cs => pure (decimal cs)

/-- A comment runs to the end of its line; its text is trimmed. -/
def comment (cs : List Char) : Lexeme × List Char :=
  let body := cs.takeWhile (· != '\n')
  (⟨'/' :: '/' :: body, .comment, String.ofList (Text.trimChars body)⟩, cs.dropWhile (· != '\n'))

/-- Operators and punctuation, the longest spelling first. -/
def punctuation : List Char → Option (Lexeme × List Char)
  | '\n' :: rest => some (symbol .newline ['\n'], rest)
  | '←' :: rest => some (symbol .assign ['←'], rest)
  | '/' :: '/' :: rest => some (comment rest)
  | '<' :: '-' :: '-' :: rest => some (symbol .assign ['<', '-', '-'], rest)
  | '<' :: '=' :: rest => some (symbol .operator ['<', '='], rest)
  | '<' :: '>' :: rest => some (symbol .operator ['<', '>'], rest)
  | '>' :: '=' :: rest => some (symbol .operator ['>', '='], rest)
  | ',' :: rest => some (symbol .comma [','], rest)
  | ':' :: rest => some (symbol .colon [':'], rest)
  | '(' :: rest => some (symbol .leftParen ['('], rest)
  | ')' :: rest => some (symbol .rightParen [')'], rest)
  | '[' :: rest => some (symbol .leftBracket ['['], rest)
  | ']' :: rest => some (symbol .rightBracket [']'], rest)
  | c :: rest =>
    if c ∈ ['<', '>', '+', '-', '*', '/', '=', '&', '^'] then some (symbol .operator [c], rest) else none
  | [] => none

/-- The lexeme at the front of a text that starts with `c`, and what follows it. -/
def read (c : Char) (rest : List Char) : Except Complaint (Lexeme × List Char) :=
  if c = '"' ∨ c = '\'' then quoted c rest
  else if c.isDigit then number (c :: rest)
  else if startsWord c then
    pure (word (c :: rest.takeWhile continuesWord), rest.dropWhile continuesWord)
  else
    match punctuation (c :: rest) with
    | some found => pure found
    | none => throw (.unexpectedCharacter c)

end Lexeme

/-- The tokens of a text that starts at a place. `n` bounds the characters left: when none is left,
the tokens end. -/
def tokensFrom : Nat → Location → List Char → Except SyntaxError (List Token)
  | 0, place, _ => pure [⟨.endOfInput, "", place⟩]
  | n + 1, place, cs =>
    let here := place.after (cs.takeWhile Lexeme.isGap)
    match cs.dropWhile Lexeme.isGap with
    | [] => pure [⟨.endOfInput, "", here⟩]
    | c :: rest =>
      match Lexeme.read c rest with
      | .error complaint => throw ⟨complaint, here⟩
      | .ok (lexeme, behind) => do
        let tokens ← tokensFrom n (here.after lexeme.raw) behind
        pure (⟨lexeme.kind, lexeme.text, here⟩ :: tokens)

/-- All tokens of a text, comments included, ending with the end of input. -/
def tokenize (source : String) : Except SyntaxError (List Token) :=
  tokensFrom (source.length + 1) .start source.toList

end Pseudocode
