/-!
Tokens of a program text, where they stand, and how messages name them.
-/

namespace Pseudocode

/-- A place in a text. Lines and columns count from one, and a column is one character; zero stands
for no place at all. -/
structure Location where
  line : Nat
  column : Nat
deriving DecidableEq, Repr, Inhabited

namespace Location

def start : Location := ⟨1, 1⟩

def none : Location := ⟨0, 0⟩

/-- The place behind a character that stands here. -/
def past (l : Location) (c : Char) : Location :=
  if c = '\n' then ⟨l.line + 1, 1⟩ else ⟨l.line, l.column + 1⟩

/-- The place behind a run of characters that starts here. -/
def after (l : Location) (cs : List Char) : Location := cs.foldl past l

end Location

inductive TokenKind where
  | keyword
  | identifier
  | number (value : Float)
  | string
  | char
  | operator
  | assign
  | comma
  | colon
  | leftParen
  | rightParen
  | leftBracket
  | rightBracket
  | newline
  | comment
  | endOfInput
deriving DecidableEq, Repr

structure Token where
  kind : TokenKind
  text : String
  location : Location
deriving DecidableEq, Repr

/-- The reserved words. They are written in capitals, and no identifier is spelled like one. -/
def keywords : List String :=
  ["DECLARE", "CONSTANT", "INTEGER", "REAL", "STRING", "CHAR", "BOOLEAN", "ARRAY", "OF", "POINTER", "TO",
   "OUTPUT", "INPUT", "IF", "THEN", "ELSE", "ENDIF", "WHILE", "DO", "ENDWHILE", "REPEAT", "UNTIL",
   "FOR", "STEP", "NEXT", "CASE", "OTHERWISE", "ENDCASE", "PROCEDURE", "ENDPROCEDURE", "FUNCTION", "RETURNS",
   "ENDFUNCTION", "RETURN", "CALL", "BYVAL", "BYREF", "AND", "OR", "NOT", "DIV", "MOD", "TRUE", "FALSE",
   "OPENFILE", "READ", "WRITE", "APPEND", "READFILE", "WRITEFILE", "CLOSEFILE", "EOF", "MALLOC", "FREE",
   "SIZE_OF", "NULL"]

def isKeyword (word : String) : Bool := keywords.contains word

namespace Token

/-- How messages name a token. -/
def describe (t : Token) : String :=
  match t.kind with
  | .keyword => s!"'{t.text}'"
  | .identifier => s!"identifier '{t.text}'"
  | .number _ => s!"number {t.text}"
  | .string => s!"string literal \"{t.text}\""
  | .char => s!"char literal '{t.text}'"
  | .operator => s!"'{t.text}'"
  | .assign => "'←'"
  | .comma => "','"
  | .colon => "':'"
  | .leftParen => "'('"
  | .rightParen => "')'"
  | .leftBracket => "'['"
  | .rightBracket => "']'"
  | .newline => "end of line"
  | .comment => "comment"
  | .endOfInput => "end of input"

def isKeyword (t : Token) (word : String) : Bool := t.kind = .keyword && t.text == word

def isOperator (t : Token) (symbol : String) : Bool := t.kind = .operator && t.text == symbol

def isNumber (t : Token) : Bool :=
  match t.kind with
  | .number _ => true
  | _ => false

end Token

end Pseudocode
