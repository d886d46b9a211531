import Pseudocode.Token

/-!
What can be wrong with a program text, and the wording of it.
-/

namespace Pseudocode

/-- What is nested too deeply. -/
inductive Nesting where
  | expression
  | block
deriving DecidableEq, Repr

/-- How deep expressions, and likewise blocks, may be nested. -/
def maxNesting : Nat := 100

/-- The cause of a syntax error. `found` is the description of the token in the way. -/
inductive Complaint where
  | unterminatedString
  | unexpectedCharacter (c : Char)
  | malformedHex (digits : String)
  | expected (what found : String)
  | tooDeep (what : Nesting)
  | chainedComparison
  | notAssignable
  | keywordAtStart (word : String)
  | tokenAtStart (found : String)
  | wrongNext (closing opening : String)
  | boundNotLiteral (found : String)
  | arrayOfArrays
  | nestedDefinition (keyword : String)
  | duplicateParameter (name : String)
deriving DecidableEq, Repr

def Complaint.message : Complaint → String
  | .unterminatedString => "Unterminated string literal"
  | .unexpectedCharacter c => s!"Unexpected character: '{c}'"
  | .malformedHex digits => s!"Malformed hexadecimal literal: 0x{digits}"
  | .expected what found => s!"Expected {what}, found {found}"
  | .tooDeep .expression => s!"Expression is nested more than {maxNesting} levels deep"
  | .tooDeep .block => s!"Blocks are nested more than {maxNesting} levels deep"
  | .chainedComparison => "Comparison operators cannot be chained; combine comparisons with AND/OR"
  | .notAssignable => "Expected a variable, array element, or dereferenced pointer"
  | .keywordAtStart word => s!"Unexpected '{word}' at start of statement"
  | .tokenAtStart found => s!"Unexpected {found} at start of statement"
  | .wrongNext closing opening => s!"NEXT {closing} does not match FOR loop variable '{opening}'"
  | .boundNotLiteral found => s!"Array bounds must be literal integers, found {found}"
  | .arrayOfArrays => "Array element type cannot itself be an array; use multiple dimensions"
  | .nestedDefinition keyword => s!"{keyword} definitions are only allowed at the top level"
  | .duplicateParameter name => s!"Duplicate parameter '{name}'"

structure SyntaxError where
  complaint : Complaint
  location : Location
deriving DecidableEq, Repr

def SyntaxError.message (e : SyntaxError) : String :=
  s!"Syntax error at line {e.location.line}, column {e.location.column}: {e.complaint.message}"

end Pseudocode
