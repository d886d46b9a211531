import Pseudocode.Arena
import Pseudocode.FileStore

/-!
What can go wrong while a program runs: a cause, the line it belongs to, and the wording of both.
-/

namespace Pseudocode

/-- A value, variable or callable of the wrong kind for its use. -/
inductive TypeError where
  | condition (construct : String) (got : ValueKind)
  | notNumber (what : String) (got : ValueKind)
  | fractionalIndex (index : Float)
  | notArray (name : String)
  | rank (name : String) (dimensions indices : Nat)
  | dereference (got : ValueKind)
  | dereferenceType (type : DataType)
  | notAssignable
  | fraction (name : String) (type : DataType) (value : Float)
  | misfit (name : String) (type : DataType) (got : ValueKind)
  | logical (op : BinaryOperator) (got : ValueKind)
  | operands (op : BinaryOperator) (left right : ValueKind)
  | fractionalOffset (offset : Float)
  | negation (got : ValueKind)
  | complement (got : ValueKind)
  | addressOfArray (name : String)
  | addressOfOther
  | free (got : ValueKind)
  | fileName (got : ValueKind)
  | constantArray (name : String)
  | functionCalled (name : String)
  | procedureUsed (name : String)
  | procedureReturned (name : String)
  | returned (name : String) (type : DataType) (got : ValueKind)
  | referenceArgument (param callable : String)
  | referenceType (param : String) (type : DataType) (name : String) (actual : DataType)
  | argument (got : ValueKind) (param : String) (type : DataType) (callable : String)
  | counter (name : String) (got : ValueKind)
  | builtinArgument (name : String) (position : Nat) (expected : String) (got : ValueKind)
deriving DecidableEq, Repr

def TypeError.message : TypeError → String
  | .condition construct got => s!"{construct} condition must be BOOLEAN, got a {got.name}"
  | .notNumber what got => s!"{what} must be a number, got a {got.name}"
  | .fractionalIndex index => s!"array index must be a whole number, got {Number.text index}"
  | .notArray name => s!"'{name}' is not an array"
  | .rank name dimensions indices =>
    s!"'{name}' has {dimensions} dimension(s) but {indices} index(es) were given"
  | .dereference got => s!"cannot dereference a {got.name}"
  | .dereferenceType type => s!"cannot dereference a {type.render}"
  | .notAssignable => "only variables, array elements and dereferenced pointers can be assigned"
  | .fraction name type value =>
    s!"cannot assign to '{name}' : {type.render}: {Number.text value} is not a whole number"
  | .misfit name type got => s!"cannot assign to '{name}' : {type.render}: a {got.name} does not fit"
  | .logical op got => s!"{op.symbol} needs BOOLEAN operands, got a {got.name}"
  | .operands op left right => s!"cannot apply '{op.symbol}' to {left.name} and {right.name}"
  | .fractionalOffset offset => s!"pointer offset must be a whole number, got {Number.text offset}"
  | .negation got => s!"cannot negate a {got.name}"
  | .complement got => s!"NOT needs a BOOLEAN operand, got a {got.name}"
  | .addressOfArray name => s!"cannot take the address of array '{name}'"
  | .addressOfOther => "'&' can only be applied to a variable"
  | .free got => s!"FREE needs a pointer, got a {got.name}"
  | .fileName got => s!"file name must be a STRING, got a {got.name}"
  | .constantArray name => s!"CONSTANT '{name}' cannot hold an array"
  | .functionCalled name => s!"'{name}' is a FUNCTION; use it in an expression instead of CALL"
  | .procedureUsed name => s!"'{name}' is a PROCEDURE and does not return a value; use CALL"
  | .procedureReturned name => s!"PROCEDURE '{name}' cannot return a value"
  | .returned name type got => s!"FUNCTION '{name}' RETURNS {type.render} but returned a {got.name}"
  | .referenceArgument param callable =>
    s!"BYREF parameter '{param}' of '{callable}' needs a variable argument"
  | .referenceType param type name actual =>
    s!"BYREF parameter '{param}' is {type.render} but '{name}' is {actual.render}"
  | .argument got param type callable =>
    s!"cannot pass a {got.name} as parameter '{param}' : {type.render} of '{callable}'"
  | .counter name got => s!"FOR variable '{name}' holds a {got.name}"
  | .builtinArgument name position expected got =>
    s!"{name} argument {position} must be a {expected}, got a {got.name}"

/-- What a built-in function cannot work with. -/
inductive BuiltinComplaint where
  | notWhole (position : Nat)
  | length (n : Int) (max : Nat)
  | start (n : Int) (size : Nat)
  | places (n : Int)
  | notNumeric (text : String)
  | notSingle (text : String)
  | notCode (n : Int)
  | upperBound (x : Float)
deriving DecidableEq, Repr

def BuiltinComplaint.message : BuiltinComplaint → String
  | .notWhole position => s!"argument {position} must be a whole number"
  | .length n max => s!"length {n} is outside 0..{max}"
  | .start n size => s!"start {n} is outside 1..{size}"
  | .places n => s!"cannot round to {n} places"
  | .notNumeric text => s!"'{text}' is not a number"
  | .notSingle text => s!"'{text}' is not a single character"
  | .notCode n => s!"{n} is not a character code"
  | .upperBound x => s!"upper bound {Number.text x} must be a positive number"

/-- A value of the right kind that still cannot be used. -/
inductive ArgumentError where
  | returnOutside
  | emptyBounds (name : String)
  | tooManyCells (name : String)
  | outsideAddressSpace (address : Nat) (offset : Float)
  | builtin (name : String) (complaint : BuiltinComplaint)
deriving DecidableEq, Repr

def ArgumentError.message : ArgumentError → String
  | .returnOutside => "RETURN outside of a PROCEDURE or FUNCTION"
  | .emptyBounds name => s!"array '{name}' needs non-empty bounds"
  | .tooManyCells name => s!"array '{name}' is larger than {maxCells} elements"
  | .outsideAddressSpace address offset =>
    s!"pointer arithmetic outside the address space ({addressText address} {Number.signedText offset})"
  | .builtin name complaint => s!"{name}: {complaint.message}"

/-- Why a run fails. -/
inductive Cause where
  | typeMismatch (error : TypeError)
  | divisionByZero (operation : String)
  | indexOutOfBounds (name : String) (fault : IndexFault)
  | uninitializedRead (name : String)
  | undefinedVariable (name : String)
  | undefinedCallable (name : String)
  | argumentCount (name : String) (expected got : Nat)
  | iterationLimit (limit : Nat)
  | recursionLimit (name : String) (limit : Nat)
  | memory (fault : MemoryFault)
  | constantAssignment (name : String)
  | zeroStep
  | illegalInFunction (statement : String)
  | file (error : FileError)
  | redeclaration (name : String)
  | invalidArgument (error : ArgumentError)
  | missingReturn (name : String)
  | invalidInput (name input : String) (expected : DataType)
  | alreadyRun
deriving DecidableEq, Repr

/-- A cause and its line; line zero stands for none. -/
structure RuntimeError where
  cause : Cause
  line : Nat
deriving DecidableEq, Repr

def RuntimeError.message (e : RuntimeError) : String :=
  match e.cause with
  | .typeMismatch error => s!"Type error at line {e.line}: {error.message}"
  | .divisionByZero operation => s!"{operation} by zero at line {e.line}"
  | .indexOutOfBounds name fault =>
    s!"Index {fault.index} out of bounds for '{name}' ({fault.bounds.render}) at line {e.line}"
  | .uninitializedRead name => s!"Variable '{name}' used before being assigned a value at line {e.line}"
  | .undefinedVariable name => s!"Undeclared identifier '{name}' at line {e.line}"
  | .undefinedCallable name => s!"Undefined procedure or function '{name}' at line {e.line}"
  | .argumentCount name expected got =>
    let plural := if expected = 1 then "" else "s"
    s!"'{name}' expects {expected} argument{plural}, got {got} at line {e.line}"
  | .iterationLimit limit => s!"Possible infinite loop: exceeded {limit} iterations at line {e.line}"
  | .recursionLimit name limit =>
    s!"Maximum recursion depth ({limit}) exceeded calling '{name}' at line {e.line}"
  | .memory fault => s!"Memory error at line {e.line}: {fault.message}"
  | .constantAssignment name => s!"Cannot assign to constant '{name}' at line {e.line}"
  | .zeroStep => s!"FOR loop STEP cannot be 0 at line {e.line}"
  | .illegalInFunction statement => s!"{statement} is not allowed inside a FUNCTION (line {e.line})"
  | .file error => s!"File error at line {e.line}: {error.message}"
  | .redeclaration name => s!"'{name}' is already declared in this scope at line {e.line}"
  | .invalidArgument error => s!"Invalid argument at line {e.line}: {error.message}"
  | .missingReturn name => s!"FUNCTION '{name}' ended without RETURN at line {e.line}"
  | .invalidInput name input expected =>
    s!"Input '{input}' is not a valid {expected.render} for '{name}' at line {e.line}"
  | .alreadyRun => "This interpreter has already run its program; create a new one to run again"

end Pseudocode
