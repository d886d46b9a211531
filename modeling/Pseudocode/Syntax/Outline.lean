import Pseudocode.Number.Decimal
import Pseudocode.Syntax
import Pseudocode.Text

/-!
Outlines: one line of nested brackets per node, with the node's place behind its head. A missing
part is a dash.
-/

namespace Pseudocode

/-- Parts in round brackets. -/
def group (parts : List String) : String := "(" ++ String.intercalate " " parts ++ ")"

/-- Parts in square brackets. -/
def sequence (parts : List String) : String := "[" ++ String.intercalate " " parts ++ "]"

def optional : Option String → String
  | some part => part
  | none => "-"

def Location.outline (l : Location) : String := s!"@{l.line}:{l.column}"

def DataType.outline (t : DataType) : String := Text.quoted t.render

def Literal.outline : Literal → String
  | .number x => group ["num", Number.text x]
  | .string s => group ["str", Text.quoted s]
  | .char c => group ["char", Text.quoted (String.singleton c)]
  | .boolean b => group ["bool", if b then "true" else "false"]
  | .null => group ["null"]

def UnaryOperator.head : UnaryOperator → String
  | .negate => "neg"
  | .not => "not"

mutual

def Expr.outline : Expr → String
  | .literal value l => group ["lit", l.outline, value.outline]
  | .identifier name l => group ["id", l.outline, name]
  | .element name indices l => group ["index", l.outline, name, sequence (outlines indices)]
  | .binary op left right l => group [op.symbol, l.outline, left.outline, right.outline]
  | .unary op operand l => group [op.head, l.outline, operand.outline]
  | .call name args l => group ["callfn", l.outline, name, sequence (outlines args)]
  | .addressOf operand l => group ["addr", l.outline, operand.outline]
  | .dereference operand l => group ["deref", l.outline, operand.outline]
  | .allocate size tag l => group ["malloc", l.outline, size.outline, optional (tag.map DataType.outline)]
  | .sizeOf type l => group ["sizeof", l.outline, type.outline]
  | .endOfFile file l => group ["eof", l.outline, file.outline]

def Expr.outlines : List Expr → List String
  | [] => []
  | e :: rest => e.outline :: outlines rest

end

def Param.outline (p : Param) : String := group [p.mode.keyword, p.name, p.type.outline]

def CaseLabel.outline : CaseLabel → String
  | .value literal => group ["value", literal.outline]
  | .range low high => group ["range", low.outline, high.outline]

mutual

def Stmt.outline : Stmt → String
  | .declare name type l => group ["declare", l.outline, name, type.outline]
  | .constant name value l => group ["constant", l.outline, name, value.outline]
  | .assign target value l => group ["assign", l.outline, target.outline, value.outline]
  | .output items l => group ["output", l.outline, sequence (items.map Expr.outline)]
  | .input target l => group ["input", l.outline, target.outline]
  | .ifThen condition thenBranch elseBranch l =>
    group ["if", l.outline, condition.outline, sequence (outlines thenBranch), outlineElse elseBranch]
  | .whileDo condition body l => group ["while", l.outline, condition.outline, sequence (outlines body)]
  | .repeatUntil body condition l => group ["repeat", l.outline, sequence (outlines body), condition.outline]
  | .forTo counter start stop step body l =>
    group ["for", l.outline, counter, start.outline, stop.outline, optional (step.map Expr.outline),
      sequence (outlines body)]
  | .caseOf subject branches otherwise l =>
    group ["case", l.outline, subject.outline, sequence (outlineBranches branches), outlineElse otherwise]
  | .define ⟨name, params, returns, body, l⟩ =>
    group [if returns.isSome then "function" else "procedure", l.outline, name,
      sequence (params.map Param.outline), optional (returns.map DataType.outline), sequence (outlines body)]
  | .call name args l => group ["call", l.outline, name, sequence (args.map Expr.outline)]
  | .giveBack value l => group ["return", l.outline, optional (value.map Expr.outline)]
  | .openFile file mode l => group ["openfile", l.outline, file.outline, mode.keyword]
  | .readFile file target l => group ["readfile", l.outline, file.outline, target.outline]
  | .writeFile file value l => group ["writefile", l.outline, file.outline, value.outline]
  | .closeFile file l => group ["closefile", l.outline, file.outline]
  | .free pointer l => group ["free", l.outline, pointer.outline]

def Stmt.outlines : List Stmt → List String
  | [] => []
  | s :: rest => s.outline :: outlines rest

def Stmt.outlineElse : Option (List Stmt) → String
  | none => "-"
  | some body => sequence (outlines body)

def Stmt.outlineBranches : List (CaseBranch Stmt) → List String
  | [] => []
  | ⟨label, body, l⟩ :: rest =>
    group ["branch", l.outline, label.outline, sequence (outlines body)] :: outlineBranches rest

end

/-- One outline per statement. -/
def Program.outline (p : Program) : List String := p.statements.map Stmt.outline

end Pseudocode
