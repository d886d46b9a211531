import Pseudocode.Proofs.Grammar.Spelling
import Pseudocode.Syntax.Reader.Stmt

/-!
How statements are written, line by line (`Line`, `Lines`). For the expressions, types and targets in them any
tokens will do that are read as such. THEN, DO, the colon behind OTHERWISE, the name behind NEXT, parentheses
without parameters and passing modes that do not change may be left out. Every statement stands where its first
token stands; apart from such places, a program is written by the tokens of `Program.Rendered`.
-/

namespace Pseudocode

/-- The tokens that a reader takes for `a`, when nothing follows. -/
def Shows {α : Type} (r : Reader α) (a : α) (ts : List Token) : Prop := ∃ finish, r finish ts = .ok (a, [])

/-- What a statement can store to. -/
def Expr.IsTarget : Expr → Prop
  | .identifier .. | .element .. | .dereference .. => True
  | _ => False

/-- Lines without a statement. -/
def Blank (ts : List Token) : Prop := ∀ t ∈ ts, t.kind = .newline

/-- A token that may be left out. -/
inductive Optional (sort : Token → Prop) : List Token → Prop
  | absent : Optional sort []
  | present {t : Token} : sort t → Optional sort [t]

/-- A word that introduces an expression, which may be left out with it. -/
inductive Clause (word : String) : Option Expr → List Token → Prop
  | absent : Clause word none []
  | present {e : Expr} {ts : List Token} (l : Location) :
    Shows Reader.expression e ts → Clause word (some e) (⟨.keyword, word, l⟩ :: ts)

/-- Items in parentheses. These may be left out if there are none. -/
inductive Enclosed {α : Type} (Item : List α → List Token → Prop) : List α → List Token → Prop
  | absent : Enclosed Item [] []
  | none (opening closing : String) (l r : Location) :
    Enclosed Item [] [⟨.leftParen, opening, l⟩, ⟨.rightParen, closing, r⟩]
  | some {as : List α} {ts : List Token} (opening closing : String) (l r : Location) :
    Item as ts → Enclosed Item as (⟨.leftParen, opening, l⟩ :: ts ++ [⟨.rightParen, closing, r⟩])

section Parameters

/-- A parameter behind others. It states its mode unless that is the mode `before`. -/
inductive Param.Spelled (before : PassMode) : Param → List Token → Prop
  | stated {p : Param} {ts : List Token} (colon : String) (l a b : Location) :
    Shows Reader.type p.type ts →
      Param.Spelled before p
        (⟨.keyword, p.mode.keyword, l⟩ :: ⟨.identifier, p.name, a⟩ :: ⟨.colon, colon, b⟩ :: ts)
  | unstated {p : Param} {ts : List Token} (colon : String) (a b : Location) :
    p.mode = before → Shows Reader.type p.type ts →
      Param.Spelled before p (⟨.identifier, p.name, a⟩ :: ⟨.colon, colon, b⟩ :: ts)

inductive Params : PassMode → List Param → List Token → Prop
  | one {before : PassMode} {p : Param} {ts : List Token} : p.Spelled before ts → Params before [p] ts
  | more {before : PassMode} {p : Param} {ps : List Param} {ts us : List Token} (comma : String) (l : Location) :
    p.Spelled before ts → Params p.mode ps us → Params before (p :: ps) (ts ++ ⟨.comma, comma, l⟩ :: us)

/-- What a function returns. -/
inductive Returns : Option DataType → List Token → Prop
  | none : Returns none []
  | some {type : DataType} {ts : List Token} (l : Location) :
    Shows Reader.type type ts → Returns (some type) (⟨.keyword, "RETURNS", l⟩ :: ts)

def Definition.opening (d : Definition Stmt) : String := if d.isFunction then "FUNCTION" else "PROCEDURE"

def Definition.closing (d : Definition Stmt) : String := if d.isFunction then "ENDFUNCTION" else "ENDPROCEDURE"

end Parameters

section Labels

/-- A literal of a label, which starts at the given place. -/
inductive Literal.Labels : Literal → Location → List Token → Prop
  | plain {v : Literal} {kind : TokenKind} {text : String} (l : Location) :
    v ≠ .null → v.Spelled kind text → Literal.Labels v l [⟨kind, text, l⟩]
  | negated (n : Float) (text : String) (sign l : Location) :
    Literal.Labels (.number (-n)) sign [⟨.operator, "-", sign⟩, ⟨.number n, text, l⟩]

inductive CaseLabel.Spelled : CaseLabel → Location → List Token → Prop
  | value {v : Literal} {l : Location} {ts : List Token} : v.Labels l ts → CaseLabel.Spelled (.value v) l ts
  | range {low high : Literal} {l r : Location} {ts us : List Token} (middle : Location) :
    low.Labels l ts → high.Labels r us →
      CaseLabel.Spelled (.range low high) l (ts ++ ⟨.keyword, "TO", middle⟩ :: us)

end Labels

/-- A statement of one line, without the end of the line. -/
inductive Stmt.Spelled : Stmt → List Token → Prop
  | constant {value : Expr} {t : Token} {ts : List Token} (name : String) (l a : Location) :
    t.isOperator "=" = true ∨ t.kind = .assign → Shows Reader.expression value ts →
      Spelled (.constant name value l) (⟨.keyword, "CONSTANT", l⟩ :: ⟨.identifier, name, a⟩ :: t :: ts)
  -- A target could also be read from tokens in parentheses, but no statement starts with one.
  | assign {target value : Expr} {t : Token} {ts us : List Token} (arrow : String) (a : Location) :
    target.IsTarget → Shows (Reader.unary Reader.outermost) target (t :: ts) →
      t.kind = .identifier ∨ t.isOperator "*" = true → Shows Reader.expression value us →
        Spelled (.assign target value t.location) (t :: ts ++ ⟨.assign, arrow, a⟩ :: us)
  | output {items : List Expr} {ts : List Token} (l : Location) :
    Separated (Shows Reader.expression) items ts → Spelled (.output items l) (⟨.keyword, "OUTPUT", l⟩ :: ts)
  | input {target : Expr} {ts : List Token} (l : Location) :
    target.IsTarget → Shows (Reader.unary Reader.outermost) target ts →
      Spelled (.input target l) (⟨.keyword, "INPUT", l⟩ :: ts)
  | call {args : List Expr} {ts : List Token} (name : String) (l a : Location) :
    Enclosed (Separated (Shows Reader.expression)) args ts →
      Spelled (.call name args l) (⟨.keyword, "CALL", l⟩ :: ⟨.identifier, name, a⟩ :: ts)
  | giveBack {value : Option Expr} {ts : List Token} (l : Location) :
    (value = none ∧ ts = [] ∨ ∃ e, value = some e ∧ Shows Reader.expression e ts) →
      Spelled (.giveBack value l) (⟨.keyword, "RETURN", l⟩ :: ts)
  | openFile {file : Expr} {ts : List Token} (mode : FileMode) (l a b : Location) :
    Shows Reader.expression file ts →
      Spelled (.openFile file mode l)
        (⟨.keyword, "OPENFILE", l⟩ :: ts ++ [⟨.keyword, "FOR", a⟩, ⟨.keyword, mode.keyword, b⟩])
  | readFile {file target : Expr} {ts us : List Token} (comma : String) (l a : Location) :
    Shows Reader.expression file ts → target.IsTarget → Shows (Reader.unary Reader.outermost) target us →
      Spelled (.readFile file target l) (⟨.keyword, "READFILE", l⟩ :: ts ++ ⟨.comma, comma, a⟩ :: us)
  | writeFile {file value : Expr} {ts us : List Token} (comma : String) (l a : Location) :
    Shows Reader.expression file ts → Shows Reader.expression value us →
      Spelled (.writeFile file value l) (⟨.keyword, "WRITEFILE", l⟩ :: ts ++ ⟨.comma, comma, a⟩ :: us)
  | closeFile {file : Expr} {ts : List Token} (l : Location) :
    Shows Reader.expression file ts → Spelled (.closeFile file l) (⟨.keyword, "CLOSEFILE", l⟩ :: ts)
  | free {pointer : Expr} {ts : List Token} (l : Location) :
    Shows Reader.expression pointer ts → Spelled (.free pointer l) (⟨.keyword, "FREE", l⟩ :: ts)

/-- What stands between a condition and the statements that depend on it. -/
inductive Then : List Token → Prop
  | word {gap : List Token} (l : Location) : Blank gap → Then (gap ++ [⟨.keyword, "THEN", l⟩])
  | line (text : String) (l : Location) : Then [⟨.newline, text, l⟩]

mutual

/-- What stands on a line, which for a statement with blocks is several lines, without the end of the last. A
declaration of several names is several statements, and definitions stand at the top only. -/
inductive Line : Reader.Level → List Stmt → List Token → Prop
  | one {level : Reader.Level} {s : Stmt} {ts : List Token} : s.Spelled ts → Line level [s] ts
  | declare {level : Reader.Level} {names : List String} {type : DataType} {ns ts : List Token} (colon : String)
      (l a : Location) :
    Separated (fun name ns => ∃ b, ns = [⟨.identifier, name, b⟩]) names ns → Shows Reader.type type ts →
      Line level (names.map (.declare · type l)) (⟨.keyword, "DECLARE", l⟩ :: ns ++ ⟨.colon, colon, a⟩ :: ts)
  | define {d : Definition Stmt} {ps rs us : List Token} (text : String) (a b c : Location) :
    Enclosed (Params .byValue) d.params ps → (d.params.map (·.name)).Nodup → Returns d.returns rs →
      Lines .inside d.body us →
        Line .top [.define d]
          (⟨.keyword, d.opening, d.location⟩ :: ⟨.identifier, d.name, a⟩ :: ps ++ rs ++
            ⟨.newline, text, b⟩ :: us ++ [⟨.keyword, d.closing, c⟩])
  | ifThen {level : Reader.Level} {condition : Expr} {body : List Stmt} {other : Option (List Stmt)}
      {cs os us vs : List Token} (l a : Location) :
    Shows Reader.expression condition cs → Then os → Lines .inside body us → Else other vs →
      Line level [.ifThen condition body other l]
        (⟨.keyword, "IF", l⟩ :: cs ++ os ++ us ++ vs ++ [⟨.keyword, "ENDIF", a⟩])
  | whileDo {level : Reader.Level} {condition : Expr} {body : List Stmt} {cs ds us : List Token} (text : String)
      (l a b : Location) :
    Shows Reader.expression condition cs → Optional (·.isKeyword "DO" = true) ds → Lines .inside body us →
      Line level [.whileDo condition body l]
        (⟨.keyword, "WHILE", l⟩ :: cs ++ ds ++ ⟨.newline, text, a⟩ :: us ++ [⟨.keyword, "ENDWHILE", b⟩])
  | repeatUntil {level : Reader.Level} {condition : Expr} {body : List Stmt} {us cs : List Token} (text : String)
      (l a b : Location) :
    Lines .inside body us → Shows Reader.expression condition cs →
      Line level [.repeatUntil body condition l]
        (⟨.keyword, "REPEAT", l⟩ :: ⟨.newline, text, a⟩ :: us ++ ⟨.keyword, "UNTIL", b⟩ :: cs)
  | forTo {level : Reader.Level} {start stop : Expr} {step : Option Expr} {body : List Stmt}
      {ss es ds us ns : List Token} (counter arrow text : String) (l a b c d e : Location) :
    Shows Reader.expression start ss → Shows Reader.expression stop es → Clause "STEP" step ds →
      Lines .inside body us → Optional (fun t => t.kind = .identifier ∧ t.text = counter) ns →
        Line level [.forTo counter start stop step body l]
          (⟨.keyword, "FOR", l⟩ :: ⟨.identifier, counter, a⟩ :: ⟨.assign, arrow, b⟩ :: ss ++
            ⟨.keyword, "TO", c⟩ :: es ++ ds ++ ⟨.newline, text, d⟩ :: us ++ ⟨.keyword, "NEXT", e⟩ :: ns)
  | caseOf {level : Reader.Level} {subject : Expr} {branches : List (CaseBranch Stmt)} {other : Option (List Stmt)}
      {cs gap us : List Token} (text : String) (l a b c : Location) :
    Shows Reader.expression subject cs → Blank gap → Branches branches other us →
      Line level [.caseOf subject branches other l]
        (⟨.keyword, "CASE", l⟩ :: ⟨.keyword, "OF", a⟩ :: cs ++ ⟨.newline, text, b⟩ :: gap ++ us ++
          [⟨.keyword, "ENDCASE", c⟩])

/-- Statements that follow each other, and empty lines. -/
inductive Lines : Reader.Level → List Stmt → List Token → Prop
  | done {level : Reader.Level} : Lines level [] []
  | blank {level : Reader.Level} {body : List Stmt} {us : List Token} (text : String) (l : Location) :
    Lines level body us → Lines level body (⟨.newline, text, l⟩ :: us)
  | line {level : Reader.Level} {found body : List Stmt} {ts us : List Token} (text : String) (l : Location) :
    Line level found ts → Lines level body us → Lines level (found ++ body) (ts ++ ⟨.newline, text, l⟩ :: us)

inductive Else : Option (List Stmt) → List Token → Prop
  | absent : Else none []
  | present {body : List Stmt} {us : List Token} (l : Location) :
    Lines .inside body us → Else (some body) (⟨.keyword, "ELSE", l⟩ :: us)

/-- The branches of a CASE statement, the one for all other values last. -/
inductive Branches : List (CaseBranch Stmt) → Option (List Stmt) → List Token → Prop
  | done : Branches [] none []
  | otherwise {body : List Stmt} {cs us : List Token} (l : Location) :
    Optional (·.kind = .colon) cs → Lines .inside body us →
      Branches [] (some body) (⟨.keyword, "OTHERWISE", l⟩ :: cs ++ us)
  | branch {label : CaseLabel} {body : List Stmt} {branches : List (CaseBranch Stmt)} {other : Option (List Stmt)}
      {ts us vs : List Token} {l : Location} (colon : String) (a : Location) :
    label.Spelled l ts → Lines .inside body us → Branches branches other vs →
      Branches (⟨label, body, l⟩ :: branches) other (ts ++ ⟨.colon, colon, a⟩ :: us ++ vs)

end

/-- A program with the places of its tokens. The last line may lack its end. -/
inductive Program.Written : Program → List Token → Prop
  | lines {statements : List Stmt} {us : List Token} : Lines .top statements us → Written ⟨statements⟩ us
  | unended {body last : List Stmt} {us ts : List Token} :
    Lines .top body us → Line .top last ts → Written ⟨body ++ last⟩ (us ++ ts)

section Places

mutual

/-- An expression without its places. -/
def Expr.unplaced : Expr → Expr
  | .literal v _ => .literal v .none
  | .identifier name _ => .identifier name .none
  | .element name indices _ => .element name (unplacedAll indices) .none
  | .binary op left right _ => .binary op left.unplaced right.unplaced .none
  | .unary op operand _ => .unary op operand.unplaced .none
  | .call name args _ => .call name (unplacedAll args) .none
  | .addressOf operand _ => .addressOf operand.unplaced .none
  | .dereference operand _ => .dereference operand.unplaced .none
  | .allocate size tag _ => .allocate size.unplaced tag .none
  | .sizeOf type _ => .sizeOf type .none
  | .endOfFile file _ => .endOfFile file.unplaced .none

def Expr.unplacedAll : List Expr → List Expr
  | [] => []
  | e :: es => e.unplaced :: unplacedAll es

end

mutual

/-- A statement without the places in it. -/
def Stmt.unplaced : Stmt → Stmt
  | .declare name type _ => .declare name type .none
  | .constant name value _ => .constant name value.unplaced .none
  | .assign target value _ => .assign target.unplaced value.unplaced .none
  | .output items _ => .output (items.map Expr.unplaced) .none
  | .input target _ => .input target.unplaced .none
  | .ifThen condition body other _ =>
    .ifThen condition.unplaced (unplacedBlock body) (unplacedOther other) .none
  | .whileDo condition body _ => .whileDo condition.unplaced (unplacedBlock body) .none
  | .repeatUntil body condition _ => .repeatUntil (unplacedBlock body) condition.unplaced .none
  | .forTo counter start stop step body _ =>
    .forTo counter start.unplaced stop.unplaced (step.map Expr.unplaced) (unplacedBlock body) .none
  | .caseOf subject branches other _ =>
    .caseOf subject.unplaced (unplacedBranches branches) (unplacedOther other) .none
  | .define ⟨name, params, returns, body, _⟩ => .define ⟨name, params, returns, unplacedBlock body, .none⟩
  | .call name args _ => .call name (args.map Expr.unplaced) .none
  | .giveBack value _ => .giveBack (value.map Expr.unplaced) .none
  | .openFile file mode _ => .openFile file.unplaced mode .none
  | .readFile file target _ => .readFile file.unplaced target.unplaced .none
  | .writeFile file value _ => .writeFile file.unplaced value.unplaced .none
  | .closeFile file _ => .closeFile file.unplaced .none
  | .free pointer _ => .free pointer.unplaced .none

def Stmt.unplacedBlock : List Stmt → List Stmt
  | [] => []
  | s :: body => s.unplaced :: unplacedBlock body

def Stmt.unplacedOther : Option (List Stmt) → Option (List Stmt)
  | none => none
  | some body => some (unplacedBlock body)

def Stmt.unplacedBranches : List (CaseBranch Stmt) → List (CaseBranch Stmt)
  | [] => []
  | ⟨label, body, _⟩ :: branches => ⟨label, unplacedBlock body, .none⟩ :: unplacedBranches branches

end

def Program.unplaced (p : Program) : Program := ⟨Stmt.unplacedBlock p.statements⟩

end Places

/-- The tokens that write a program, wherever they stand. -/
def Program.Rendered (p : Program) (ts : List Token) : Prop :=
  ∃ q : Program, q.unplaced = p.unplaced ∧ q.Written ts

end Pseudocode
