import Pseudocode.Call
import Pseudocode.Operator

/-!
The values of expressions. An expression can call functions and change memory, and it never uses the
host.
-/

namespace Pseudocode.Exec

/-- The whole number in an array index, as a 64-bit integer. -/
def indexOf (v : Value) : Except Cause Int :=
  match v with
  | .number x =>
    if Number.isWhole x then .ok (Number.toInt64 x) else .error (.typeMismatch (.fractionalIndex x))
  | v => .error (.typeMismatch (.notNumber "array index" v.kind))

/-- The name of a file. -/
def fileName (v : Value) (line : Nat) : Exec σ String :=
  match v with
  | .text name => pure name
  | v => fail (.typeMismatch (.fileName v.kind)) line

/-- Whether all lines of a file have been read. -/
def fileEnds (v : Value) (line : Nat) : Exec σ Value := do
  let name ← fileName v line
  match (← get).files.atEnd name with
  | .ok b => pure (.boolean b)
  | .error e => fail (.file e) line

def asNumber (v : Value) (what : String) (line : Nat) : Exec σ Float :=
  match v with
  | .number x => pure x
  | v => fail (.typeMismatch (.notNumber what v.kind)) line

/-- What a name stands for in an expression with arguments. A function of the program comes before a
built-in one of that name. -/
inductive Callee where
  | function (d : Definition Stmt)
  | builtin (b : Builtin)

def callee (ctx : Context σ) (name : String) : Except Cause Callee :=
  match ctx.definition? name, Builtin.ofName? name with
  | some d, none => if d.isFunction then .ok (.function d) else .error (.typeMismatch (.procedureUsed name))
  | some d, some b => .ok (if d.isFunction then .function d else .builtin b)
  | none, some b => .ok (.builtin b)
  | none, none => .error (.undefinedCallable name)

mutual

def eval (ctx : Context σ) : Expr → Exec σ Value
  | .literal v _ => pure (.ofLiteral v)
  | .identifier name l => readVariable name l.line
  | .element name indices l => do
    let indices ← evalIndices ctx l.line indices
    readElement name indices l.line
  | .binary op left right l => do
    let a ← eval ctx left
    if op.isLogical then
      let decided ← ofExcept l.line (op.logicalOperand a)
      if op.decides decided then pure a
      else
        let b ← eval ctx right
        return .boolean (← ofExcept l.line (op.logicalOperand b))
    else
      let b ← eval ctx right
      ofExcept l.line (op.apply a b)
  | .unary op operand l => do
    let v ← eval ctx operand
    ofExcept l.line (op.apply v)
  | .call name args l => do
    match ← ofExcept l.line (callee ctx name) with
    | .function d =>
      let run ← runnerFor ctx d args.length l.line
      let bindings ← evalBindings ctx d l.line d.params args
      callFunction run d bindings l.line
    | .builtin b =>
      let args ← evalAll ctx args
      callBuiltin b args l.line
  | .addressOf (.identifier name _) l => .address <$> addressOf name l.line
  | .addressOf (.dereference pointer _) l => do
    let v ← eval ctx pointer
    .address <$> pointee v l.line
  | .addressOf _ l => fail (.typeMismatch .addressOfOther) l.line
  | .dereference pointer l => do
    let v ← eval ctx pointer
    let address ← pointee v l.line
    readThrough address l.line
  | .allocate size tag l => do
    let v ← eval ctx size
    let count ← asNumber v "MALLOC size" l.line
    allocateBlock count tag l.line
  | .sizeOf type _ => pure (.number (Float.ofNat type.size))
  | .endOfFile file l => do
    let v ← eval ctx file
    fileEnds v l.line

/-- The values of some expressions, in order. -/
def evalAll (ctx : Context σ) : List Expr → Exec σ (List Value)
  | [] => pure []
  | e :: rest => do
    let v ← eval ctx e
    let vs ← evalAll ctx rest
    pure (v :: vs)

/-- The indices of an array element, each checked before the next is evaluated. -/
def evalIndices (ctx : Context σ) (line : Nat) : List Expr → Exec σ (List Int)
  | [] => pure []
  | e :: rest => do
    let v ← eval ctx e
    let index ← ofExcept line (indexOf v)
    let indices ← evalIndices ctx line rest
    pure (index :: indices)

/-- The bindings of a callable's parameters, from left to right. -/
def evalBindings (ctx : Context σ) (d : Definition Stmt) (line : Nat) :
    List Param → List Expr → Exec σ (List Binding)
  | p :: ps, e :: rest => do
    let binding ← match p.mode with
      | .byReference => shareArgument d p e line
      | .byValue => do
        let v ← eval ctx e
        copyArgument d p v line
    let bindings ← evalBindings ctx d line ps rest
    pure (binding :: bindings)
  | _, _ => pure []

end

/-- The truth of a condition. -/
def evalCondition (ctx : Context σ) (construct : String) (line : Nat) (e : Expr) : Exec σ Bool := do
  match ← eval ctx e with
  | .boolean b => pure b
  | v => fail (.typeMismatch (.condition construct v.kind)) line

/-- The number that an expression must have. -/
def evalNumber (ctx : Context σ) (what : String) (line : Nat) (e : Expr) : Exec σ Float := do
  let v ← eval ctx e
  asNumber v what line

/-- The declared type of what an assignment goes to. -/
def targetType (line : Nat) : Expr → Exec σ DataType
  | .identifier name _ => do
    let (_, v) ← find name line
    pure v.type
  | .element name _ _ => do
    let (_, v) ← find name line
    match v.type with
    | .array _ element => pure element
    | _ => fail (.typeMismatch (.notArray name)) line
  | .dereference pointer _ => do
    match ← targetType line pointer with
    | .pointer target => pure target
    | type => fail (.typeMismatch (.dereferenceType type)) line
  | _ => fail (.typeMismatch .notAssignable) line

/-- How prompts name what an assignment goes to. -/
def targetName : Expr → String
  | .identifier name _ => name
  | .element name _ _ => name
  | .dereference pointer _ => "*" ++ targetName pointer
  | _ => "value"

/-- Assigns a value that has been evaluated already. -/
def assign (ctx : Context σ) (target : Expr) (value : Value) (line : Nat) : Exec σ Unit :=
  match target with
  | .identifier name _ => assignVariable name value line
  | .element name indices _ => do
    let indices ← evalIndices ctx line indices
    assignElement name indices value line
  | .dereference pointer _ => do
    let v ← eval ctx pointer
    let address ← pointee v line
    assignThrough address value line
  | _ => fail (.typeMismatch .notAssignable) line

end Pseudocode.Exec
