import Pseudocode.Interpreter

/-!
Programs over any notion of computation. A `Semantics` says how a step of the machine is taken, what
surrounds a statement, how loops repeat and how calls nest; the interpreter below is the rest.
-/

namespace Pseudocode

/-- A notion of computation in which programs can be run. -/
structure Semantics (σ : Type) (M : Type → Type) where
  /-- A step of the machine. -/
  lift : {α : Type} → Exec σ α → M α
  /-- The outcome of a computation that may fail. -/
  attempt : {α : Type} → M α → M (Except RuntimeError α)
  /-- Refuses a call with a wrong number of arguments, and one that would be nested too deeply. -/
  permit : Definition Stmt → Nat → Nat → M Unit
  /-- Runs the body of a callable. -/
  body : Access → List Stmt → M Flow
  /-- Runs a statement between its boundaries. -/
  boundary : M Flow → M Flow
  whileLoop : M Bool → M Flow → Nat → M Flow
  repeatLoop : M Flow → M Bool → Nat → M Flow
  forLoop : M Float → (Float → Bool) → (Float → M Unit) → M Flow → Nat → M Flow

namespace Exec

def currentLine : Exec σ Nat := return (← get).line

/-- Closes the frame of a call whose body has ended, and gives how it ended and on which line. -/
def closeCall (line : Nat) (result : Except RuntimeError Flow) : Exec σ (Flow × Nat) := do
  let last ← currentLine
  leave line
  match result with
  | .ok flow => pure (flow, last)
  | .error e => throw e

/-- What a function makes of the end of its body. -/
def functionResult (d : Definition Stmt) : Flow × Nat → Exec σ Value
  | (.returned (some v), last) =>
    match d.returns with
    | some type =>
      if v.conforms type then pure v else fail (.typeMismatch (.returned d.name type v.kind)) last
    | none => pure v
  | (_, last) => fail (.missingReturn d.name) last

/-- What a procedure makes of the end of its body. -/
def procedureResult (d : Definition Stmt) : Flow × Nat → Exec σ Flow
  | (.returned (some _), last) => fail (.typeMismatch (.procedureReturned d.name)) last
  | (.halt, _) => pure .halt
  | _ => pure .normal

/-- Asks the host for the text of an INPUT. -/
def askInput (host : Host σ) (name : String) (type : DataType) : Exec σ (Option String) :=
  modifyGet fun m =>
    let (answer, host) := host.requestInput name type m.host
    (answer, { m with host })

/-- Asks the host for the content of a file that is opened to be read. -/
def askFile (host : Host σ) (name : String) : FileMode → Exec σ (Option String)
  | .read => modifyGet fun m =>
    let (content, host) := host.requestFile name m.host
    (content, { m with host })
  | _ => pure none

/-- Opens the file of a name. -/
def openNamed (host : Host σ) (name : String) (mode : FileMode) (line : Nat) : Exec σ Unit := do
  let content ← askFile host name mode
  match (← get).files.openFile name mode content with
  | .error e => fail (.file e) line
  | .ok files => modify fun m => { m with files }

/-- Reads the next line of the file of a name. -/
def readNamed (name : String) (line : Nat) : Exec σ String := do
  match (← get).files.readLine name with
  | .error e => fail (.file e) line
  | .ok (raw, files) =>
    modify fun m => { m with files }
    pure raw

/-- Adds a line to the file of a name. -/
def writeNamed (name text : String) (line : Nat) : Exec σ Unit := do
  match (← get).files.checkWritable name with
  | .error e => fail (.file e) line
  | .ok _ => modify fun m => { m with files := m.files.append name text }

/-- Shows what was written to a file, if that is asked for. -/
def echo (ctx : Context σ) (text : String) (line : Nat) : Exec σ Unit :=
  if ctx.config.echo then emit ctx.host ⟨.fileWrite, text, line⟩ else pure ()

/-- Closes the file of a name. -/
def closeNamed (name : String) (line : Nat) : Exec σ Unit := do
  match (← get).files.close name with
  | .error e => fail (.file e) line
  | .ok files => modify fun m => { m with files }

/-- Fails outside of callables. -/
def requireCall (line : Nat) : Exec σ Unit := do
  if (← get).calls.isEmpty then fail (.invalidArgument .returnOutside) line

/-- Refuses definitions that share a name. -/
def checkDefinitions (p : Program) : Exec σ Unit := do
  if let some d := duplicate? [] p.definitions then fail (.redeclaration d.name) d.location.line

/-- What a program makes of the end of its statements. -/
def outcomeOf : Flow → Exec σ Outcome
  | .normal => pure .completed
  | .halt => pure .cancelled
  | .returned _ => do fail (.invalidArgument .returnOutside) (← currentLine)

end Exec

namespace Semantics

open Exec

variable {σ : Type} {M : Type → Type} [Monad M] (s : Semantics σ M) (ctx : Context σ)

def followedBy (flow : Flow) (next : M Flow) : M Flow :=
  match flow with
  | .normal => next
  | flow => pure flow

def runBody (access : Access) (d : Definition Stmt) (kind : CallableKind) (bindings : List Binding)
    (line : Nat) : M (Flow × Nat) := do
  s.lift (enter d kind bindings line)
  let result ← s.attempt (s.body access d.body)
  s.lift (closeCall line result)

mutual

def eval : Expr → M Value
  | .literal v _ => pure (.ofLiteral v)
  | .identifier name l => s.lift (readVariable name l.line)
  | .element name indices l => do
    let indices ← evalIndices l.line indices
    s.lift (readElement name indices l.line)
  | .binary op left right l => do
    let a ← eval left
    if op.isLogical then
      let decided ← s.lift (ofExcept l.line (op.logicalOperand a))
      if op.decides decided then pure a
      else
        let b ← eval right
        let truth ← s.lift (ofExcept l.line (op.logicalOperand b))
        pure (.boolean truth)
    else
      let b ← eval right
      s.lift (ofExcept l.line (op.apply a b))
  | .unary op operand l => do
    let v ← eval operand
    s.lift (ofExcept l.line (op.apply v))
  | .call name args l => do
    match ← s.lift (ofExcept l.line (callee ctx name)) with
    | .function d =>
      s.permit d args.length l.line
      let bindings ← evalBindings d l.line d.params args
      let ended ← s.runBody .denied d .function bindings l.line
      s.lift (functionResult d ended)
    | .builtin b =>
      let args ← evalAll args
      s.lift (callBuiltin b args l.line)
  | .addressOf (.identifier name _) l => do
    let address ← s.lift (addressOf name l.line)
    pure (.address address)
  | .addressOf (.dereference pointer _) l => do
    let v ← eval pointer
    let address ← s.lift (pointee v l.line)
    pure (.address address)
  | .addressOf _ l => s.lift (fail (.typeMismatch .addressOfOther) l.line)
  | .dereference pointer l => do
    let v ← eval pointer
    let address ← s.lift (pointee v l.line)
    s.lift (readThrough address l.line)
  | .allocate size tag l => do
    let v ← eval size
    let count ← s.lift (asNumber v "MALLOC size" l.line)
    s.lift (allocateBlock count tag l.line)
  | .sizeOf type _ => pure (.number (Float.ofNat type.size))
  | .endOfFile file l => do
    let v ← eval file
    s.lift (fileEnds v l.line)

def evalAll : List Expr → M (List Value)
  | [] => pure []
  | e :: rest => do
    let v ← eval e
    let vs ← evalAll rest
    pure (v :: vs)

def evalIndices (line : Nat) : List Expr → M (List Int)
  | [] => pure []
  | e :: rest => do
    let v ← eval e
    let index ← s.lift (ofExcept line (indexOf v))
    let indices ← evalIndices line rest
    pure (index :: indices)

def evalBindings (d : Definition Stmt) (line : Nat) : List Param → List Expr → M (List Binding)
  | p :: ps, e :: rest => do
    let binding ← match p.mode with
      | .byReference => s.lift (shareArgument d p e line)
      | .byValue => do
        let v ← eval e
        s.lift (copyArgument d p v line)
    let bindings ← evalBindings d line ps rest
    pure (binding :: bindings)
  | _, _ => pure []

end

/-- The step from a value to the truth that a condition must have. -/
def truthOf (construct : String) (line : Nat) : Value → Exec σ Bool
  | .boolean b => pure b
  | v => fail (.typeMismatch (.condition construct v.kind)) line

def evalCondition (construct : String) (line : Nat) (e : Expr) : M Bool := do
  let v ← s.eval ctx e
  s.lift (truthOf construct line v)

def evalNumber (what : String) (line : Nat) (e : Expr) : M Float := do
  let v ← s.eval ctx e
  s.lift (asNumber v what line)

def assign (target : Expr) (value : Value) (line : Nat) : M Unit :=
  match target with
  | .identifier name _ => s.lift (assignVariable name value line)
  | .element name indices _ => do
    let indices ← s.evalIndices ctx line indices
    s.lift (assignElement name indices value line)
  | .dereference pointer _ => do
    let v ← s.eval ctx pointer
    let address ← s.lift (pointee v line)
    s.lift (assignThrough address value line)
  | _ => s.lift (fail (.typeMismatch .notAssignable) line)

def evalFileName (file : Expr) (line : Nat) : M String := do
  let v ← s.eval ctx file
  s.lift (fileName v line)

def output (access : Access) (items : List Expr) (line : Nat) : M Unit := do
  s.lift (requireHost access "OUTPUT" line)
  let values ← s.evalAll ctx items
  s.lift (emit ctx.host ⟨.output, String.join (values.map Value.display), line⟩)

def input (access : Access) (target : Expr) (line : Nat) : M Flow := do
  s.lift (requireHost access "INPUT" line)
  let type ← s.lift (targetType line target)
  let answer ← s.lift (askInput ctx.host (targetName target) type)
  match answer with
  | none => pure .halt
  | some raw =>
    let value ← s.lift (convert target type raw line)
    s.lift (emit ctx.host ⟨.inputEcho, raw, line⟩)
    s.assign ctx target value line
    pure .normal

def openFile (access : Access) (file : Expr) (mode : FileMode) (line : Nat) : M Unit := do
  s.lift (requireHost access "OPENFILE" line)
  let name ← s.evalFileName ctx file line
  s.lift (openNamed ctx.host name mode line)

def readFile (access : Access) (file target : Expr) (line : Nat) : M Unit := do
  s.lift (requireHost access "READFILE" line)
  let name ← s.evalFileName ctx file line
  let type ← s.lift (targetType line target)
  let raw ← s.lift (readNamed name line)
  let value ← s.lift (convert target type raw line)
  s.assign ctx target value line

def writeFile (access : Access) (file value : Expr) (line : Nat) : M Unit := do
  s.lift (requireHost access "WRITEFILE" line)
  let name ← s.evalFileName ctx file line
  let v ← s.eval ctx value
  s.lift (writeNamed name v.display line)
  s.lift (echo ctx v.display line)

def closeFile (access : Access) (file : Expr) (line : Nat) : M Unit := do
  s.lift (requireHost access "CLOSEFILE" line)
  let name ← s.evalFileName ctx file line
  s.lift (closeNamed name line)

def callNamed (access : Access) (name : String) (args : List Expr) (line : Nat) : M Flow := do
  match ctx.definition? name with
  | none => s.lift (fail (.undefinedCallable name) line)
  | some d =>
    if d.isFunction then s.lift (fail (.typeMismatch (.functionCalled name)) line)
    else
      s.permit d args.length line
      let bindings ← s.evalBindings ctx d line d.params args
      let ended ← s.runBody access d .procedure bindings line
      s.lift (procedureResult d ended)

def giveBack (value : Option Expr) (line : Nat) : M Flow := do
  s.lift (requireCall line)
  match value with
  | none => pure (.returned none)
  | some e => do
    let v ← s.eval ctx e
    pure (.returned (some v))

def evalStep (line : Nat) : Option Expr → M Float
  | some e => s.evalNumber ctx "FOR STEP" line e
  | none => pure 1

def count (name : String) (start stop : Expr) (step : Option Expr) (body : M Flow) (line : Nat) : M Flow := do
  let first ← s.evalNumber ctx "FOR start value" line start
  let last ← s.evalNumber ctx "FOR end value" line stop
  let step ← s.evalStep ctx line step
  if step == 0 then s.lift (fail .zeroStep line)
  else
    let cell ← s.lift (counterCell name line)
    s.lift (assignVariable name (.number (Number.floor first)) line)
    s.forLoop (s.lift (counterValue cell name line))
      (fun x => if 0 < step then x ≤ last else last ≤ x)
      (fun x => s.lift (assignVariable name (.number (x + Number.floor step)) line)) body line

def simply (x : M Unit) : M Flow := do
  x
  pure .normal

mutual

def execStmt (access : Access) (st : Stmt) : M Flow :=
  s.boundary do
    if ← s.lift (interrupted ctx access st) then pure .halt
    else
      match st with
      | .declare name type l => simply (s.lift (declare name type l.line))
      | .constant name value l => simply do
        let v ← s.eval ctx value
        s.lift (declareConstant name v l.line)
      | .assign target value l => simply do
        let v ← s.eval ctx value
        s.assign ctx target v l.line
      | .output items l => simply (s.output ctx access items l.line)
      | .input target l => s.input ctx access target l.line
      | .ifThen condition thenBranch elseBranch l => do
        if ← s.evalCondition ctx "IF" l.line condition then execBlock access thenBranch
        else execElse access elseBranch
      | .whileDo condition body l =>
        s.whileLoop (s.evalCondition ctx "WHILE" l.line condition) (execBlock access body) l.line
      | .repeatUntil body condition l =>
        s.repeatLoop (execBlock access body) (s.evalCondition ctx "UNTIL" l.line condition) l.line
      | .forTo counter start stop step body l =>
        s.count ctx counter start stop step (execBlock access body) l.line
      | .caseOf subject branches otherwise _ => do
        let v ← s.eval ctx subject
        execBranches access v (execElse access otherwise) branches
      | .define _ => pure .normal
      | .call name args l => s.callNamed ctx access name args l.line
      | .giveBack value l => s.giveBack ctx value l.line
      | .openFile file mode l => simply (s.openFile ctx access file mode l.line)
      | .readFile file target l => simply (s.readFile ctx access file target l.line)
      | .writeFile file value l => simply (s.writeFile ctx access file value l.line)
      | .closeFile file l => simply (s.closeFile ctx access file l.line)
      | .free pointer l => simply do
        let v ← s.eval ctx pointer
        s.lift (freeBlock v l.line)

def execBlock (access : Access) : List Stmt → M Flow
  | [] => pure .normal
  | st :: rest => do
    let flow ← execStmt access st
    followedBy flow (execBlock access rest)

def execElse (access : Access) : Option (List Stmt) → M Flow
  | none => pure .normal
  | some body => execBlock access body

def execBranches (access : Access) (subject : Value) (otherwise : M Flow) :
    List (CaseBranch Stmt) → M Flow
  | [] => otherwise
  | ⟨label, body, _⟩ :: rest =>
    if label.selects subject then execBlock access body
    else execBranches access subject otherwise rest

end

def exec (p : Program) : M Outcome := do
  s.lift (checkDefinitions p)
  let flow ← s.execBlock ctx .granted p.statements
  s.lift (outcomeOf flow)

end Semantics

end Pseudocode
