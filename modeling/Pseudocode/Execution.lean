import Pseudocode.Evaluation

/-!
Running statements. Loops recurse on the passes that the run may still begin and calls on the frames
that it may still open, so every run ends.
-/

namespace Pseudocode

/-- The value that an answer to INPUT or a line of a file stands for in something of a declared
type. -/
def Value.ofInput? (type : DataType) (raw : String) : Option Value :=
  match type with
  | .integer => ((Number.read? (Text.trim raw)).filter Number.isWhole).map .number
  | .real => ((Number.read? (Text.trim raw)).filter Float.isFinite).map .number
  | .string => some (.text raw)
  | .char => if raw.length = 1 then some (.text raw) else none
  | .boolean =>
    match (Text.trim raw).map Char.toUpper with
    | "TRUE" => some (.boolean true)
    | "FALSE" => some (.boolean false)
    | _ => none
  | .array .. | .pointer _ => none

/-- The type that a constant gets from its value; an array has none. -/
def Value.constantType? : Value → Option DataType
  | .number x => some (if Number.isWhole x then .integer else .real)
  | .text _ => some .string
  | .boolean _ => some .boolean
  | .address _ => some (.pointer .integer)
  | .array _ => none

def Stmt.isDefinition : Stmt → Bool
  | .define _ => true
  | _ => false

namespace Exec

/-- Begins a statement, and tells whether the run is to stop before it. -/
def interrupted (ctx : Context σ) (access : Access) (s : Stmt) : Exec σ Bool := do
  modify fun m => { m with line := s.line, calls := m.calls.setLine s.line }
  checkBudget ctx.config s.line
  match access with
  | .denied => pure false
  | .granted =>
    let stopped ← modifyGet fun m =>
      let (stopped, host) := ctx.host.cancelled m.host
      (stopped, { m with host })
    if stopped then pure true
    else if ctx.config.debug && !s.isDefinition then
      let reply ← modifyGet fun m =>
        let (reply, host) := ctx.host.step (m.snapshot true) m.host
        (reply, { m with host })
      pure (reply == .stop)
    else pure false

/-- Declares a variable in the innermost scope. -/
def declareVariable (name : String) (v : ScopeId → Variable) (line : Nat) : Exec σ Unit := do
  let id := (← get).scopes.current
  if (← get).scopes.accepts id name then modifyScopes (·.declare id name (v id))
  else fail (.redeclaration name) line

/-- What a variable holds before anything is assigned to it: an array has its cells from the start.
-/
def startValue (name : String) (type : DataType) : Except Cause (Option Value) :=
  match type with
  | .array dims element =>
    if dims.isEmpty || dims.any Bounds.isEmpty then .error (.invalidArgument (.emptyBounds name))
    else
      match Grid.blank? dims element with
      | some g => .ok (some (.array g))
      | none => .error (.invalidArgument (.tooManyCells name))
  | _ => .ok none

def declare (name : String) (type : DataType) (line : Nat) : Exec σ Unit := do
  let value ← ofExcept line (startValue name type)
  declareVariable name (.declared type value) line
  record .declare line { subject := some name, note := some type.render }

def declareConstant (name : String) (value : Value) (line : Nat) : Exec σ Unit := do
  match value.constantType? with
  | none => fail (.typeMismatch (.constantArray name)) line
  | some type =>
    declareVariable name (fun id => { Variable.declared type (some value) id with constant := true }) line
    record .declare line
      { subject := some name, value := some value.display, note := some s!"CONSTANT {type.render}" }

def output (ctx : Context σ) (access : Access) (items : List Expr) (line : Nat) : Exec σ Unit := do
  requireHost access "OUTPUT" line
  let values ← evalAll ctx items
  emit ctx.host ⟨.output, String.join (values.map Value.display), line⟩

/-- Converts what was read for a target. -/
def convert (target : Expr) (type : DataType) (raw : String) (line : Nat) : Exec σ Value :=
  match Value.ofInput? type raw with
  | some v => pure v
  | none => fail (.invalidInput (targetName target) raw type) line

def input (ctx : Context σ) (access : Access) (target : Expr) (line : Nat) : Exec σ Flow := do
  requireHost access "INPUT" line
  let type ← targetType line target
  let answer ← modifyGet fun m =>
    let (answer, host) := ctx.host.requestInput (targetName target) type m.host
    (answer, { m with host })
  match answer with
  | none => pure .halt
  | some raw =>
    let value ← convert target type raw line
    emit ctx.host ⟨.inputEcho, raw, line⟩
    assign ctx target value line
    pure .normal

def openFile (ctx : Context σ) (access : Access) (file : Expr) (mode : FileMode) (line : Nat) :
    Exec σ Unit := do
  requireHost access "OPENFILE" line
  let name ← fileName (← eval ctx file) line
  let content ← match mode with
    | .read => modifyGet fun m =>
      let (content, host) := ctx.host.requestFile name m.host
      (content, { m with host })
    | _ => pure none
  match (← get).files.openFile name mode content with
  | .error e => fail (.file e) line
  | .ok files => modify fun m => { m with files }

def readFile (ctx : Context σ) (access : Access) (file target : Expr) (line : Nat) : Exec σ Unit := do
  requireHost access "READFILE" line
  let name ← fileName (← eval ctx file) line
  let type ← targetType line target
  match (← get).files.readLine name with
  | .error e => fail (.file e) line
  | .ok (raw, files) =>
    modify fun m => { m with files }
    let value ← convert target type raw line
    assign ctx target value line

def writeFile (ctx : Context σ) (access : Access) (file value : Expr) (line : Nat) : Exec σ Unit := do
  requireHost access "WRITEFILE" line
  let name ← fileName (← eval ctx file) line
  let text := (← eval ctx value).display
  match (← get).files.checkWritable name with
  | .error e => fail (.file e) line
  | .ok _ => modify fun m => { m with files := m.files.append name text }
  if ctx.config.echo then emit ctx.host ⟨.fileWrite, text, line⟩

def closeFile (ctx : Context σ) (access : Access) (file : Expr) (line : Nat) : Exec σ Unit := do
  requireHost access "CLOSEFILE" line
  let name ← fileName (← eval ctx file) line
  match (← get).files.close name with
  | .error e => fail (.file e) line
  | .ok files => modify fun m => { m with files }

/-- Calls a procedure by its name. -/
def callNamed (ctx : Context σ) (access : Access) (name : String) (args : List Expr) (line : Nat) :
    Exec σ Flow := do
  match ctx.definition? name with
  | none => fail (.undefinedCallable name) line
  | some d =>
    if d.isFunction then fail (.typeMismatch (.functionCalled name)) line
    let run ← runnerFor ctx d args.length line
    let bindings ← evalBindings ctx d line d.params args
    callProcedure run access d bindings line

def giveBack (ctx : Context σ) (value : Option Expr) (line : Nat) : Exec σ Flow := do
  if (← get).calls.isEmpty then fail (.invalidArgument .returnOutside) line
  match value with
  | none => pure (.returned none)
  | some e => return .returned (some (← eval ctx e))

/-- Runs `next` if a statement has ended normally. -/
def followedBy (flow : Flow) (next : Exec σ Flow) : Exec σ Flow :=
  match flow with
  | .normal => next
  | flow => pure flow

/-- A loop that tests its condition before each pass, of which `n` may still begin. -/
def whilePasses (config : Config) (condition : Exec σ Bool) (body : Exec σ Flow) (line : Nat) :
    Nat → Exec σ Flow
  | 0 => do if ← condition then overrun config line else pure .normal
  | n + 1 => do
    if ← condition then
      tick config line
      let flow ← body
      followedBy flow (whilePasses config condition body line n)
    else pure .normal

/-- A loop that tests its condition after each pass, of which `n` may still begin. -/
def repeatPasses (config : Config) (condition : Exec σ Bool) (body : Exec σ Flow) (line : Nat) :
    Nat → Exec σ Flow
  | 0 => overrun config line
  | n + 1 => do
    tick config line
    let flow ← body
    followedBy flow do
      if ← condition then pure .normal else repeatPasses config condition body line n

/-- A counting loop, of which `n` passes may still begin. -/
def forPasses (config : Config) (counter : Exec σ Float) (continues : Float → Bool)
    (advance : Float → Exec σ Unit) (body : Exec σ Flow) (line : Nat) : Nat → Exec σ Flow
  | 0 => do if continues (← counter) then overrun config line else pure .normal
  | n + 1 => do
    if continues (← counter) then
      tick config line
      let flow ← body
      followedBy flow do
        advance (← counter)
        forPasses config counter continues advance body line n
    else pure .normal

/-- The cell of a loop variable, which is declared if it is not there. -/
def counterCell (name : String) (line : Nat) : Exec σ CellId := do
  match (← get).find? name with
  | some (cell, _) => pure cell
  | none =>
    let cell := (← get).scopes.cells.size
    declareVariable name (.declared .integer none) line
    record .declare line { subject := some name, note := some "INTEGER (FOR loop variable)" }
    pure cell

/-- The number in the cell of a loop variable. -/
def counterValue (cell : CellId) (name : String) (line : Nat) : Exec σ Float := do
  match ((← get).scopes.cell? cell).bind (·.value) with
  | some (.number x) => pure x
  | some v => fail (.typeMismatch (.counter name v.kind)) line
  | none => fail (.uninitializedRead name) line

/-- A counting loop: the variable starts at the floor of the first number and moves by the floor of
the step. The test reads the cell that the name stood for at the start; the name is looked up afresh
for each assignment. -/
def forLoop (ctx : Context σ) (name : String) (start stop : Expr) (step : Option Expr) (body : Exec σ Flow)
    (line : Nat) : Exec σ Flow := do
  let first ← evalNumber ctx "FOR start value" line start
  let last ← evalNumber ctx "FOR end value" line stop
  let step ← match step with
    | some e => evalNumber ctx "FOR STEP" line e
    | none => pure 1
  if step == 0 then fail .zeroStep line
  let cell ← counterCell name line
  assignVariable name (.number (Number.floor first)) line
  let continues (x : Float) : Bool := if 0 < step then x ≤ last else last ≤ x
  let advance (x : Float) : Exec σ Unit := assignVariable name (.number (x + Number.floor step)) line
  forPasses ctx.config (counterValue cell name line) continues advance body line (← passesLeft ctx.config)

def whileLoop (ctx : Context σ) (condition : Expr) (body : Exec σ Flow) (line : Nat) : Exec σ Flow := do
  whilePasses ctx.config (evalCondition ctx "WHILE" line condition) body line (← passesLeft ctx.config)

def repeatLoop (ctx : Context σ) (body : Exec σ Flow) (condition : Expr) (line : Nat) : Exec σ Flow := do
  repeatPasses ctx.config (evalCondition ctx "UNTIL" line condition) body line (← passesLeft ctx.config)

/-- A statement that always ends normally. -/
def simply (x : Exec σ Unit) : Exec σ Flow := do
  x
  pure .normal

mutual

def execStmt (ctx : Context σ) (access : Access) (s : Stmt) : Exec σ Flow := do
  if ← interrupted ctx access s then pure .halt
  else
    match s with
    | .declare name type l => simply (declare name type l.line)
    | .constant name value l => simply do declareConstant name (← eval ctx value) l.line
    | .assign target value l => simply do assign ctx target (← eval ctx value) l.line
    | .output items l => simply (output ctx access items l.line)
    | .input target l => input ctx access target l.line
    | .ifThen condition thenBranch elseBranch l => do
      if ← evalCondition ctx "IF" l.line condition then execBlock ctx access thenBranch
      else execElse ctx access elseBranch
    | .whileDo condition body l => whileLoop ctx condition (execBlock ctx access body) l.line
    | .repeatUntil body condition l => repeatLoop ctx (execBlock ctx access body) condition l.line
    | .forTo counter start stop step body l =>
      forLoop ctx counter start stop step (execBlock ctx access body) l.line
    | .caseOf subject branches otherwise _ => do
      let v ← eval ctx subject
      execBranches ctx access v (execElse ctx access otherwise) branches
    | .define _ => pure .normal
    | .call name args l => callNamed ctx access name args l.line
    | .giveBack value l => giveBack ctx value l.line
    | .openFile file mode l => simply (openFile ctx access file mode l.line)
    | .readFile file target l => simply (readFile ctx access file target l.line)
    | .writeFile file value l => simply (writeFile ctx access file value l.line)
    | .closeFile file l => simply (closeFile ctx access file l.line)
    | .free pointer l => simply do freeBlock (← eval ctx pointer) l.line

/-- Runs statements until one does not end normally. -/
def execBlock (ctx : Context σ) (access : Access) : List Stmt → Exec σ Flow
  | [] => pure .normal
  | s :: rest => do
    let flow ← execStmt ctx access s
    followedBy flow (execBlock ctx access rest)

/-- Runs the statements that may be left out. -/
def execElse (ctx : Context σ) (access : Access) : Option (List Stmt) → Exec σ Flow
  | none => pure .normal
  | some body => execBlock ctx access body

/-- Runs the first branch that is selected, or else `otherwise`. -/
def execBranches (ctx : Context σ) (access : Access) (subject : Value) (otherwise : Exec σ Flow) :
    List (CaseBranch Stmt) → Exec σ Flow
  | [] => otherwise
  | ⟨label, body, _⟩ :: rest =>
    if label.selects subject then execBlock ctx access body
    else execBranches ctx access subject otherwise rest

end

/-- Runs a block where `frames` more calls may be nested. -/
def runBlock (host : Host σ) (config : Config) (definitions : List (Definition Stmt)) : Nat → Runner σ
  | 0 => execBlock ⟨host, config, definitions, none⟩
  | frames + 1 => execBlock ⟨host, config, definitions, some (runBlock host config definitions frames)⟩

end Exec

end Pseudocode
