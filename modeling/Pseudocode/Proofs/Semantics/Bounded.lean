import Pseudocode.Proofs.Semantics

/-!
The interpreter as one of its semantics. With loops bounded by the passes left and calls by the frames
left, the interpreter over all notions of computation is the one that runs (`eval_ofExec`,
`execBlock_ofExec`, `exec_ofExec`).
-/

namespace Pseudocode.Semantics

open Exec


/-- The bounded loops and calls of a run. -/
def ofExec (ctx : Context σ) : Semantics σ (Exec σ) where
  lift x := x
  attempt := Exec.attempt
  permit d arguments line := discard (runnerFor ctx d arguments line)
  body := ctx.below.getD fun _ _ => pure .normal
  boundary x := x
  whileLoop condition body line := do
    whilePasses ctx.config condition body line (← passesLeft ctx.config)
  repeatLoop body condition line := do
    repeatPasses ctx.config condition body line (← passesLeft ctx.config)
  forLoop counter continues advance body line := do
    forPasses ctx.config counter continues advance body line (← passesLeft ctx.config)

section OfExec

variable {σ : Type} (ctx : Context σ)

theorem permit_bind {β : Type} (d : Definition Stmt) (arguments line : Nat) (k : Unit → Exec σ β)
    (k' : Runner σ → Exec σ β) (same : ∀ run, ctx.below = some run → k () = k' run) :
    ((ofExec ctx).permit d arguments line >>= k) = (runnerFor ctx d arguments line >>= k') := by
  simp only [ofExec, runnerFor]
  split
  · cases below : ctx.below with
    | none => rfl
    | some run => exact same run below
  · rfl

theorem runBody_ofExec {run : Runner σ} (below : ctx.below = some run) (access : Access)
    (d : Definition Stmt) (kind : CallableKind) (bindings : List Binding) (line : Nat) :
    (ofExec ctx).runBody access d kind bindings line = Exec.runBody run access d kind bindings line := by
  simp only [Semantics.runBody, Exec.runBody, ofExec, below, Option.getD_some]
  rfl

theorem callFunction_eq (run : Runner σ) (d : Definition Stmt) (bindings : List Binding) (line : Nat) :
    callFunction run d bindings line =
      Exec.runBody run .denied d .function bindings line >>= functionResult d := by
  rfl

theorem callProcedure_eq (run : Runner σ) (access : Access) (d : Definition Stmt) (bindings : List Binding)
    (line : Nat) :
    callProcedure run access d bindings line =
      Exec.runBody run access d .procedure bindings line >>= procedureResult d := by
  rfl

mutual

theorem eval_ofExec : (e : Expr) → (ofExec ctx).eval ctx e = Exec.eval ctx e
  | .literal v l => by simp only [Semantics.eval, Exec.eval]
  | .identifier name l => by simp only [Semantics.eval, Exec.eval]; rfl
  | .element name indices l => by
    simp only [Semantics.eval, Exec.eval, evalIndices_ofExec l.line indices]
    rfl
  | .binary op left right l => by
    simp only [Semantics.eval, Exec.eval, eval_ofExec left, eval_ofExec right]
    rfl
  | .unary op operand l => by
    simp only [Semantics.eval, Exec.eval, eval_ofExec operand]
    rfl
  | .call name args l => by
    simp only [Semantics.eval, Exec.eval]
    refine bind_congr fun found => ?_
    cases found with
    | function d =>
      refine permit_bind ctx d args.length l.line _ _ fun run below => ?_
      rw [evalBindings_ofExec d l.line d.params args]
      refine bind_congr fun bindings => ?_
      rw [runBody_ofExec ctx below, callFunction_eq]
      rfl
    | builtin b =>
      rw [evalAll_ofExec args]
      rfl
  | .addressOf (.identifier name _) l => by
    simp only [Semantics.eval, Exec.eval]
    rfl
  | .addressOf (.dereference pointer _) l => by
    simp only [Semantics.eval, Exec.eval, eval_ofExec pointer]
    rfl
  | .addressOf (.literal ..) l | .addressOf (.element ..) l | .addressOf (.binary ..) l
  | .addressOf (.unary ..) l | .addressOf (.call ..) l | .addressOf (.addressOf ..) l
  | .addressOf (.allocate ..) l | .addressOf (.sizeOf ..) l | .addressOf (.endOfFile ..) l => by
    simp only [Semantics.eval, Exec.eval]
    rfl
  | .dereference pointer l => by
    simp only [Semantics.eval, Exec.eval, eval_ofExec pointer]
    rfl
  | .allocate size tag l => by
    simp only [Semantics.eval, Exec.eval, eval_ofExec size]
    rfl
  | .sizeOf type l => by simp only [Semantics.eval, Exec.eval]
  | .endOfFile file l => by
    simp only [Semantics.eval, Exec.eval, eval_ofExec file]
    rfl

theorem evalAll_ofExec : (es : List Expr) → (ofExec ctx).evalAll ctx es = Exec.evalAll ctx es
  | [] => by simp only [Semantics.evalAll, Exec.evalAll]
  | e :: rest => by
    simp only [Semantics.evalAll, Exec.evalAll, eval_ofExec e, evalAll_ofExec rest]

theorem evalIndices_ofExec (line : Nat) :
    (es : List Expr) → (ofExec ctx).evalIndices ctx line es = Exec.evalIndices ctx line es
  | [] => by simp only [Semantics.evalIndices, Exec.evalIndices]
  | e :: rest => by
    simp only [Semantics.evalIndices, Exec.evalIndices, eval_ofExec e, evalIndices_ofExec line rest]
    rfl

theorem evalBindings_ofExec (d : Definition Stmt) (line : Nat) :
    (ps : List Param) → (es : List Expr) →
      (ofExec ctx).evalBindings ctx d line ps es = Exec.evalBindings ctx d line ps es
  | p :: ps, e :: rest => by
    simp only [Semantics.evalBindings, Exec.evalBindings, eval_ofExec e,
      evalBindings_ofExec d line ps rest]
    rfl
  | [], _ => by simp only [Semantics.evalBindings, Exec.evalBindings]
  | _ :: _, [] => by simp only [Semantics.evalBindings, Exec.evalBindings]

end

theorem evalCondition_ofExec (construct : String) (line : Nat) (e : Expr) :
    (ofExec ctx).evalCondition ctx construct line e = Exec.evalCondition ctx construct line e := by
  simp only [Semantics.evalCondition, Exec.evalCondition, eval_ofExec]
  rfl

theorem evalNumber_ofExec (what : String) (line : Nat) (e : Expr) :
    (ofExec ctx).evalNumber ctx what line e = Exec.evalNumber ctx what line e := by
  simp only [Semantics.evalNumber, Exec.evalNumber, eval_ofExec]
  rfl

theorem assign_ofExec (target : Expr) (value : Value) (line : Nat) :
    (ofExec ctx).assign ctx target value line = Exec.assign ctx target value line := by
  cases target <;>
    simp only [Semantics.assign, Exec.assign, eval_ofExec, evalIndices_ofExec] <;> rfl

theorem output_ofExec (access : Access) (items : List Expr) (line : Nat) :
    (ofExec ctx).output ctx access items line = Exec.output ctx access items line := by
  simp only [Semantics.output, Exec.output, evalAll_ofExec]
  rfl

theorem input_ofExec (access : Access) (target : Expr) (line : Nat) :
    (ofExec ctx).input ctx access target line = Exec.input ctx access target line := by
  simp only [Semantics.input, Exec.input, assign_ofExec]
  rfl

theorem openFile_ofExec (access : Access) (file : Expr) (mode : FileMode) (line : Nat) :
    (ofExec ctx).openFile ctx access file mode line = Exec.openFile ctx access file mode line := by
  simp only [Semantics.openFile, Exec.openFile, evalFileName, eval_ofExec, bind_assoc]
  cases mode <;> rfl

theorem readFile_ofExec (access : Access) (file target : Expr) (line : Nat) :
    (ofExec ctx).readFile ctx access file target line = Exec.readFile ctx access file target line := by
  simp only [Semantics.readFile, Exec.readFile, evalFileName, eval_ofExec, assign_ofExec, bind_assoc]
  simp only [ofExec, readNamed, bind_assoc]
  refine bind_congr fun _ => bind_congr fun _ => bind_congr fun name => bind_congr fun _ =>
    bind_congr fun m => ?_
  cases m.files.readLine name <;> rfl

theorem writeFile_ofExec (access : Access) (file value : Expr) (line : Nat) :
    (ofExec ctx).writeFile ctx access file value line = Exec.writeFile ctx access file value line := by
  simp only [Semantics.writeFile, Exec.writeFile, evalFileName, eval_ofExec, bind_assoc]
  simp only [ofExec, writeNamed, bind_assoc]
  refine bind_congr fun _ => bind_congr fun _ => bind_congr fun name => bind_congr fun _ =>
    bind_congr fun m => ?_
  cases m.files.checkWritable name <;> rfl

theorem closeFile_ofExec (access : Access) (file : Expr) (line : Nat) :
    (ofExec ctx).closeFile ctx access file line = Exec.closeFile ctx access file line := by
  simp only [Semantics.closeFile, Exec.closeFile, evalFileName, eval_ofExec, bind_assoc]
  rfl

theorem callNamed_ofExec (access : Access) (name : String) (args : List Expr) (line : Nat) :
    (ofExec ctx).callNamed ctx access name args line = Exec.callNamed ctx access name args line := by
  simp only [Semantics.callNamed, Exec.callNamed]
  cases ctx.definition? name with
  | none => rfl
  | some d =>
    cases kind : d.isFunction with
    | true =>
      simp only [kind, ↓reduceIte]
      rfl
    | false =>
      simp only [kind, Bool.false_eq_true, ↓reduceIte]
      refine permit_bind ctx d args.length line _ _ fun run below => ?_
      rw [evalBindings_ofExec]
      refine bind_congr fun bindings => ?_
      rw [runBody_ofExec ctx below, callProcedure_eq]
      rfl

theorem giveBack_ofExec (value : Option Expr) (line : Nat) :
    (ofExec ctx).giveBack ctx value line = Exec.giveBack ctx value line := by
  simp only [Semantics.giveBack, Exec.giveBack, eval_ofExec]
  simp only [ofExec, requireCall, bind_assoc]
  refine bind_congr fun m => ?_
  cases m.calls.isEmpty <;> rfl

theorem count_ofExec (name : String) (start stop : Expr) (step : Option Expr) (body : Exec σ Flow)
    (line : Nat) :
    (ofExec ctx).count ctx name start stop step body line =
      Exec.forLoop ctx name start stop step body line := by
  simp only [Semantics.count, Exec.forLoop, evalNumber_ofExec]
  refine bind_congr fun first => bind_congr fun last => ?_
  cases step with
  | none =>
    simp only [evalStep]
    refine bind_congr fun step => ?_
    cases step == 0 <;> rfl
  | some e =>
    simp only [evalStep, evalNumber_ofExec]
    refine bind_congr fun step => ?_
    cases step == 0 <;> rfl

mutual

theorem execStmt_ofExec (access : Access) :
    (st : Stmt) → (ofExec ctx).execStmt ctx access st = Exec.execStmt ctx access st
  | .declare .. | .define _ => by
    simp only [Semantics.execStmt, Exec.execStmt]
    rfl
  | .constant .. | .assign .. | .output .. | .input .. | .call .. | .giveBack .. | .openFile ..
  | .readFile .. | .writeFile .. | .closeFile .. | .free .. => by
    simp only [Semantics.execStmt, Exec.execStmt, eval_ofExec, assign_ofExec, output_ofExec, input_ofExec,
      callNamed_ofExec, giveBack_ofExec, openFile_ofExec, readFile_ofExec, writeFile_ofExec,
      closeFile_ofExec]
    rfl
  | .ifThen condition thenBranch elseBranch l => by
    simp only [Semantics.execStmt, Exec.execStmt, evalCondition_ofExec,
      execBlock_ofExec access thenBranch, execElse_ofExec access elseBranch]
    rfl
  | .whileDo condition body l => by
    simp only [Semantics.execStmt, Exec.execStmt, evalCondition_ofExec, execBlock_ofExec access body]
    rfl
  | .repeatUntil body condition l => by
    simp only [Semantics.execStmt, Exec.execStmt, evalCondition_ofExec, execBlock_ofExec access body]
    rfl
  | .forTo counter start stop step body l => by
    simp only [Semantics.execStmt, Exec.execStmt, count_ofExec, execBlock_ofExec access body]
    rfl
  | .caseOf subject branches otherwise l => by
    simp only [Semantics.execStmt, Exec.execStmt, eval_ofExec, execElse_ofExec access otherwise,
      execBranches_ofExec access _ _ branches]
    rfl

theorem execBlock_ofExec (access : Access) :
    (sts : List Stmt) → (ofExec ctx).execBlock ctx access sts = Exec.execBlock ctx access sts
  | [] => by simp only [Semantics.execBlock, Exec.execBlock]
  | st :: rest => by
    simp only [Semantics.execBlock, Exec.execBlock, execStmt_ofExec access st, execBlock_ofExec access rest]
    rfl

theorem execElse_ofExec (access : Access) :
    (body : Option (List Stmt)) → (ofExec ctx).execElse ctx access body = Exec.execElse ctx access body
  | none => by simp only [Semantics.execElse, Exec.execElse]
  | some body => by simp only [Semantics.execElse, Exec.execElse, execBlock_ofExec access body]

theorem execBranches_ofExec (access : Access) (subject : Value) (otherwise : Exec σ Flow) :
    (branches : List (CaseBranch Stmt)) →
      (ofExec ctx).execBranches ctx access subject otherwise branches =
        Exec.execBranches ctx access subject otherwise branches
  | [] => by simp only [Semantics.execBranches, Exec.execBranches]
  | ⟨label, body, _⟩ :: rest => by
    simp only [Semantics.execBranches, Exec.execBranches, execBlock_ofExec access body,
      execBranches_ofExec access subject otherwise rest]

end

end OfExec

/-- What does not change where `frames` more calls may be nested. -/
def runContext (host : Host σ) (config : Config) (definitions : List (Definition Stmt)) (frames : Nat) :
    Context σ where
  host
  config
  definitions
  below := match frames with
    | 0 => none
    | frames + 1 => some (runBlock host config definitions frames)

theorem runBlock_eq (host : Host σ) (config : Config) (definitions : List (Definition Stmt)) (frames : Nat)
    (access : Access) (sts : List Stmt) :
    runBlock host config definitions frames access sts =
      (ofExec (runContext host config definitions frames)).execBlock
        (runContext host config definitions frames) access sts := by
  rw [execBlock_ofExec]
  cases frames <;> rfl

theorem exec_ofExec (p : Program) (host : Host σ) (config : Config) :
    (ofExec (runContext host config p.definitions config.maxDepth)).exec
        (runContext host config p.definitions config.maxDepth) p = p.exec host config := by
  simp only [Semantics.exec, Program.exec, ← runBlock_eq]
  simp only [ofExec, checkDefinitions]
  cases duplicate? [] p.definitions with
  | none =>
    simp only [pure_bind]
    refine bind_congr fun flow => ?_
    cases flow <;> rfl
  | some d => rfl

end Pseudocode.Semantics
