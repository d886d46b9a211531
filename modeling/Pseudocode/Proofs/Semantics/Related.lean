import Pseudocode.Proofs.Semantics.Bounded
import Pseudocode.Proofs.Semantics.Congruence

/-!
Two bounded runs, under two limits of the trace and with two lists of definitions in which the same are found.
A relation that holds of the steps, of sequences, and of the counting of loop passes holds of the loops; if it
also holds of calls whose bodies are related, it holds of runs at every depth (`runBlock_related`).
-/

namespace Pseudocode.Semantics

open Exec

/-- A relation holds of sequences, of the counting of loop passes, and of the refusal of a call. -/
structure Counted {W : Type} (L : Relation W (Exec σ) (Exec σ)) (κ : Knowledge W) (config : Config) :
    Prop extends Sequenced L κ where
  tick {w : W} (line : Nat) : L w (fun _ _ => True) (tick config line) (tick config line)
  overrun {α : Type} {w : W} {Q : W → α → Prop} (line : Nat) :
    L w Q (overrun config line) (overrun config line)
  passesLeft {w : W} : L w (fun _ _ => True) (passesLeft config) (passesLeft config)
  refuse {w : W} {Q : W → Unit → Prop} (name : String) (line : Nat) :
    L w Q (fail (.recursionLimit name config.maxDepth) line) (fail (.recursionLimit name config.maxDepth) line)

theorem Sequenced.flows {W : Type} {L : Relation W (Exec σ) (Exec σ)} {κ : Knowledge W} (h : Sequenced L κ) :
    FlowSequenced L κ fun w => L w κ.flow :=
  .of_sequences h.pure h.bind

namespace FlowSequenced

variable {σ W : Type} {L : Relation W (Exec σ) (Exec σ)} {κ : Knowledge W} {config : Config} {limit : Nat}
  {line : Nat} {w : W} {F : W → Exec σ Flow → Exec σ Flow → Prop} (fl : FlowSequenced L κ F)
  (h : Counted L κ config) {condition condition' : Exec σ Bool} {body body' : Exec σ Flow}

include fl h

/-- A loop without passes left fails, so nothing is asked of the flow. -/
theorem overrun : F w (Exec.overrun config line) (Exec.overrun config line) := by
  rw [← bind_pure (Exec.overrun config line)]
  exact fl.bind (Q := fun _ _ => False) (h.overrun line) fun _ _ _ impossible => impossible.elim

-- By induction on the passes that may still begin; each begins at a stage of its own.
theorem whilePasses (passes : Nat) (onBody : ∀ w', κ.Later w w' → F w' body body')
    (onCondition : ∀ w', κ.Later w w' → L.any w' condition condition') :
    F w (Exec.whilePasses config condition body line passes)
      (Exec.whilePasses { config with traceLimit := limit } condition' body' line passes) := by
  induction passes generalizing w with
  | zero =>
    refine fl.bind (onCondition w (κ.refl w)) fun w₁ truth l₁ _ => ?_
    cases truth with
    | false => exact fl.normal
    | true => exact fl.overrun h
  | succ passes ih =>
    refine fl.bind (onCondition w (κ.refl w)) fun w₁ truth l₁ _ => ?_
    cases truth with
    | false => exact fl.normal
    | true =>
      refine fl.bind (h.tick line) fun w₂ _ l₂ _ => ?_
      refine fl.followedBy (onBody w₂ (κ.trans l₁ l₂)) fun w₃ l₃ => ?_
      have later := κ.trans (κ.trans l₁ l₂) l₃
      exact ih (fun w' l => onBody w' (κ.trans later l)) fun w' l => onCondition w' (κ.trans later l)

theorem repeatPasses (passes : Nat) (onBody : ∀ w', κ.Later w w' → F w' body body')
    (onCondition : ∀ w', κ.Later w w' → L.any w' condition condition') :
    F w (Exec.repeatPasses config condition body line passes)
      (Exec.repeatPasses { config with traceLimit := limit } condition' body' line passes) := by
  induction passes generalizing w with
  | zero => exact fl.overrun h
  | succ passes ih =>
    refine fl.bind (h.tick line) fun w₁ _ l₁ _ => ?_
    refine fl.followedBy (onBody w₁ l₁) fun w₂ l₂ => ?_
    refine fl.bind (onCondition w₂ (κ.trans l₁ l₂)) fun w₃ truth l₃ _ => ?_
    have later := κ.trans (κ.trans l₁ l₂) l₃
    cases truth with
    | false => exact ih (fun w' l => onBody w' (κ.trans later l)) fun w' l => onCondition w' (κ.trans later l)
    | true => exact fl.normal

theorem forPasses (passes : Nat) {counter counter' : Exec σ Float} (continues : Float → Bool)
    {advance advance' : Float → Exec σ Unit} (onBody : ∀ w', κ.Later w w' → F w' body body')
    (onCounter : ∀ w', κ.Later w w' → L.any w' counter counter')
    (onAdvance : ∀ w' x, κ.Later w w' → L.any w' (advance x) (advance' x)) :
    F w (Exec.forPasses config counter continues advance body line passes)
      (Exec.forPasses { config with traceLimit := limit } counter' continues advance' body' line passes) := by
  induction passes generalizing w with
  | zero =>
    refine fl.bind (onCounter w (κ.refl w)) fun w₁ x l₁ _ => ?_
    split
    · exact fl.overrun h
    · exact fl.normal
  | succ passes ih =>
    refine fl.bind (onCounter w (κ.refl w)) fun w₁ x l₁ _ => ?_
    split
    · refine fl.bind (h.tick line) fun w₂ _ l₂ _ => ?_
      refine fl.followedBy (onBody w₂ (κ.trans l₁ l₂)) fun w₃ l₃ => ?_
      have l₁₃ := κ.trans (κ.trans l₁ l₂) l₃
      refine fl.bind (onCounter w₃ l₁₃) fun w₄ y l₄ _ => ?_
      refine fl.bind (onAdvance w₄ y (κ.trans l₁₃ l₄)) fun w₅ _ l₅ _ => ?_
      have later := κ.trans (κ.trans l₁₃ l₄) l₅
      exact ih (fun w' l => onBody w' (κ.trans later l)) (fun w' l => onCounter w' (κ.trans later l))
        fun w' x l => onAdvance w' x (κ.trans later l)
    · exact fl.normal

/-- A loop begins with the count of the passes that are left. -/
theorem whileLoop (line : Nat) (onCondition : ∀ w', κ.Later w w' → L.any w' condition condition')
    (onBody : ∀ w', κ.Later w w' → F w' body body') :
    F w (Exec.passesLeft config >>= Exec.whilePasses config condition body line)
      (Exec.passesLeft config >>= Exec.whilePasses { config with traceLimit := limit } condition' body' line) :=
  fl.bind h.passesLeft fun _ passes later _ =>
    fl.whilePasses h passes (fun w' l => onBody w' (κ.trans later l)) fun w' l => onCondition w' (κ.trans later l)

theorem repeatLoop (line : Nat) (onBody : ∀ w', κ.Later w w' → F w' body body')
    (onCondition : ∀ w', κ.Later w w' → L.any w' condition condition') :
    F w (Exec.passesLeft config >>= Exec.repeatPasses config condition body line)
      (Exec.passesLeft config >>= Exec.repeatPasses { config with traceLimit := limit } condition' body' line) :=
  fl.bind h.passesLeft fun _ passes later _ =>
    fl.repeatPasses h passes (fun w' l => onBody w' (κ.trans later l)) fun w' l => onCondition w' (κ.trans later l)

theorem forLoop {counter counter' : Exec σ Float} (continues : Float → Bool)
    {advance advance' : Float → Exec σ Unit} {body body' : Exec σ Flow} (line : Nat)
    (onCounter : ∀ w', κ.Later w w' → L.any w' counter counter')
    (onAdvance : ∀ w' x, κ.Later w w' → L.any w' (advance x) (advance' x))
    (onBody : ∀ w', κ.Later w w' → F w' body body') :
    F w (Exec.passesLeft config >>= Exec.forPasses config counter continues advance body line)
      (Exec.passesLeft config >>=
        Exec.forPasses { config with traceLimit := limit } counter' continues advance' body' line) :=
  fl.bind h.passesLeft fun _ passes later _ =>
    fl.forPasses h passes continues (fun w' l => onBody w' (κ.trans later l))
      (fun w' l => onCounter w' (κ.trans later l)) fun w' x l => onAdvance w' x (κ.trans later l)

end FlowSequenced

namespace Counted

variable {σ W : Type} {L : Relation W (Exec σ) (Exec σ)} {κ : Knowledge W} {config : Config} {limit : Nat}
  {line : Nat} {w : W} {definitions' : List (Definition Stmt)}

/-- Whether a call is permitted depends on the frames that are left. -/
theorem permit (h : Counted L κ config) (host : Host σ) (definitions : List (Definition Stmt)) (frames : Nat)
    (d : Definition Stmt) (arguments line : Nat) :
    L w (fun _ _ => True) ((ofExec (runContext host config definitions frames)).permit d arguments line)
      ((ofExec (runContext host { config with traceLimit := limit } definitions' frames)).permit d arguments
        line) := by
  simp only [ofExec, runnerFor]
  split
  · cases frames with
    | zero => exact h.refuse d.name line
    | succ below => exact h.pure trivial
  · exact h.throw trivial

/-- Calls are related if their bodies are. -/
def Calls (L : Relation W (Exec σ) (Exec σ)) (κ : Knowledge W) : Prop :=
  ∀ {w : W} (d : Definition Stmt) (kind : CallableKind) {bindings : List Binding} (line : Nat)
    {body body' : Exec σ Flow}, κ.bindings w d.params bindings → (∀ w, L w κ.flow body body') →
    L w (fun w ended => κ.flow w ended.1)
      (do enter d kind bindings line; let result ← Exec.attempt body; closeCall line result)
      (do enter d kind bindings line; let result ← Exec.attempt body'; closeCall line result)

variable {A : Access → Access → Prop}

/-- One level of calls, given the bodies of the callables one level below. -/
theorem semantics (h : Counted L κ config) (host : Host σ) (definitions : List (Definition Stmt))
    (frames : Nat) (steps : Steps L κ A (runContext host config definitions frames)
      (runContext host { config with traceLimit := limit } definitions' frames))
    (calls : Calls L κ)
    (onBody : ∀ w access access', A access access' → ∀ sts,
      L w κ.flow ((ofExec (runContext host config definitions frames)).body access sts)
      ((ofExec (runContext host { config with traceLimit := limit } definitions' frames)).body access' sts)) :
    Congruence (ofExec (runContext host config definitions frames))
      (ofExec (runContext host { config with traceLimit := limit } definitions' frames))
      (runContext host config definitions frames)
      (runContext host { config with traceLimit := limit } definitions' frames) L L κ A True where
  steps := steps
  pure := h.pure
  bind := h.bind
  lift step := step
  boundary statement := statement
  whileLoop := h.flows.whileLoop h
  repeatLoop := h.flows.repeatLoop h
  forLoop := h.flows.forLoop h
  permit _ arguments line := h.permit host definitions frames _ arguments line
  call _ access access' rights d kind _ line known :=
    calls d kind line known fun w => onBody w access access' rights d.body

/-- Runs are related at every depth. -/
theorem runBlock_related (h : Counted L κ config) (host : Host σ) (definitions : List (Definition Stmt))
    (steps : ∀ frames, Steps L κ A (runContext host config definitions frames)
      (runContext host { config with traceLimit := limit } definitions' frames))
    (calls : Calls L κ) (frames : Nat) :
    Congruence (ofExec (runContext host config definitions frames))
      (ofExec (runContext host { config with traceLimit := limit } definitions' frames))
      (runContext host config definitions frames)
      (runContext host { config with traceLimit := limit } definitions' frames) L L κ A True := by
  induction frames with
  | zero => exact h.semantics host definitions 0 (steps 0) calls fun _ _ _ _ _ => h.pure trivial
  | succ frames ih =>
    refine h.semantics host definitions (frames + 1) (steps _) calls fun w access access' rights sts => ?_
    show L w _ (runBlock host config definitions frames access sts)
      (runBlock host { config with traceLimit := limit } definitions' frames access' sts)
    rw [runBlock_eq, runBlock_eq]
    exact ih.execBlock rights w sts

end Counted

end Pseudocode.Semantics
