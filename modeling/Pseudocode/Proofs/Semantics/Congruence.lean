import Pseudocode.Proofs.Causes
import Pseudocode.Proofs.Semantics

/-!
Two runs of one program. If a relation holds between the steps that two semantics take, between what
they make of loops and calls, and between sequences of related computations, then it holds between
what they make of every expression, statement and program. With a relation that looks at one side
only this is the induction behind every invariant of runs.

What is known of values and cells may depend on the stage that a run has come to, if it stays true at
all later stages: a relation holds of computations that begin at a stage, and what it says of a result
is said at the stage where that is given.
-/

namespace Pseudocode

/-- What is known, at the stages of a run, of the values and of the cells that are passed around. -/
structure Knowledge (W : Type) where
  Later : W → W → Prop
  value : W → Value → Prop
  cell : W → CellId → Prop
  refl (w : W) : Later w w
  trans {a b c : W} : Later a b → Later b c → Later a c
  value_later {w w' : W} {v : Value} : Later w w' → value w v → value w' v
  cell_later {w w' : W} {c : CellId} : Later w w' → cell w c → cell w' c

/-- A relation between computations of two kinds that give the same results and begin at a stage. `Q`
is what is known of a result at the stage where it is given. -/
abbrev Relation (W : Type) (M N : Type → Type) := ⦃α : Type⦄ → W → (W → α → Prop) → M α → N α → Prop

namespace Relation

variable {W : Type} {M N : Type → Type} {α : Type}

/-- Of the result nothing is known. -/
abbrev any (R : Relation W M N) (w : W) (x : M α) (y : N α) : Prop := R w (fun _ _ => True) x y

/-- A computation is related to itself. -/
abbrev self (L : Relation W M M) (w : W) (Q : W → α → Prop) (x : M α) : Prop := L w Q x x

/-- A property of the first of two computations. -/
abbrev onLeft (P : {α : Type} → W → (W → α → Prop) → M α → Prop) : Relation W M N := fun _ w Q x _ => P w Q x

abbrev same (L : Relation W M M) (w : W) (x : M α) : Prop := L.self w (fun _ _ => True) x

end Relation

/-- A relation in which the stage does not matter. -/
abbrev FlatRelation (M N : Type → Type) := ⦃α : Type⦄ → (α → Prop) → M α → N α → Prop

/-- A relation with a single stage. -/
abbrev FlatRelation.staged {M N : Type → Type} (R : FlatRelation M N) : Relation Unit M N :=
  fun _ _ Q x y => R (Q ()) x y

/-- The value that a callable returns has a property. -/
def Flow.Holds (V : Value → Prop) : Flow → Prop
  | .returned (some v) => V v
  | _ => True

theorem Flow.normal_ne_halt : Flow.normal ≠ Flow.halt := nofun

theorem Flow.returned_ne_halt {v : Option Value} : Flow.returned v ≠ Flow.halt := nofun

/-- A property that all values have which are not read from memory. -/
structure Value.Closed (V : Value → Prop) : Prop where
  literal (l : Literal) : V (.ofLiteral l)
  number (x : Float) : V (.number x)
  boolean (b : Bool) : V (.boolean b)
  address (a : Nat) : V (.address a)
  binary {op : BinaryOperator} {a b v : Value} : V a → V b → op.apply a b = .ok v → V v
  unary {op : UnaryOperator} {a v : Value} : V a → op.apply a = .ok v → V v
  builtin {b : Builtin} {x : Float} {args : List Value} {v : Value} :
    (∀ a ∈ args, V a) → b.apply x args = .ok v → V v
  input {type : DataType} {raw : String} {v : Value} : Value.ofInput? type raw = some v → V v

theorem Value.Closed.true : Value.Closed fun _ => True := by
  constructor <;> intros <;> trivial

namespace Knowledge

/-- Nothing is known, and any stage may follow any other. -/
def nothing {W : Type} : Knowledge W where
  Later _ _ := True
  value _ _ := True
  cell _ _ := True
  refl _ := trivial
  trans _ _ := trivial
  value_later _ _ := trivial
  cell_later _ _ := trivial

/-- What is known where a stage is looked at in part. -/
def comap {W W' : Type} (κ : Knowledge W) (part : W' → W) : Knowledge W' where
  Later a b := κ.Later (part a) (part b)
  value w := κ.value (part w)
  cell w := κ.cell (part w)
  refl w := κ.refl (part w)
  trans := κ.trans
  value_later := κ.value_later
  cell_later := κ.cell_later

variable {W : Type} (κ : Knowledge W)

/-- The value that a callable returns is known. -/
def flow (w : W) (f : Flow) : Prop := f.Holds (κ.value w)

/-- What a parameter is given is known, and a value fits the parameter. -/
def binding (w : W) (p : Param) : Binding → Prop
  | .copied v => κ.value w v ∧ v.conforms p.type = true
  | .shared cell => κ.cell w cell

/-- What some parameters are given is known. -/
def bindings (w : W) : List Param → List Binding → Prop
  | p :: ps, b :: bs => κ.binding w p b ∧ bindings w ps bs
  | _, _ => True

theorem binding_later {w w' : W} (later : κ.Later w w') {p : Param} {b : Binding} (known : κ.binding w p b) :
    κ.binding w' p b := by
  cases b with
  | copied v => exact ⟨κ.value_later later known.1, known.2⟩
  | shared cell => exact κ.cell_later later known

variable {bs : List Binding} {ps : List Param}

theorem binding_of_mem_zip {w : W} (known : κ.bindings w ps bs) {p : Param} {b : Binding}
    (member : (p, b) ∈ ps.zip bs) : κ.binding w p b := by
  induction ps generalizing bs with
  | nil => simp at member
  | cons q ps ih =>
    cases bs with
    | nil => simp at member
    | cons c bs =>
      rcases List.mem_cons.1 member with same | rest
      · cases same
        exact known.1
      · exact ih known.2 rest

/-- Bindings are known if each of them is. -/
theorem bindings_imp {W' : Type} {κ' : Knowledge W'} {w : W} {w' : W'}
    (each : ∀ p b, κ.binding w p b → κ'.binding w' p b) (known : κ.bindings w ps bs) : κ'.bindings w' ps bs := by
  induction ps generalizing bs with
  | nil => trivial
  | cons p ps ih =>
    cases bs with
    | nil => trivial
    | cons b bs => exact ⟨each p b known.1, ih known.2⟩

theorem bindings_comap {W' : Type} {part : W' → W} {w : W'} :
    (κ.comap part).bindings w ps bs ↔ κ.bindings (part w) ps bs := by
  have same (p : Param) (b : Binding) : (κ.comap part).binding w p b ↔ κ.binding (part w) p b := by
    cases b <;> rfl
  exact ⟨bindings_imp _ fun p b => (same p b).1, bindings_imp _ fun p b => (same p b).2⟩

end Knowledge

namespace Semantics

open Exec

/-- A relation holds between sequences of related computations. Errors that report the end of a budget are
not among them. -/
structure Sequenced {W : Type} (L : Relation W (Exec σ) (Exec σ)) (κ : Knowledge W) : Prop where
  pure {α : Type} {w : W} {Q : W → α → Prop} {a : α} : Q w a → L w Q (pure a) (pure a)
  throw {α : Type} {w : W} {Q : W → α → Prop} {e : RuntimeError} :
    e.cause.Ordinary → L w Q (throw e) (throw e)
  bind {α β : Type} {w : W} {P : W → α → Prop} {Q : W → β → Prop} {x y : Exec σ α} {f g : α → Exec σ β} :
    L w P x y → (∀ w' a, κ.Later w w' → P w' a → L w' Q (f a) (g a)) → L w Q (x >>= f) (y >>= g)

/-- A relation between flows holds of sequences that begin with related computations. -/
structure FlowSequenced {W : Type} {M N : Type → Type} [Monad M] [Monad N] (R : Relation W M N)
    (κ : Knowledge W) (F : W → M Flow → N Flow → Prop) : Prop where
  normal {w : W} : F w (pure .normal) (pure .normal)
  bind {α : Type} {w : W} {Q : W → α → Prop} {x : M α} {y : N α} {f : α → M Flow} {g : α → N Flow} :
    R w Q x y → (∀ w' a, κ.Later w w' → Q w' a → F w' (f a) (g a)) → F w (x >>= f) (y >>= g)
  followedBy {w : W} {x x' : M Flow} {y y' : N Flow} :
    F w x y → (∀ w', κ.Later w w' → F w' x' y') →
      F w (do let flow ← x; followedBy flow x') (do let flow ← y; followedBy flow y')

namespace FlowSequenced

variable {W : Type} {M N : Type → Type} [Monad M] [Monad N] {R : Relation W M N} {κ : Knowledge W}

/-- Flows may be related as other computations are. -/
theorem of_sequences
    (pure : ∀ {w : W} {Q : W → Flow → Prop} {flow : Flow}, Q w flow → R w Q (pure flow) (Pure.pure flow))
    (bind : ∀ {α : Type} {w : W} {Q : W → α → Prop} {x : M α} {y : N α} {f : α → M Flow} {g : α → N Flow},
      R w Q x y → (∀ w' a, κ.Later w w' → Q w' a → R w' κ.flow (f a) (g a)) →
        R w κ.flow (x >>= f) (y >>= g)) :
    FlowSequenced R κ fun w => R w κ.flow where
  normal := pure trivial
  bind := bind
  followedBy first next := by
    refine bind first fun w' flow later known => ?_
    cases flow with
    | normal => exact next w' later
    | returned v => exact pure known
    | halt => exact pure trivial

end FlowSequenced

/-- The steps that look at memory or change it are related to themselves, if what is stored is known. -/
structure MemoryRelated {W : Type} (L : Relation W (Exec σ) (Exec σ)) (κ : Knowledge W) : Prop where
  find {w : W} (name : String) (line : Nat) : L.self w (fun w found => κ.cell w found.1) (find name line)
  readVariable {w : W} (name : String) (line : Nat) : L.self w κ.value (readVariable name line)
  readElement {w : W} (name : String) (indices : List Int) (line : Nat) :
    L.self w κ.value (readElement name indices line)
  readThrough {w : W} (address line : Nat) : L.self w κ.value (readThrough address line)
  counterValue {w : W} {cell : CellId} (name : String) (line : Nat) :
    κ.cell w cell → L.same w (counterValue cell name line)
  addressOf {w : W} (name : String) (line : Nat) : L.same w (addressOf name line)
  allocateBlock {w : W} (count : Float) (tag : Option DataType) (line : Nat) :
    L.self w κ.value (allocateBlock count tag line)
  freeBlock {w : W} (v : Value) (line : Nat) : L.same w (freeBlock v line)
  declare {w : W} (name : String) (type : DataType) (line : Nat) : L.same w (declare name type line)
  declareConstant {w : W} (name : String) {v : Value} (line : Nat) :
    κ.value w v → L.same w (declareConstant name v line)
  assignVariable {w : W} (name : String) {v : Value} (line : Nat) :
    κ.value w v → L.same w (assignVariable name v line)
  assignElement {w : W} (name : String) (indices : List Int) {v : Value} (line : Nat) :
    κ.value w v →
      L.same w (assignElement name indices v line)
  assignThrough {w : W} (address : Nat) {v : Value} (line : Nat) :
    κ.value w v → L.same w (assignThrough address v line)
  counterCell {w : W} (name : String) (line : Nat) : L.self w κ.cell (counterCell name line)

/-- So are the steps that have nothing to do with memory and need no rights. -/
structure QuietRelated {W : Type} (L : Relation W (Exec σ) (Exec σ)) (κ : Knowledge W) : Prop where
  currentLine {w : W} : L.same w currentLine
  fileEnds {w : W} (v : Value) (line : Nat) : L.self w κ.value (fileEnds v line)
  draw {w : W} : L.same w draw
  requireCall {w : W} (line : Nat) : L.same w (requireCall line)

/-- The steps of the machine are related in two contexts. `A` holds of the rights that statements have
in the two runs. -/
structure Steps {W : Type} (L : Relation W (Exec σ) (Exec σ)) (κ : Knowledge W) (A : Access → Access → Prop)
    (ctx ctx' : Context σ) : Prop extends Sequenced L κ, MemoryRelated L κ, QuietRelated L κ where
  values (w : W) : Value.Closed (κ.value w)
  definitions (name : String) : ctx'.definition? name = ctx.definition? name
  denied : A .denied .denied
  interrupted {w : W} {access access' : Access} (rights : A access access') (st : Stmt) :
    L.any w (interrupted ctx access st) (interrupted ctx' access' st)
  requireHost {w : W} {access access' : Access} (rights : A access access') (statement : String)
    (line : Nat) :
    L w (fun _ _ => access = .granted) (requireHost access statement line)
      (requireHost access' statement line)
  emit {w : W} {access' : Access} (rights : A .granted access') (l : OutputLine) :
    L.any w (emit ctx.host l) (emit ctx'.host l)
  echo {w : W} {access' : Access} (rights : A .granted access') (text : String) (line : Nat) :
    L.any w (echo ctx text line) (echo ctx' text line)
  askInput {w : W} {access' : Access} (rights : A .granted access') (name : String) (type : DataType) :
    L.any w (askInput ctx.host name type) (askInput ctx'.host name type)
  openNamed {w : W} {access' : Access} (rights : A .granted access') (name : String) (mode : FileMode)
    (line : Nat) :
    L.any w (openNamed ctx.host name mode line) (openNamed ctx'.host name mode line)
  readNamed {w : W} {access' : Access} (rights : A .granted access') (name : String) (line : Nat) :
    L.same w (readNamed name line)
  writeNamed {w : W} {access' : Access} (rights : A .granted access') (name text : String) (line : Nat) :
    L.same w (writeNamed name text line)
  closeNamed {w : W} {access' : Access} (rights : A .granted access') (name : String) (line : Nat) :
    L.same w (closeNamed name line)

namespace Steps

variable {σ W : Type} {L : Relation W (Exec σ) (Exec σ)} {κ : Knowledge W} {A : Access → Access → Prop}
  {ctx ctx' : Context σ} (h : Steps L κ A ctx ctx') {w : W}

include h

theorem fail {Q : W → α → Prop} {cause : Cause} (line : Nat) (ordinary : cause.Ordinary) :
    L w Q (Exec.fail cause line) (Exec.fail cause line) :=
  h.throw ordinary

theorem ofExcept {Q : W → α → Prop} (line : Nat) {x : Except Cause α} (checked : Checked x)
    (known : ∀ a, x = .ok a → Q w a) : L w Q (Exec.ofExcept line x) (Exec.ofExcept line x) := by
  cases x with
  | error cause => exact h.fail line (checked cause rfl)
  | ok a => exact h.pure (known a rfl)

theorem pointee (v : Value) (line : Nat) : L.same w (pointee v line) := by
  cases v <;> first | exact h.pure trivial | exact h.fail _ trivial

theorem asNumber (v : Value) (what : String) (line : Nat) : L.same w (asNumber v what line) := by
  cases v <;> first | exact h.pure trivial | exact h.fail _ trivial

theorem truthOf (construct : String) (line : Nat) (v : Value) : L.same w (truthOf construct line v) := by
  cases v <;> first | exact h.pure trivial | exact h.fail _ trivial

theorem fileName (v : Value) (line : Nat) : L.same w (fileName v line) := by
  cases v <;> first | exact h.pure trivial | exact h.fail _ trivial

theorem callBuiltin (b : Builtin) {args : List Value} (line : Nat) (known : ∀ a ∈ args, κ.value w a) :
    L.self w κ.value (callBuiltin b args line) := by
  have applied (w' : W) (later : κ.Later w w') (x : Float) :
      L.self w' κ.value (Exec.ofExcept line (b.apply x args)) :=
    h.ofExcept line (b.apply_checked x args) fun v =>
      (h.values w').builtin fun a there => κ.value_later later (known a there)
  simp only [Exec.callBuiltin]
  split
  · exact h.bind h.draw fun w' x later _ => applied w' later x
  · exact applied w (κ.refl w) 0

theorem shareArgument (d : Definition Stmt) (p : Param) (arg : Expr) (line : Nat) :
    L.self w (fun w => κ.binding w p) (shareArgument d p arg line) := by
  cases arg with
  | identifier name l =>
    refine h.bind (h.find name line) fun w' ⟨cell, v⟩ _ known => ?_
    dsimp only
    split
    · exact h.pure known
    · exact h.fail _ trivial
  | _ => exact h.fail _ trivial

theorem copyArgument (d : Definition Stmt) (p : Param) {v : Value} (line : Nat) (known : κ.value w v) :
    L.self w (fun w => κ.binding w p) (copyArgument d p v line) := by
  unfold Exec.copyArgument
  split
  case isTrue fits => exact h.pure ⟨known, fits⟩
  case isFalse => exact h.fail _ trivial

theorem functionResult (d : Definition Stmt) {ended : Flow × Nat} (known : κ.flow w ended.1) :
    L.self w κ.value (functionResult d ended) := by
  obtain ⟨flow, last⟩ := ended
  rcases flow with _ | (_ | v) | _
  · exact h.fail _ trivial
  · exact h.fail _ trivial
  · simp only [Exec.functionResult]
    split
    · split
      · exact h.pure known
      · exact h.fail _ trivial
    · exact h.pure known
  · exact h.fail _ trivial

theorem procedureResult (d : Definition Stmt) (ended : Flow × Nat) : L.self w κ.flow (procedureResult d ended) := by
  obtain ⟨flow, last⟩ := ended
  rcases flow with _ | (_ | v) | _
  · exact h.pure trivial
  · exact h.pure trivial
  · exact h.fail _ trivial
  · exact h.pure trivial

theorem convert (target : Expr) (type : DataType) (raw : String) (line : Nat) :
    L.self w κ.value (convert target type raw line) := by
  unfold Exec.convert
  split
  case h_1 v read => exact h.pure ((h.values w).input read)
  case h_2 => exact h.fail _ trivial

theorem targetType (line : Nat) :
    (target : Expr) → L w (fun _ _ => True) (targetType line target) (targetType line target)
  | .identifier name _ => by
    unfold Exec.targetType
    exact h.bind (h.find name line) fun _ _ _ _ => h.pure trivial
  | .element name _ _ => by
    unfold Exec.targetType
    refine h.bind (h.find name line) fun _ ⟨cell, v⟩ _ _ => ?_
    dsimp only
    split
    · exact h.pure trivial
    · exact h.fail _ trivial
  | .dereference pointer _ => by
    unfold Exec.targetType
    refine h.bind (targetType line pointer) fun _ type _ _ => ?_
    split
    · exact h.pure trivial
    · exact h.fail _ trivial
  | .literal .. | .binary .. | .unary .. | .call .. | .addressOf .. | .allocate .. | .sizeOf ..
  | .endOfFile .. => by
    unfold Exec.targetType
    exact h.fail _ trivial

theorem checkDefinitions (p : Program) : L w (fun _ _ => True) (checkDefinitions p) (checkDefinitions p) := by
  unfold Exec.checkDefinitions
  split
  · exact h.fail _ trivial
  · exact h.pure trivial

theorem outcomeOf (flow : Flow) : L w (fun _ _ => True) (outcomeOf flow) (outcomeOf flow) := by
  cases flow with
  | normal | halt => exact h.pure trivial
  | returned v => exact h.bind h.currentLine fun _ line _ _ => h.fail line trivial

end Steps

/-- Two semantics whose computations are related. `P` holds where a call may be made. -/
structure Congruence {W : Type} {M N : Type → Type} [Monad M] [Monad N] (s : Semantics σ M)
    (t : Semantics σ N) (ctx ctx' : Context σ) (L : Relation W (Exec σ) (Exec σ)) (R : Relation W M N)
    (κ : Knowledge W) (A : Access → Access → Prop) (P : Prop) : Prop where
  steps : Steps L κ A ctx ctx'
  pure {α : Type} {w : W} {Q : W → α → Prop} {a : α} : Q w a → R w Q (pure a) (pure a)
  bind {α β : Type} {w : W} {P : W → α → Prop} {Q : W → β → Prop} {x : M α} {y : N α} {f : α → M β}
    {g : α → N β} :
    R w P x y → (∀ w' a, κ.Later w w' → P w' a → R w' Q (f a) (g a)) → R w Q (x >>= f) (y >>= g)
  lift {α : Type} {w : W} {Q : W → α → Prop} {x y : Exec σ α} : L w Q x y → R w Q (s.lift x) (t.lift y)
  boundary {w : W} {x : M Flow} {y : N Flow} : R w κ.flow x y → R w κ.flow (s.boundary x) (t.boundary y)
  whileLoop {w : W} {c : M Bool} {c' : N Bool} {x : M Flow} {y : N Flow} (line : Nat) :
    (∀ w', κ.Later w w' → R.any w' c c') → (∀ w', κ.Later w w' → R w' κ.flow x y) →
      R w κ.flow (s.whileLoop c x line) (t.whileLoop c' y line)
  repeatLoop {w : W} {c : M Bool} {c' : N Bool} {x : M Flow} {y : N Flow} (line : Nat) :
    (∀ w', κ.Later w w' → R w' κ.flow x y) → (∀ w', κ.Later w w' → R.any w' c c') →
      R w κ.flow (s.repeatLoop x c line) (t.repeatLoop y c' line)
  forLoop {w : W} {i : M Float} {i' : N Float} (continues : Float → Bool) {next : Float → M Unit}
    {next' : Float → N Unit} {x : M Flow} {y : N Flow} (line : Nat) :
    (∀ w', κ.Later w w' → R.any w' i i') →
      (∀ w' a, κ.Later w w' → R.any w' (next a) (next' a)) →
      (∀ w', κ.Later w w' → R w' κ.flow x y) →
      R w κ.flow (s.forLoop i continues next x line) (t.forLoop i' continues next' y line)
  permit {w : W} {name : String} {d : Definition Stmt} (defined : ctx.definition? name = some d)
    (arguments line : Nat) : R w (fun _ _ => P) (s.permit d arguments line) (t.permit d arguments line)
  call {w : W} (allowed : P) {access access' : Access} (rights : A access access') (d : Definition Stmt)
    (kind : CallableKind) {bindings : List Binding} (line : Nat) (known : κ.bindings w d.params bindings) :
    R w (fun w ended => κ.flow w ended.1) (s.runBody access d kind bindings line)
      (t.runBody access' d kind bindings line)

/-- One semantics, whose computations are related to themselves. -/
abbrev SelfCongruence {W : Type} {M : Type → Type} [Monad M] (s : Semantics σ M) (ctx : Context σ)
    (L : Relation W (Exec σ) (Exec σ)) (R : Relation W M M) (κ : Knowledge W) (A : Access → Access → Prop)
    (P : Prop) : Prop :=
  Congruence s s ctx ctx L R κ A P

namespace Congruence

variable {σ W : Type} {M N : Type → Type} [Monad M] [Monad N] {s : Semantics σ M} {t : Semantics σ N}
  {ctx ctx' : Context σ} {L : Relation W (Exec σ) (Exec σ)} {R : Relation W M N} {κ : Knowledge W}
  {A : Access → Access → Prop} {P : Prop} (h : Congruence s t ctx ctx' L R κ A P)

include h

variable {w : W}

theorem fail {Q : W → α → Prop} {cause : Cause} (line : Nat) (ordinary : cause.Ordinary) :
    R w Q (s.lift (Exec.fail cause line)) (t.lift (Exec.fail cause line)) :=
  h.lift (h.steps.fail line ordinary)

theorem ofExcept {Q : W → α → Prop} (line : Nat) {x : Except Cause α} (checked : Checked x)
    (known : ∀ a, x = .ok a → Q w a) : R w Q (s.lift (Exec.ofExcept line x)) (t.lift (Exec.ofExcept line x)) :=
  h.lift (h.steps.ofExcept line checked known)

theorem checked (line : Nat) {x : Except Cause α} (checked : Checked x) :
    R.any w (s.lift (Exec.ofExcept line x)) (t.lift (Exec.ofExcept line x)) :=
  h.ofExcept line checked fun _ _ => trivial

theorem callee (name : String) : Exec.callee ctx' name = Exec.callee ctx name := by
  unfold Exec.callee
  rw [h.steps.definitions]

mutual

theorem eval (w : W) : (e : Expr) → R w κ.value (s.eval ctx e) (t.eval ctx' e)
  | .literal v l => h.pure ((h.steps.values w).literal v)
  | .identifier name l => h.lift (h.steps.readVariable name l.line)
  | .element name indices l => by
    refine h.bind (evalIndices w l.line indices) fun _ indices _ _ => ?_
    exact h.lift (h.steps.readElement name indices l.line)
  | .binary op left right l => by
    refine h.bind (eval w left) fun w₁ a _ first => ?_
    split
    · refine h.bind (h.checked l.line (op.logicalOperand_checked a)) fun w₂ decided later _ => ?_
      split
      · exact h.pure (κ.value_later later first)
      · refine h.bind (eval w₂ right) fun _ b _ _ => ?_
        refine h.bind (h.checked l.line (op.logicalOperand_checked b)) fun w₃ truth _ _ => ?_
        exact h.pure ((h.steps.values w₃).boolean truth)
    · refine h.bind (eval w₁ right) fun w₂ b later second => ?_
      exact h.ofExcept l.line (op.apply_checked a b) fun _ =>
        (h.steps.values w₂).binary (κ.value_later later first) second
  | .unary op operand l => by
    refine h.bind (eval w operand) fun w₁ v _ known => ?_
    exact h.ofExcept l.line (op.apply_checked v) fun _ => (h.steps.values w₁).unary known
  | .call name args l => by
    simp only [Semantics.eval, h.callee name]
    refine h.bind (h.ofExcept (Q := fun _ found => ∀ d, found = .function d → ctx.definition? name = some d) l.line
      (callee_checked ctx name) fun _ => callee_defined) fun w₁ found _ defined => ?_
    cases found with
    | function d =>
      refine h.bind (h.permit (defined d rfl) args.length l.line) fun w₂ _ _ allowed => ?_
      refine h.bind (evalBindings w₂ d l.line d.params args) fun _ bindings _ known => ?_
      refine h.bind (h.call allowed h.steps.denied d .function l.line known) fun _ ended _ returned => ?_
      exact h.lift (h.steps.functionResult d returned)
    | builtin b =>
      refine h.bind (evalAll w₁ args) fun _ args _ known => ?_
      exact h.lift (h.steps.callBuiltin b l.line known)
  | .addressOf (.identifier name _) l => by
    refine h.bind (h.lift (h.steps.addressOf name l.line)) fun w₁ address _ _ => ?_
    exact h.pure ((h.steps.values w₁).address address)
  | .addressOf (.dereference pointer _) l => by
    refine h.bind (eval w pointer) fun _ v _ _ => ?_
    refine h.bind (h.lift (h.steps.pointee v l.line)) fun w₂ address _ _ => ?_
    exact h.pure ((h.steps.values w₂).address address)
  | .addressOf (.literal ..) l | .addressOf (.element ..) l | .addressOf (.binary ..) l
  | .addressOf (.unary ..) l | .addressOf (.call ..) l | .addressOf (.addressOf ..) l
  | .addressOf (.allocate ..) l | .addressOf (.sizeOf ..) l | .addressOf (.endOfFile ..) l => h.fail _ trivial
  | .dereference pointer l => by
    refine h.bind (eval w pointer) fun _ v _ _ => ?_
    refine h.bind (h.lift (h.steps.pointee v l.line)) fun _ address _ _ => ?_
    exact h.lift (h.steps.readThrough address l.line)
  | .allocate size tag l => by
    refine h.bind (eval w size) fun _ v _ _ => ?_
    refine h.bind (h.lift (h.steps.asNumber v _ l.line)) fun _ count _ _ => ?_
    exact h.lift (h.steps.allocateBlock count tag l.line)
  | .sizeOf type l => h.pure ((h.steps.values w).number _)
  | .endOfFile file l => by
    refine h.bind (eval w file) fun _ v _ _ => ?_
    exact h.lift (h.steps.fileEnds v l.line)

theorem evalAll (w : W) :
    (es : List Expr) → R w (fun w vs => ∀ v ∈ vs, κ.value w v) (s.evalAll ctx es) (t.evalAll ctx' es)
  | [] => h.pure (by simp)
  | e :: rest => by
    refine h.bind (eval w e) fun w₁ v _ first => h.bind (evalAll w₁ rest) fun w₂ vs later others => ?_
    exact h.pure (List.forall_mem_cons.2 ⟨κ.value_later later first, others⟩)

theorem evalIndices (w : W) (line : Nat) :
    (es : List Expr) → R.any w (s.evalIndices ctx line es) (t.evalIndices ctx' line es)
  | [] => h.pure trivial
  | e :: rest => by
    refine h.bind (eval w e) fun w₁ v _ _ => ?_
    refine h.bind (h.checked line (indexOf_checked v)) fun w₂ index _ _ => ?_
    exact h.bind (evalIndices w₂ line rest) fun _ indices _ _ => h.pure trivial

theorem evalBindings (w : W) (d : Definition Stmt) (line : Nat) :
    (ps : List Param) → (es : List Expr) →
      R w (fun w => κ.bindings w ps) (s.evalBindings ctx d line ps es) (t.evalBindings ctx' d line ps es)
  | p :: ps, e :: rest => by
    simp only [Semantics.evalBindings]
    cases p.mode with
    | byReference =>
      refine h.bind (h.lift (h.steps.shareArgument d p e line)) fun w₁ binding _ first => ?_
      refine h.bind (evalBindings w₁ d line ps rest) fun _ bindings later others => ?_
      exact h.pure ⟨κ.binding_later later first, others⟩
    | byValue =>
      refine h.bind (eval w e) fun w₁ v _ known => ?_
      refine h.bind (h.lift (h.steps.copyArgument d p line known)) fun w₂ binding _ first => ?_
      refine h.bind (evalBindings w₂ d line ps rest) fun _ bindings later others => ?_
      exact h.pure ⟨κ.binding_later later first, others⟩
  | [], _ => by
    simp only [Semantics.evalBindings]
    exact h.pure trivial
  | _ :: _, [] => by
    simp only [Semantics.evalBindings]
    exact h.pure trivial

end

section Expressions

variable (w : W)

theorem evalCondition (construct : String) (line : Nat) (e : Expr) :
    R.any w (s.evalCondition ctx construct line e) (t.evalCondition ctx' construct line e) :=
  h.bind (h.eval w e) fun _ v _ _ => h.lift (h.steps.truthOf construct line v)

theorem evalNumber (what : String) (line : Nat) (e : Expr) :
    R.any w (s.evalNumber ctx what line e) (t.evalNumber ctx' what line e) :=
  h.bind (h.eval w e) fun _ v _ _ => h.lift (h.steps.asNumber v what line)

theorem evalFileName (file : Expr) (line : Nat) :
    R.any w (s.evalFileName ctx file line) (t.evalFileName ctx' file line) :=
  h.bind (h.eval w file) fun _ v _ _ => h.lift (h.steps.fileName v line)

theorem evalStep (line : Nat) (step : Option Expr) :
    R.any w (s.evalStep ctx line step) (t.evalStep ctx' line step) := by
  cases step with
  | none => exact h.pure trivial
  | some e => exact h.evalNumber w _ line e

theorem assign (target : Expr) {v : Value} (line : Nat) (known : κ.value w v) :
    R.any w (s.assign ctx target v line) (t.assign ctx' target v line) := by
  cases target with
  | identifier name _ => exact h.lift (h.steps.assignVariable name line known)
  | element name indices _ =>
    refine h.bind (h.evalIndices w line indices) fun _ indices later _ => ?_
    exact h.lift (h.steps.assignElement name indices line (κ.value_later later known))
  | dereference pointer _ =>
    refine h.bind (h.eval w pointer) fun _ v first _ => ?_
    refine h.bind (h.lift (h.steps.pointee v line)) fun _ address next _ => ?_
    exact h.lift (h.steps.assignThrough address line (κ.value_later (κ.trans first next) known))
  | _ => exact h.fail _ trivial

end Expressions

section Statements

variable {access access' : Access} (rights : A access access') (w : W)

include rights

theorem output (items : List Expr) (line : Nat) :
    R.any w (s.output ctx access items line) (t.output ctx' access' items line) := by
  refine h.bind (h.lift (h.steps.requireHost rights _ line)) fun w₁ _ _ granted => ?_
  refine h.bind (h.evalAll w₁ items) fun _ values _ _ => ?_
  exact h.lift (h.steps.emit (granted ▸ rights) _)

theorem input (target : Expr) (line : Nat) :
    R w κ.flow (s.input ctx access target line) (t.input ctx' access' target line) := by
  refine h.bind (h.lift (h.steps.requireHost rights _ line)) fun _ _ _ granted => ?_
  refine h.bind (h.lift (h.steps.targetType line target)) fun _ type _ _ => ?_
  refine h.bind (h.lift (h.steps.askInput (granted ▸ rights) _ type)) fun _ answer _ _ => ?_
  cases answer with
  | none => exact h.pure trivial
  | some raw =>
    refine h.bind (h.lift (h.steps.convert target type raw line)) fun _ v _ known => ?_
    refine h.bind (h.lift (h.steps.emit (granted ▸ rights) _)) fun w₁ _ later _ => ?_
    exact h.bind (h.assign w₁ target line (κ.value_later later known)) fun _ _ _ _ => h.pure trivial

theorem openFile (file : Expr) (mode : FileMode) (line : Nat) :
    R.any w (s.openFile ctx access file mode line)
      (t.openFile ctx' access' file mode line) := by
  refine h.bind (h.lift (h.steps.requireHost rights _ line)) fun w₁ _ _ granted => ?_
  refine h.bind (h.evalFileName w₁ file line) fun _ name _ _ => ?_
  exact h.lift (h.steps.openNamed (granted ▸ rights) name mode line)

theorem readFile (file target : Expr) (line : Nat) :
    R.any w (s.readFile ctx access file target line)
      (t.readFile ctx' access' file target line) := by
  refine h.bind (h.lift (h.steps.requireHost rights _ line)) fun w₁ _ _ granted => ?_
  refine h.bind (h.evalFileName w₁ file line) fun _ name _ _ => ?_
  refine h.bind (h.lift (h.steps.targetType line target)) fun _ type _ _ => ?_
  refine h.bind (h.lift (h.steps.readNamed (granted ▸ rights) name line)) fun _ raw _ _ => ?_
  refine h.bind (h.lift (h.steps.convert target type raw line)) fun w₂ v _ known => ?_
  exact h.assign w₂ target line known

theorem writeFile (file value : Expr) (line : Nat) :
    R.any w (s.writeFile ctx access file value line)
      (t.writeFile ctx' access' file value line) := by
  refine h.bind (h.lift (h.steps.requireHost rights _ line)) fun w₁ _ _ granted => ?_
  refine h.bind (h.evalFileName w₁ file line) fun w₂ name _ _ => ?_
  refine h.bind (h.eval w₂ value) fun _ v _ _ => ?_
  refine h.bind (h.lift (h.steps.writeNamed (granted ▸ rights) name _ line)) fun _ _ _ _ => ?_
  exact h.lift (h.steps.echo (granted ▸ rights) _ line)

theorem closeFile (file : Expr) (line : Nat) :
    R.any w (s.closeFile ctx access file line) (t.closeFile ctx' access' file line) := by
  refine h.bind (h.lift (h.steps.requireHost rights _ line)) fun w₁ _ _ granted => ?_
  refine h.bind (h.evalFileName w₁ file line) fun _ name _ _ => ?_
  exact h.lift (h.steps.closeNamed (granted ▸ rights) name line)

end Statements

theorem simply {x : M Unit} {y : N Unit} (related : R.any w x y) : R w κ.flow (simply x) (simply y) :=
  h.bind related fun _ _ _ _ => h.pure trivial

theorem followedBy {flow : Flow} {x : M Flow} {y : N Flow} (known : κ.flow w flow) (next : R w κ.flow x y) :
    R w κ.flow (followedBy flow x) (followedBy flow y) := by
  cases flow with
  | normal => exact next
  | returned v => exact h.pure known
  | halt => exact h.pure trivial

/-- The start of a statement, which is the same for all of them. -/
theorem begin {access access' : Access} (rights : A access access') (w : W) (st : Stmt) {x : M Flow}
    {y : N Flow} (rest : ∀ w, R w κ.flow x y) :
    R w κ.flow
      (s.boundary do if ← s.lift (interrupted ctx access st) then Pure.pure .halt else x)
      (t.boundary do if ← t.lift (interrupted ctx' access' st) then Pure.pure .halt else y) := by
  refine h.boundary (h.bind (h.lift (h.steps.interrupted rights st)) fun w₁ stopped _ _ => ?_)
  cases stopped with
  | true => exact h.pure trivial
  | false => exact rest w₁

/-- A return, for a relation between flows that holds of sequences and of what is returned. -/
theorem giveBack {G : W → M Flow → N Flow → Prop}
    (bind : ∀ {α : Type} {w : W} {Q : W → α → Prop} {x : M α} {y : N α} {f : α → M Flow} {g : α → N Flow},
      R w Q x y → (∀ w' a, κ.Later w w' → Q w' a → G w' (f a) (g a)) → G w (x >>= f) (y >>= g))
    (returned : ∀ {w : W} {v : Option Value}, κ.flow w (.returned v) →
      G w (Pure.pure (.returned v)) (Pure.pure (.returned v)))
    (w : W) (value : Option Expr) (line : Nat) :
    G w (s.giveBack ctx value line) (t.giveBack ctx' value line) := by
  refine bind (h.lift (h.steps.requireCall line)) fun w₁ _ _ _ => ?_
  cases value with
  | none => exact returned trivial
  | some e => exact bind (h.eval w₁ e) fun _ v _ known => returned known

end Congruence

/-- What a relation between the statements of two runs has to know. `G` holds of statements that have
begun, and `F` of whole statements and of blocks; expressions are related by `R`, and stops do not occur
in them. -/
structure Flows {W : Type} {M N : Type → Type} [Monad M] [Monad N] (s : Semantics σ M) (t : Semantics σ N)
    (ctx ctx' : Context σ) (R : Relation W M N) (κ : Knowledge W) (P : Prop) (access access' : Access)
    (F G : W → M Flow → N Flow → Prop) : Prop where
  normal {w : W} : F w (pure .normal) (pure .normal)
  followedBy {w : W} {x x' : M Flow} {y y' : N Flow} :
    F w x y → (∀ w', κ.Later w w' → F w' x' y') →
      F w (do let flow ← x; followedBy flow x') (do let flow ← y; followedBy flow y')
  weaken {w : W} {x : M Flow} {y : N Flow} : F w x y → G w x y
  bind {α : Type} {w : W} {Q : W → α → Prop} {x : M α} {y : N α} {f : α → M Flow} {g : α → N Flow} :
    R w Q x y → (∀ w' a, κ.Later w w' → Q w' a → G w' (f a) (g a)) → G w (x >>= f) (y >>= g)
  fail {w : W} {cause : Cause} (line : Nat) :
    cause.Ordinary → G w (s.lift (fail cause line)) (t.lift (fail cause line))
  begin {w : W} (st : Stmt) {x : M Flow} {y : N Flow} :
    (∀ w, G w x y) →
      F w (s.boundary do if ← s.lift (interrupted ctx access st) then Pure.pure .halt else x)
        (t.boundary do if ← t.lift (interrupted ctx' access' st) then Pure.pure .halt else y)
  whileLoop {w : W} {c : M Bool} {c' : N Bool} {x : M Flow} {y : N Flow} (line : Nat) :
    (∀ w', κ.Later w w' → R.any w' c c') → (∀ w', κ.Later w w' → F w' x y) →
      G w (s.whileLoop c x line) (t.whileLoop c' y line)
  repeatLoop {w : W} {c : M Bool} {c' : N Bool} {x : M Flow} {y : N Flow} (line : Nat) :
    (∀ w', κ.Later w w' → F w' x y) → (∀ w', κ.Later w w' → R.any w' c c') →
      G w (s.repeatLoop x c line) (t.repeatLoop y c' line)
  forLoop {w : W} {i : M Float} {i' : N Float} (continues : Float → Bool) {next : Float → M Unit}
    {next' : Float → N Unit} {x : M Flow} {y : N Flow} (line : Nat) :
    (∀ w', κ.Later w w' → R.any w' i i') →
      (∀ w' a, κ.Later w w' → R.any w' (next a) (next' a)) →
      (∀ w', κ.Later w w' → F w' x y) →
      G w (s.forLoop i continues next x line) (t.forLoop i' continues next' y line)
  call {w : W} (allowed : P) (d : Definition Stmt) {bindings : List Binding} (line : Nat)
    (known : κ.bindings w d.params bindings) :
    G w (do let ended ← s.runBody access d .procedure bindings line; s.lift (procedureResult d ended))
      (do let ended ← t.runBody access' d .procedure bindings line; t.lift (procedureResult d ended))
  giveBack {w : W} (value : Option Expr) (line : Nat) :
    G w (s.giveBack ctx value line) (t.giveBack ctx' value line)
  output {w : W} (items : List Expr) (line : Nat) :
    G w (simply (s.output ctx access items line)) (simply (t.output ctx' access' items line))
  input {w : W} (target : Expr) (line : Nat) :
    G w (s.input ctx access target line) (t.input ctx' access' target line)
  openFile {w : W} (file : Expr) (mode : FileMode) (line : Nat) :
    G w (simply (s.openFile ctx access file mode line)) (simply (t.openFile ctx' access' file mode line))
  readFile {w : W} (file target : Expr) (line : Nat) :
    G w (simply (s.readFile ctx access file target line)) (simply (t.readFile ctx' access' file target line))
  writeFile {w : W} (file value : Expr) (line : Nat) :
    G w (simply (s.writeFile ctx access file value line)) (simply (t.writeFile ctx' access' file value line))
  closeFile {w : W} (file : Expr) (line : Nat) :
    G w (simply (s.closeFile ctx access file line)) (simply (t.closeFile ctx' access' file line))

/-- One semantics, whose statements are related to themselves. -/
abbrev SelfFlows {W : Type} {M : Type → Type} [Monad M] (s : Semantics σ M) (ctx : Context σ) (R : Relation W M M)
    (κ : Knowledge W) (P : Prop) (access : Access) (F G : W → M Flow → M Flow → Prop) : Prop :=
  Flows s s ctx ctx R κ P access access F G

namespace Flows

variable {σ W : Type} {M N : Type → Type} [Monad M] [Monad N] {s : Semantics σ M} {t : Semantics σ N}
  {ctx ctx' : Context σ} {L : Relation W (Exec σ) (Exec σ)} {R : Relation W M N} {κ : Knowledge W}
  {A : Access → Access → Prop} {P : Prop} {access access' : Access} {F G : W → M Flow → N Flow → Prop}

section Statements

variable (fl : Flows s t ctx ctx' R κ P access access' F G)

include fl

theorem simply {w : W} {x : M Unit} {y : N Unit} (related : R.any w x y) :
    G w (Semantics.simply x) (Semantics.simply y) :=
  fl.bind related fun _ _ _ _ => fl.weaken fl.normal

variable (h : Congruence s t ctx ctx' L R κ A P)

include h

theorem callNamed (w : W) (name : String) (args : List Expr) (line : Nat) :
    G w (s.callNamed ctx access name args line) (t.callNamed ctx' access' name args line) := by
  unfold Semantics.callNamed
  rw [h.steps.definitions]
  cases defined : ctx.definition? name with
  | none => exact fl.fail _ trivial
  | some d =>
    dsimp only
    split
    · exact fl.fail _ trivial
    · refine fl.bind (h.permit defined args.length line) fun w₁ _ _ allowed => ?_
      refine fl.bind (h.evalBindings w₁ d line d.params args) fun _ bindings _ known => ?_
      exact fl.call allowed d line known

theorem count (w : W) (name : String) (start stop : Expr) (step : Option Expr) {x : M Flow} {y : N Flow}
    (line : Nat) (body : ∀ w, F w x y) :
    G w (s.count ctx name start stop step x line) (t.count ctx' name start stop step y line) := by
  have assigns (w : W) (x : Float) : R.any w (s.lift (assignVariable name (.number x) line))
      (t.lift (assignVariable name (.number x) line)) :=
    h.lift (h.steps.assignVariable name line ((h.steps.values w).number x))
  refine fl.bind (h.evalNumber w _ line start) fun w₁ first _ _ => ?_
  refine fl.bind (h.evalNumber w₁ _ line stop) fun w₂ last _ _ => ?_
  refine fl.bind (h.evalStep w₂ line step) fun w₃ step _ _ => ?_
  split
  · exact fl.fail _ trivial
  · refine fl.bind (h.lift (h.steps.counterCell name line)) fun w₄ cell _ known => ?_
    refine fl.bind (assigns w₄ _) fun w₅ _ later _ => ?_
    exact fl.forLoop _ line
      (fun w' next => h.lift (h.steps.counterValue name line (κ.cell_later (κ.trans later next) known)))
      (fun w' x _ => assigns w' _) (fun w' _ => body w')

end Statements

mutual

theorem execStmt (fl : Flows s t ctx ctx' R κ P access access' F G) (h : Congruence s t ctx ctx' L R κ A P)
    (w : W) : (st : Stmt) → F w (s.execStmt ctx access st) (t.execStmt ctx' access' st)
  | .declare name type l => fl.begin _ fun w => fl.simply (h.lift (h.steps.declare name type l.line))
  | .constant name value l => by
    refine fl.begin _ fun w => fl.simply ?_
    exact h.bind (h.eval w value) fun _ v _ known => h.lift (h.steps.declareConstant name l.line known)
  | .assign target value l => by
    refine fl.begin _ fun w => fl.simply ?_
    exact h.bind (h.eval w value) fun w₁ v _ known => h.assign w₁ target l.line known
  | .output items l => fl.begin _ fun w => fl.output items l.line
  | .input target l => fl.begin _ fun w => fl.input target l.line
  | .ifThen condition thenBranch elseBranch l => by
    refine fl.begin _ fun w => fl.bind (h.evalCondition w _ l.line condition) fun w₁ truth _ _ => fl.weaken ?_
    cases truth with
    | true => exact fl.execBlock h w₁ thenBranch
    | false => exact fl.execElse h w₁ elseBranch
  | .whileDo condition body l =>
    fl.begin _ fun w =>
      fl.whileLoop l.line (fun w' _ => h.evalCondition w' _ l.line condition) (fun w' _ => fl.execBlock h w' body)
  | .repeatUntil body condition l =>
    fl.begin _ fun w =>
      fl.repeatLoop l.line (fun w' _ => fl.execBlock h w' body) (fun w' _ => h.evalCondition w' _ l.line condition)
  | .forTo counter start stop step body l =>
    fl.begin _ fun w => fl.count h w counter start stop step l.line fun w' => fl.execBlock h w' body
  | .caseOf subject branches otherwise l => by
    refine fl.begin _ fun w => fl.bind (h.eval w subject) fun w₁ v _ _ => fl.weaken ?_
    exact fl.execBranches h w₁ v (fl.execElse h w₁ otherwise) branches
  | .define d => fl.begin (.define d) fun _ => fl.weaken fl.normal
  | .call name args l => fl.begin _ fun w => fl.callNamed h w name args l.line
  | .giveBack value l => fl.begin _ fun w => fl.giveBack value l.line
  | .openFile file mode l => fl.begin _ fun w => fl.openFile file mode l.line
  | .readFile file target l => fl.begin _ fun w => fl.readFile file target l.line
  | .writeFile file value l => fl.begin _ fun w => fl.writeFile file value l.line
  | .closeFile file l => fl.begin _ fun w => fl.closeFile file l.line
  | .free pointer l => by
    refine fl.begin _ fun w => fl.simply ?_
    exact h.bind (h.eval w pointer) fun _ v _ _ => h.lift (h.steps.freeBlock v l.line)

theorem execBlock (fl : Flows s t ctx ctx' R κ P access access' F G) (h : Congruence s t ctx ctx' L R κ A P)
    (w : W) : (sts : List Stmt) → F w (s.execBlock ctx access sts) (t.execBlock ctx' access' sts)
  | [] => fl.normal
  | st :: rest => fl.followedBy (fl.execStmt h w st) fun w₁ _ => fl.execBlock h w₁ rest

theorem execElse (fl : Flows s t ctx ctx' R κ P access access' F G) (h : Congruence s t ctx ctx' L R κ A P)
    (w : W) : (body : Option (List Stmt)) → F w (s.execElse ctx access body) (t.execElse ctx' access' body)
  | none => fl.normal
  | some body => fl.execBlock h w body

theorem execBranches (fl : Flows s t ctx ctx' R κ P access access' F G) (h : Congruence s t ctx ctx' L R κ A P)
    (w : W) (subject : Value) {x : M Flow} {y : N Flow} (otherwise : F w x y) :
    (branches : List (CaseBranch Stmt)) →
      F w (s.execBranches ctx access subject x branches) (t.execBranches ctx' access' subject y branches)
  | [] => by
    simp only [Semantics.execBranches]
    exact otherwise
  | ⟨label, body, _⟩ :: rest => by
    simp only [Semantics.execBranches]
    split
    · exact fl.execBlock h w body
    · exact fl.execBranches h w subject otherwise rest

end

end Flows

namespace Congruence

variable {σ W : Type} {M N : Type → Type} [Monad M] [Monad N] {s : Semantics σ M} {t : Semantics σ N}
  {ctx ctx' : Context σ} {L : Relation W (Exec σ) (Exec σ)} {R : Relation W M N} {κ : Knowledge W}
  {A : Access → Access → Prop} {P : Prop} (h : Congruence s t ctx ctx' L R κ A P)

include h

/-- Statements may be related as expressions are. -/
theorem flows {access access' : Access} (rights : A access access') :
    Flows s t ctx ctx' R κ P access access' (fun w => R w κ.flow) (fun w => R w κ.flow) where
  normal := h.pure trivial
  followedBy first next := h.bind first fun w' _ later known => h.followedBy known (next w' later)
  weaken related := related
  bind := h.bind
  fail := h.fail
  begin st _ _ rest := h.begin rights _ st rest
  whileLoop := h.whileLoop
  repeatLoop := h.repeatLoop
  forLoop := h.forLoop
  call allowed d _ line known :=
    h.bind (h.call allowed rights d .procedure line known) fun _ ended _ _ =>
      h.lift (h.steps.procedureResult d ended)
  giveBack := h.giveBack h.bind h.pure _
  output items line := h.simply (h.output rights _ items line)
  input := h.input rights _
  openFile file mode line := h.simply (h.openFile rights _ file mode line)
  readFile file target line := h.simply (h.readFile rights _ file target line)
  writeFile file value line := h.simply (h.writeFile rights _ file value line)
  closeFile file line := h.simply (h.closeFile rights _ file line)

theorem execBlock {access access' : Access} (rights : A access access') (w : W) (sts : List Stmt) :
    R w κ.flow (s.execBlock ctx access sts) (t.execBlock ctx' access' sts) :=
  (h.flows rights).execBlock h w sts

theorem exec (rights : A .granted .granted) (w : W) (p : Program) : R.any w (s.exec ctx p) (t.exec ctx' p) := by
  refine h.bind (h.lift (h.steps.checkDefinitions p)) fun w₁ _ _ _ => ?_
  refine h.bind (h.execBlock rights w₁ p.statements) fun _ flow _ _ => ?_
  exact h.lift (h.steps.outcomeOf flow)

end Congruence

end Semantics

end Pseudocode
