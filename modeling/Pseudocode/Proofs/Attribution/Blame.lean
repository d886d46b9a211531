import Pseudocode.Proofs.Observation

/-!
Which lines single steps blame. A step is given the line of the node that it is taken for: it fails at no
other, and it leaves the current line and the lines of the frames alone (`Blames`). What begins a statement,
enters a call or leaves it is no such step.
-/

namespace Pseudocode

variable {σ : Type}

/-- The current line and the frames are as in another state. -/
structure Machine.SamePlace (m₀ m : Machine σ) : Prop where
  line : m.line = m₀.line
  calls : m.calls = m₀.calls

theorem Machine.SamePlace.refl (m : Machine σ) : SamePlace m m := ⟨rfl, rfl⟩

theorem Machine.SamePlace.trans {a b c : Machine σ} (first : SamePlace a b) (next : SamePlace b c) : SamePlace a c :=
  ⟨next.line.trans first.line, next.calls.trans first.calls⟩

namespace Exec

open Machine

/-- What goes on blames nothing. -/
theorem blames_nothing {S : Nat → Prop} {α : Type} {a : α} {m : Machine σ} (e : RuntimeError)
    (failed : outcome (.ok a m : EStateM.Result RuntimeError (Machine σ) α) = .error e) : S e.line := by
  cases failed

/-- A step stays where it is, and fails only at lines of which `S` holds. -/
def Blames (S : Nat → Prop) : Property σ := fun _ Q x =>
  ∀ m, Ends (SamePlace m) Q (x m) ∧ ∀ e, outcome (x m) = .error e → S e.line

namespace Blames

variable {S : Nat → Prop} {α β : Type} {line : Nat}

theorem pure {Q : α → Prop} {a : α} (known : Q a) : Blames S Q (pure a : Exec σ α) :=
  fun m => ⟨⟨.refl m, known⟩, blames_nothing⟩

theorem bind {P : α → Prop} {Q : β → Prop} {x : Exec σ α} {f : α → Exec σ β} (first : Blames S P x)
    (next : ∀ a, P a → Blames S Q (f a)) : Blames S Q (x >>= f) := by
  intro m
  obtain ⟨ended, blamed⟩ := first m
  rw [bind_apply]
  generalize x m = r at ended blamed ⊢
  cases r with
  | ok a m' =>
    obtain ⟨rest, others⟩ := next a ended.2 m'
    exact ⟨rest.mono (fun _ same => ended.1.trans same) fun _ known => known, others⟩
  | error e m' =>
    refine ⟨ended, fun e' failed => blamed e' ?_⟩
    cases failed
    rfl

theorem weaken {P Q : α → Prop} {x : Exec σ α} (h : Blames S P x) (weaker : ∀ a, P a → Q a) : Blames S Q x :=
  fun m => ⟨(h m).1.mono (fun _ same => same) weaker, (h m).2⟩

/-- A look at the state. -/
theorem look {Q : β → Prop} {f : Machine σ → Exec σ β} (next : ∀ m, Blames S Q (f m)) : Blames S Q (get >>= f) :=
  fun m => next m m

/-- A change of something else. -/
theorem change {f : Machine σ → α × Machine σ} (same : ∀ m, SamePlace m (f m).2) :
    (Blames S).of (modifyGet f : Exec σ α) :=
  fun m => ⟨⟨same m, trivial⟩, blames_nothing⟩

theorem alter {f : Machine σ → Machine σ} (same : ∀ m, SamePlace m (f m)) : (Blames S).of (modify f : Exec σ Unit) :=
  fun m => ⟨⟨same m, trivial⟩, blames_nothing⟩

theorem record (operation : Operation) (line : Nat) (details : Details) :
    (Blames S).of (record operation line details : Exec σ Unit) :=
  alter fun _ => ⟨rfl, rfl⟩

theorem ite {Q : α → Prop} {c : Prop} [Decidable c] {x y : Exec σ α} (first : Blames S Q x)
    (second : Blames S Q y) : Blames S Q (if c then x else y) := by
  split
  · exact first
  · exact second

theorem emit (host : Host σ) (l : OutputLine) : (Blames S).of (emit host l) :=
  alter fun _ => ⟨rfl, rfl⟩

theorem askInput (host : Host σ) (name : String) (type : DataType) : (Blames S).of (askInput host name type) :=
  change fun _ => ⟨rfl, rfl⟩

theorem askFile (host : Host σ) (name : String) (mode : FileMode) : (Blames S).of (askFile host name mode) := by
  cases mode with
  | read => exact change fun _ => ⟨rfl, rfl⟩
  | write | append => exact pure trivial

theorem draw : (Blames S).of (draw : Exec σ Float) := by
  obtain ⟨f, eq⟩ := draw_eq (σ := σ)
  rw [eq]
  exact change fun _ => ⟨rfl, rfl⟩

theorem echo (ctx : Context σ) (text : String) (line : Nat) : (Blames S).of (echo ctx text line) :=
  ite (emit ctx.host _) (pure trivial)

theorem sequential : Sequential (Blames S : Property σ) S where
  pure := pure
  throw _ inside m := ⟨.refl m, fun e failed => by cases failed; exact inside⟩
  bind := bind
  look _ := look
  record := record

/-- The steps on memory blame the line that they are given. -/
theorem memorySteps : MemorySteps (Blames S : Property σ) S :=
  sequential.memorySteps (fun _ same _ => alter fun m => ⟨(same m).line, (same m).calls⟩) fun _ =>
    alter fun _ => ⟨rfl, rfl⟩

section Given

-- What these steps blame is the line that they are given.
variable (inside : S line)

include inside

theorem fail {Q : α → Prop} (cause : Cause) : Blames S Q (fail cause line : Exec σ α) := by
  refine fun m => ⟨.refl m, fun e failed => ?_⟩
  cases failed
  exact inside

theorem ofExcept (x : Except Cause α) : Blames S (fun a => x = .ok a) (ofExcept line x : Exec σ α) := by
  cases x with
  | ok a => exact pure rfl
  | error cause => exact fail inside cause

theorem checkBudget (config : Config) : (Blames S).of (checkBudget config line : Exec σ Unit) :=
  look fun _ => ite (fail inside _) (pure trivial)

theorem tick (config : Config) : (Blames S).of (tick config line : Exec σ Unit) :=
  bind (alter fun _ => ⟨rfl, rfl⟩) fun _ _ => checkBudget inside config

theorem requireHost (access : Access) (statement : String) :
    (Blames S).of (requireHost access statement line : Exec σ Unit) := by
  cases access with
  | granted => exact pure trivial
  | denied => exact fail inside _

theorem requireCall : (Blames S).of (requireCall line : Exec σ Unit) :=
  look fun _ => ite (fail inside _) (pure trivial)

theorem permit (config : Config) (d : Definition Stmt) (arguments : Nat) :
    (Blames S).of (Watch.permit config d arguments line : Exec σ Unit) :=
  ite (look fun _ => ite (fail inside _) (pure trivial)) (fail inside _)

theorem pointee (v : Value) : (Blames S).of (pointee v line : Exec σ Nat) := by
  cases v <;> first | exact pure trivial | exact fail inside _

theorem asNumber (v : Value) (what : String) : (Blames S).of (asNumber v what line : Exec σ Float) := by
  cases v <;> first | exact pure trivial | exact fail inside _

theorem fileName (v : Value) : (Blames S).of (fileName v line : Exec σ String) := by
  cases v <;> first | exact pure trivial | exact fail inside _

theorem truthOf (construct : String) (v : Value) :
    (Blames S).of (Semantics.truthOf construct line v : Exec σ Bool) := by
  cases v <;> first | exact pure trivial | exact fail inside _

theorem convert (target : Expr) (type : DataType) (raw : String) :
    (Blames S).of (convert target type raw line : Exec σ Value) := by
  unfold Exec.convert
  split
  · exact pure trivial
  · exact fail inside _

theorem checked (x : Except Cause α) : (Blames S).of (Exec.ofExcept line x : Exec σ α) :=
  (ofExcept inside x).weaken fun _ _ => trivial

theorem callBuiltin (b : Builtin) (args : List Value) : (Blames S).of (callBuiltin b args line : Exec σ Value) := by
  have applies (x : Float) : (Blames S).of (Exec.ofExcept line (b.apply x args) : Exec σ Value) :=
    checked inside _
  unfold Exec.callBuiltin
  split
  · exact bind draw fun x _ => applies x
  · exact applies 0

theorem shareArgument (d : Definition Stmt) (p : Param) (arg : Expr) :
    (Blames S).of (shareArgument d p arg line : Exec σ Binding) := by
  unfold Exec.shareArgument
  split
  · exact bind (memorySteps.find _ inside) fun _ _ => ite (pure trivial) (fail inside _)
  · exact fail inside _

theorem copyArgument (d : Definition Stmt) (p : Param) (v : Value) :
    (Blames S).of (copyArgument d p v line : Exec σ Binding) :=
  ite (pure trivial) (fail inside _)

theorem targetType : (target : Expr) → (Blames S).of (targetType line target : Exec σ DataType)
  | .identifier name _ => by
    exact bind (memorySteps.find name inside) fun _ _ => pure trivial
  | .element name _ _ => by
    refine bind (memorySteps.find name inside) fun _ _ => ?_
    dsimp only
    split
    · exact pure trivial
    · exact fail inside _
  | .dereference pointer _ => by
    refine bind (targetType pointer) fun _ _ => ?_
    split
    · exact pure trivial
    · exact fail inside _
  | .literal .. | .binary .. | .unary .. | .call .. | .addressOf .. | .allocate .. | .sizeOf .. | .endOfFile .. => by
    exact fail inside _

theorem functionResult (d : Definition Stmt) (flow : Flow) :
    (Blames S).of (functionResult d (flow, line) : Exec σ Value) := by
  unfold Exec.functionResult
  split
  case h_1 heq =>
    cases heq
    split
    · exact ite (pure trivial) (fail inside _)
    · exact pure trivial
  case h_2 heq =>
    cases heq
    exact fail inside _

/-- A call of a procedure is no return. -/
theorem procedureResult (d : Definition Stmt) (flow : Flow) :
    Blames S (fun ended => ∀ v, ended ≠ .returned v) (procedureResult d (flow, line) : Exec σ Flow) := by
  rcases flow with _ | (_ | v) | _
  · exact pure nofun
  · exact pure nofun
  · exact fail inside _
  · exact pure nofun

theorem fileEnds (v : Value) : (Blames S).of (fileEnds v line : Exec σ Value) := by
  refine bind (fileName inside v) fun name _ => look fun m => ?_
  split
  · exact pure trivial
  · exact fail inside _

theorem openNamed (host : Host σ) (name : String) (mode : FileMode) :
    (Blames S).of (openNamed host name mode line) := by
  refine bind (askFile host name mode) fun content _ => look fun m => ?_
  split
  · exact fail inside _
  · exact alter fun _ => ⟨rfl, rfl⟩

theorem readNamed (name : String) : (Blames S).of (readNamed name line : Exec σ String) := by
  refine look fun m => ?_
  split
  · exact fail inside _
  · exact bind (alter fun _ => ⟨rfl, rfl⟩) fun _ _ => pure trivial

theorem writeNamed (name text : String) : (Blames S).of (writeNamed name text line : Exec σ Unit) := by
  refine look fun m => ?_
  split
  · exact fail inside _
  · exact alter fun _ => ⟨rfl, rfl⟩

theorem closeNamed (name : String) : (Blames S).of (closeNamed name line : Exec σ Unit) := by
  refine look fun m => ?_
  split
  · exact fail inside _
  · exact alter fun _ => ⟨rfl, rfl⟩

end Given

end Blames

end Exec

end Pseudocode
