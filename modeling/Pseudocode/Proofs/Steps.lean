import Pseudocode.Proofs.Memory.Scoping

/-!
The steps of the machine, for any property of computations. Each step is a sequence of looks at the
state, additions to the trace, and changes of one part of the state: a property that these have, and
that sequences keep, is a property of every step. Most steps either leave memory alone, and do not look
at it unless a debugger does (`ControlSteps`), or change nothing but memory and its trace
(`MemorySteps`); the latter look at variables and change them, and read and write in the arena
(`StoreSteps`), and a few move its blocks; most properties tell these no further apart than into changes of
the arena and additions to the trace (`ArenaSteps`). Of those that leave memory alone, some have to do with
the host, the files and the transcript (`HostSteps`), and all others have not (`QuietSteps`).
-/

namespace Pseudocode

/-- The variables with their names, the arena, and which addresses are those of variables. -/
structure Memory where
  scopes : Scopes
  arena : Arena
  bound : List (Nat × CellId)

namespace Machine

variable {σ : Type}

def memory (m : Machine σ) : Memory := ⟨m.scopes, m.arena, m.bound⟩

/-- All but memory and the trace is as in another state. -/
def withMemory (m : Machine σ) (mem : Memory) (trace : Trace) : Machine σ :=
  { m with scopes := mem.scopes, arena := mem.arena, bound := mem.bound, trace }

/-- Memory is as in another state, as many calls run, and as many loop passes have begun. -/
structure SameMemory (m₀ m : Machine σ) : Prop where
  scopes : m.scopes = m₀.scopes
  arena : m.arena = m₀.arena
  bound : m.bound = m₀.bound
  depth : m.calls.depth = m₀.calls.depth
  iterations : m.iterations = m₀.iterations

theorem SameMemory.refl (m : Machine σ) : SameMemory m m := ⟨rfl, rfl, rfl, rfl, rfl⟩

theorem SameMemory.trans {a b c : Machine σ} (first : SameMemory a b) (next : SameMemory b c) : SameMemory a c :=
  ⟨next.scopes.trans first.scopes, next.arena.trans first.arena, next.bound.trans first.bound,
    next.depth.trans first.depth, next.iterations.trans first.iterations⟩

theorem SameMemory.memory {a b : Machine σ} (same : SameMemory a b) : b.memory = a.memory := by
  show Memory.mk b.scopes b.arena b.bound = _
  rw [same.scopes, same.arena, same.bound]
  rfl

/-- All but memory, the trace and the random numbers to come is as in another state. -/
structure SameControl (m₀ m : Machine σ) : Prop where
  calls : m.calls = m₀.calls
  files : m.files = m₀.files
  transcript : m.transcript = m₀.transcript
  iterations : m.iterations = m₀.iterations
  line : m.line = m₀.line
  host : m.host = m₀.host

theorem SameControl.refl (m : Machine σ) : SameControl m m := ⟨rfl, rfl, rfl, rfl, rfl, rfl⟩

theorem SameControl.trans {a b c : Machine σ} (first : SameControl a b) (next : SameControl b c) : SameControl a c :=
  ⟨next.calls.trans first.calls, next.files.trans first.files, next.transcript.trans first.transcript,
    next.iterations.trans first.iterations, next.line.trans first.line, next.host.trans first.host⟩

def withTrace (m : Machine σ) (t : Trace) : Machine σ := { m with trace := t }

def withHost (m : Machine σ) (s : σ) : Machine σ := { m with host := s }

/-- What was put out, and the host, are as given. -/
def withOutside (m : Machine σ) (transcript : Transcript) (host : σ) : Machine σ :=
  { m with transcript, host }

/-- The arena is as given, and so are the trace, what was put out, and the host. -/
def besides (m : Machine σ) (arena : Arena) (trace : Trace) (transcript : Transcript) (host : σ) : Machine σ :=
  { m with arena, trace, transcript, host }

@[simp]
theorem arena_besides (m : Machine σ) (arena : Arena) (trace : Trace) (transcript : Transcript) (host : σ) :
    (m.besides arena trace transcript host).arena = arena := rfl

/-- A change that does not depend on any of these leaves them alone. -/
theorem besides_self {f : Machine σ → Machine σ}
    (blind : ∀ m a t l s, f (m.besides a t l s) = (f m).besides a t l s) (m : Machine σ) :
    (f m).besides m.arena m.trace m.transcript m.host = f m :=
  (blind m m.arena m.trace m.transcript m.host).symm

/-- The files, what was put out, and the host are as in another state. -/
structure SameOutside (m₀ m : Machine σ) : Prop where
  files : m.files = m₀.files
  transcript : m.transcript = m₀.transcript
  host : m.host = m₀.host

theorem SameOutside.refl (m : Machine σ) : SameOutside m m := ⟨rfl, rfl, rfl⟩

theorem SameOutside.trans {a b c : Machine σ} (first : SameOutside a b) (next : SameOutside b c) : SameOutside a c :=
  ⟨next.files.trans first.files, next.transcript.trans first.transcript, next.host.trans first.host⟩

theorem SameControl.sameOutside {a b : Machine σ} (same : SameControl a b) : SameOutside a b :=
  ⟨same.files, same.transcript, same.host⟩

end Machine

namespace CallStack

@[simp]
theorem depth_push (s : CallStack) (f : Frame) : (s.push f).depth = s.depth + 1 := rfl

@[simp]
theorem depth_pop (s : CallStack) : s.pop.depth = s.depth - 1 := by simp [depth, pop]

@[simp]
theorem depth_setLine (s : CallStack) (line : Nat) : (s.setLine line).depth = s.depth := by
  rcases s with ⟨_ | ⟨f, rest⟩⟩ <;> rfl

end CallStack

/-- Whether an operation takes a block from the arena, or gives one back. -/
def Operation.movesBlocks : Operation → Bool
  | .allocate | .free => true
  | _ => false

namespace Exec

open Machine

/-- A property of computations. `Q` is what is known of a result. -/
abbrev Property (σ : Type) := ⦃α : Type⦄ → (α → Prop) → Exec σ α → Prop

/-- A computation has a property; of its result nothing is known. -/
abbrev Property.of {α : Type} (C : Property σ) (x : Exec σ α) : Prop := C (fun _ => True) x

/-- Sequences of computations have a property if their parts do. So have errors that do not report the end
of a budget, at lines of which `S` holds. -/
structure Sequences (C : Property σ) (S : Nat → Prop := fun _ => True) : Prop where
  pure {α : Type} {Q : α → Prop} {a : α} : Q a → C Q (pure a)
  throw {α : Type} {Q : α → Prop} {e : RuntimeError} : e.cause.Ordinary → S e.line → C Q (throw e)
  bind {α β : Type} {P : α → Prop} {Q : β → Prop} {x : Exec σ α} {f : α → Exec σ β} :
    C P x → (∀ a, P a → C Q (f a)) → C Q (x >>= f)

/-- So have looks at the state that see neither the trace nor what was put out nor the host, and additions
to the trace. -/
structure Sequential (C : Property σ) (S : Nat → Prop := fun _ => True) : Prop extends Sequences C S where
  look {β : Type} {Q : β → Prop} {f : Machine σ → Exec σ β}
    (blind : ∀ m t l s, f ((m.withTrace t).withOutside l s) = f m) :
    (∀ m, C Q (f m)) → C Q (get >>= f)
  record (operation : Operation) (line : Nat) (details : Details) :
    C.of (record operation line details)

/-- The host is shown the variables, and answers. -/
def showState (host : Host σ) : Exec σ StepReply := modifyGet fun m =>
  let (reply, host) := host.step (m.snapshot true) m.host
  (reply, { m with host })

/-- The host is asked whether the run is to be cancelled. -/
def poll (host : Host σ) : Exec σ Bool := modifyGet fun m =>
  let (stopped, host) := host.cancelled m.host
  (stopped, { m with host })

/-- Looks and changes have a property that have nothing to do with memory, nor with the host, the files
and the transcript. -/
structure QuietSteps (C : Property σ) : Prop extends Sequences C where
  look {β : Type} {Q : β → Prop} {f : Machine σ → Exec σ β}
    (blind : ∀ m mem t l s, f ((m.withMemory mem t).withOutside l s) = f m) :
    (∀ m, C Q (f m)) → C Q (get >>= f)
  quiet {α : Type} {f : Machine σ → α × Machine σ}
    (blind : ∀ m mem t l s,
      f ((m.withMemory mem t).withOutside l s) = ((f m).1, ((f m).2.withMemory mem t).withOutside l s))
    (same : ∀ m, SameMemory m (f m).2) (outside : ∀ m, SameOutside m (f m).2) :
    C.of (modifyGet f)

/-- So have changes of the files. -/
structure FileSteps (C : Property σ) : Prop extends QuietSteps C where
  setFiles (f : FileStore → FileStore) : C.of (modify fun m => { m with files := f m.files })

/-- So has all that is done with the host, and the check of the budget. -/
structure HostSteps (C : Property σ) (ctx : Context σ) : Prop extends FileSteps C where
  poll : C.of (poll ctx.host)
  showState : C.of (showState ctx.host)
  emit (l : OutputLine) : C.of (emit ctx.host l)
  askInput (name : String) (type : DataType) : C.of (askInput ctx.host name type)
  askFile (name : String) (mode : FileMode) : C.of (askFile ctx.host name mode)
  checkBudget (line : Nat) : C.of (checkBudget ctx.config line)

/-- Looks and changes that have nothing to do with memory have a property, and so has what shows the
variables to the host. -/
structure ControlSteps (C : Property σ) : Prop extends Sequences C where
  look {β : Type} {Q : β → Prop} {f : Machine σ → Exec σ β}
    (blind : ∀ m mem t l s, f ((m.withMemory mem t).withOutside l s) = f m) :
    (∀ m, C Q (f m)) → C Q (get >>= f)
  control {α : Type} {f : Machine σ → α × Machine σ}
    (blind : ∀ m mem t, f (m.withMemory mem t) = ((f m).1, (f m).2.withMemory mem t))
    (same : ∀ m, SameMemory m (f m).2) : C.of (modifyGet f)
  showState (host : Host σ) : C.of (showState host)

/-- Looks at the variables have a property that see nothing of the arena, and changes of variables that open
or close no scope. So have reads and stores in the arena, and additions to the trace of operations that move
no blocks. -/
structure StoreSteps (C : Property σ) (S : Nat → Prop := fun _ => True) : Prop extends Sequences C S where
  look {β : Type} {Q : β → Prop} {f : Machine σ → Exec σ β}
    (blind : ∀ m a t l s, f (m.besides a t l s) = f m) :
    (∀ m, C Q (f m)) → C Q (get >>= f)
  setVariables {f : Machine σ → Machine σ}
    (blind : ∀ m a t l s, f (m.besides a t l s) = (f m).besides a t l s)
    (same : ∀ m, SameControl m (f m)) (depth : ∀ m, (f m).scopes.depth = m.scopes.depth) :
    C.of (modify f)
  note {operation : Operation} (still : operation.movesBlocks = false) (line : Nat) (details : Details) :
    C.of (record operation line details)
  writeArena (address : Nat) (value : Value) {line : Nat} (here : S line) :
    C.of (writeArena address value line)
  readThrough (address : Nat) {line : Nat} (here : S line) : C.of (readThrough address line)

/-- So have the taking and giving back of blocks, and all additions to the trace. -/
structure ArenaSteps (C : Property σ) (S : Nat → Prop := fun _ => True) : Prop extends StoreSteps C S where
  record (operation : Operation) (line : Nat) (details : Details) :
    C.of (record operation line details)
  note _ := record _
  allocate (size : Nat) (tag : String) {line : Nat} (here : S line) : C.of (allocate size tag line)
  release (address : Nat) {line : Nat} (here : S line) : C.of (release address line)
  allocateBlock (size : Float) (tag : Option DataType) {line : Nat} (here : S line) :
    C.of (allocateBlock size tag line)

/-- So have, besides the steps that move no blocks, those that move one and add that to the trace. -/
structure MemorySteps (C : Property σ) (S : Nat → Prop := fun _ => True) : Prop extends StoreSteps C S where
  addressOf (name : String) {line : Nat} (here : S line) : C.of (addressOf name line)
  allocateBlock (size : Float) (tag : Option DataType) {line : Nat} (here : S line) :
    C.of (allocateBlock size tag line)
  freeBlock (v : Value) {line : Nat} (here : S line) : C.of (freeBlock v line)
  endVariable (id : ScopeId) (name : String) (cell : CellId) {line : Nat} (here : S line) :
    C.of (endVariable id name cell line)

variable {σ : Type}

/-- A draw reads and changes nothing but the random numbers. How it does so does not matter to proofs. -/
theorem draw_eq : ∃ f : Draws → Float × Draws, (draw : Exec σ Float) =
    modifyGet fun m => ((f m.random).1, { m with random := (f m.random).2 }) :=
  ⟨fun r => (r.number r.taken, { r with taken := r.taken + 1 }), rfl⟩

namespace Sequences

variable {C : Property σ} {S : Nat → Prop} (h : Sequences C S)

include h

variable {α : Type} {Q : α → Prop}

theorem fail {cause : Cause} {line : Nat} (here : S line) (ordinary : cause.Ordinary) : C Q (fail cause line) :=
  h.throw ordinary here

theorem mono {P : α → Prop} {x : Exec σ α} (step : C P x) (weaker : ∀ a, P a → Q a) : C Q x := by
  rw [← bind_pure x]
  exact h.bind step fun a known => h.pure (weaker a known)

theorem discard {x : Exec σ α} (step : C Q x) : C.of (discard x) :=
  h.bind step fun _ _ => h.pure trivial

theorem ofExcept {line : Nat} (here : S line) {x : Except Cause α} (checked : Checked x) :
    C.of (ofExcept line x) := by
  cases x with
  | ok a => exact h.pure trivial
  | error cause => exact h.fail here (checked cause rfl)

end Sequences

variable {W : Type} {L' : Relation W (Exec σ) (Exec σ)} {κ : Knowledge W} {ctx : Context σ}
  {L : Relation W (Exec σ) (Exec σ)} {C : Property σ}

theorem Sequences.requireHost (h : Sequences C) (access : Access) (statement : String) (line : Nat) :
    C (fun _ => access = .granted) (requireHost access statement line) := by
  cases access with
  | granted => exact h.pure rfl
  | denied => exact h.fail trivial trivial

/-- Where a property does not tell changes of memory from others, nor looks at it, fewer facts do. -/
theorem Sequential.controlSteps (h : Sequential C)
    (control : ∀ {α : Type} {f : Machine σ → α × Machine σ},
      (∀ m t, f (m.withTrace t) = ((f m).1, (f m).2.withTrace t)) → (∀ m, SameMemory m (f m).2) →
        C.of (modifyGet f)) : ControlSteps C where
  toSequences := h.toSequences
  look blind := h.look fun m t l s => blind m m.memory t l s
  control {_ f} blind same := by
    refine control (fun m t => (blind m m.memory t).trans ?_) same
    rw [withMemory, memory, ← (same m).scopes, ← (same m).arena, ← (same m).bound]
    rfl
  showState _ := control (fun _ _ => rfl) fun _ => ⟨rfl, rfl, rfl, rfl, rfl⟩

namespace QuietSteps

variable {C : Property σ} (h : QuietSteps C)

include h

theorem currentLine : C.of currentLine :=
  h.look (fun _ _ _ _ _ => rfl) fun _ => h.pure trivial

theorem fileName (v : Value) (line : Nat) : C.of (fileName v line) := by
  cases v <;> first | exact h.pure trivial | exact h.fail trivial trivial

theorem fileEnds (v : Value) (line : Nat) : C (fun w => ∃ b, w = .boolean b) (fileEnds v line) := by
  refine h.bind (h.fileName v line) fun name _ => h.look (fun _ _ _ _ _ => rfl) fun m => ?_
  split
  case h_1 b _ => exact h.pure ⟨b, rfl⟩
  case h_2 => exact h.fail trivial trivial

/-- A property that every error has need not know of the budget. -/
theorem checkBudget (throws : ∀ e, C.of (throw e : Exec σ Unit)) (config : Config) (line : Nat) :
    C.of (checkBudget config line) := by
  refine h.look (fun _ _ _ _ _ => rfl) fun m => ?_
  split
  · exact throws _
  · exact h.pure trivial

theorem requireCall (line : Nat) : C.of (requireCall line) := by
  refine h.look (fun _ _ _ _ _ => rfl) fun m => ?_
  split
  · exact h.fail trivial trivial
  · exact h.pure trivial

theorem draw : C.of draw := by
  obtain ⟨f, eq⟩ := draw_eq
  rw [eq]
  exact h.quiet (fun _ _ _ _ _ => rfl) (fun _ => ⟨rfl, rfl, rfl, rfl, rfl⟩) fun _ => ⟨rfl, rfl, rfl⟩

theorem setLine (line : Nat) : C.of (modify fun m => { m with line, calls := m.calls.setLine line }) :=
  h.quiet (fun _ _ _ _ _ => rfl) (fun _ => ⟨rfl, rfl, rfl, by simp, rfl⟩) fun _ => ⟨rfl, rfl, rfl⟩

/-- A statement without rights does not stop where it begins. -/
theorem interrupted_denied {ctx : Context σ} (st : Stmt)
    (budget : C.of (Exec.checkBudget ctx.config st.line)) :
    C (fun stopped => stopped = false) (interrupted ctx .denied st) :=
  h.bind (h.setLine st.line) fun _ _ => h.bind budget fun _ _ => h.pure rfl

end QuietSteps

namespace FileSteps

variable {C : Property σ} (h : FileSteps C)

include h

theorem openContent (name : String) (mode : FileMode) (content : Option String) (line : Nat) :
    C.of (do
      match (← get).files.openFile name mode content with
      | .error e => Exec.fail (.file e) line
      | .ok files => modify fun m => { m with files }) := by
  refine h.look (fun _ _ _ _ _ => rfl) fun m => ?_
  split
  · exact h.fail trivial trivial
  case h_2 files _ => exact h.setFiles fun _ => files

theorem readNamed (name : String) (line : Nat) : C.of (readNamed name line) := by
  refine h.look (fun _ _ _ _ _ => rfl) fun m => ?_
  split
  · exact h.fail trivial trivial
  case h_2 raw files _ => exact h.bind (h.setFiles fun _ => files) fun _ _ => h.pure trivial

theorem writeNamed (name text : String) (line : Nat) : C.of (writeNamed name text line) := by
  refine h.look (fun _ _ _ _ _ => rfl) fun m => ?_
  split
  · exact h.fail trivial trivial
  · exact h.setFiles fun files => files.append name text

theorem closeNamed (name : String) (line : Nat) : C.of (closeNamed name line) := by
  refine h.look (fun _ _ _ _ _ => rfl) fun m => ?_
  split
  · exact h.fail trivial trivial
  case h_2 files _ => exact h.setFiles fun _ => files

end FileSteps

namespace HostSteps

variable {C : Property σ} {ctx : Context σ} (h : HostSteps C ctx)

include h

theorem interrupted (access : Access) (st : Stmt) : C.of (interrupted ctx access st) := by
  refine h.bind (h.setLine st.line) fun _ _ => h.bind (h.checkBudget st.line) fun _ _ => ?_
  cases access with
  | denied => exact h.pure trivial
  | granted =>
    refine h.bind h.poll fun stopped _ => ?_
    split
    · exact h.pure trivial
    · split
      · exact h.bind h.showState fun _ _ => h.pure trivial
      · exact h.pure trivial

theorem echo (text : String) (line : Nat) : C.of (echo ctx text line) := by
  unfold Exec.echo
  split
  · exact h.emit _
  · exact h.pure trivial

theorem openNamed (name : String) (mode : FileMode) (line : Nat) : C.of (openNamed ctx.host name mode line) :=
  h.bind (h.askFile name mode) fun content _ => h.openContent name mode content line

end HostSteps

theorem ControlSteps.quietSteps (h : ControlSteps C) : QuietSteps C where
  toSequences := h.toSequences
  look := h.look
  quiet blind same outside := by
    refine h.control (fun m mem t => (blind m mem t m.transcript m.host).trans ?_) same
    rw [← (outside m).transcript, ← (outside m).host]
    rfl

theorem ControlSteps.hostSteps (h : ControlSteps C) (budget : ∀ line, C.of (checkBudget ctx.config line)) :
    HostSteps C ctx where
  toQuietSteps := h.quietSteps
  checkBudget := budget
  setFiles _ := h.control (fun _ _ _ => rfl) fun _ => ⟨rfl, rfl, rfl, rfl, rfl⟩
  poll := h.control (fun _ _ _ => rfl) fun _ => ⟨rfl, rfl, rfl, rfl, rfl⟩
  showState := h.showState ctx.host
  emit _ := h.control (fun _ _ _ => rfl) fun _ => ⟨rfl, rfl, rfl, rfl, rfl⟩
  askInput _ _ := h.control (fun _ _ _ => rfl) fun _ => ⟨rfl, rfl, rfl, rfl, rfl⟩
  askFile _ mode := by
    cases mode with
    | read => exact h.control (fun _ _ _ => rfl) fun _ => ⟨rfl, rfl, rfl, rfl, rfl⟩
    | write | append => exact h.pure trivial

namespace StoreSteps

variable {C : Property σ} {S : Nat → Prop} (h : StoreSteps C S)

include h

variable {line : Nat}

theorem find (name : String) (here : S line) : C.of (find name line) := by
  refine h.look (fun _ _ _ _ _ => rfl) fun m => ?_
  split
  · exact h.pure trivial
  · exact h.fail here trivial

theorem boundVariable? (address : Nat) : C.of (boundVariable? address) := by
  refine h.look (fun _ _ _ _ _ => rfl) fun m => ?_
  split <;> exact h.pure trivial

theorem counterValue (cell : CellId) (name : String) (here : S line) : C.of (counterValue cell name line) := by
  refine h.look (fun _ _ _ _ _ => rfl) fun m => ?_
  split
  · exact h.pure trivial
  · exact h.fail here trivial
  · exact h.fail here trivial

theorem readVariable (name : String) (here : S line) : C.of (readVariable name line) := by
  refine h.bind (h.find name here) fun ⟨_, v⟩ _ => ?_
  dsimp only
  split
  · exact h.fail here trivial
  · exact h.bind (h.note rfl _ _) fun _ _ => h.pure trivial

theorem readElement (name : String) (indices : List Int) (here : S line) : C.of (readElement name indices line) := by
  refine h.bind (h.find name here) fun ⟨_, v⟩ _ => ?_
  refine h.bind (h.ofExcept here (element_checked v name indices)) fun value _ => ?_
  exact h.bind (h.note rfl _ _) fun _ _ => h.pure trivial

theorem recordStore (name : String) (type : DataType) (value : Value) (address : Option Nat)
    (old : Option Value) (line : Nat) :
    C.of (recordStore name type value address old line) := by
  unfold Exec.recordStore
  dsimp only
  split
  · exact h.note rfl _ _
  · exact h.note rfl _ _

theorem modifyScopes {f : Scopes → Scopes} (depth : ∀ s, (f s).depth = s.depth) : C.of (modifyScopes f) :=
  h.setVariables (fun _ _ _ _ _ => rfl) (fun _ => ⟨rfl, rfl, rfl, rfl, rfl, rfl⟩) fun m => depth m.scopes

theorem declareVariable (name : String) (v : ScopeId → Variable) (here : S line) :
    C.of (declareVariable name v line) := by
  refine h.look (fun _ _ _ _ _ => rfl) fun m => h.look (fun _ _ _ _ _ => rfl) fun m' => ?_
  split
  · exact h.modifyScopes fun _ => Scopes.depth_declare _
  · exact h.fail here trivial

theorem declare (name : String) (type : DataType) (here : S line) : C.of (declare name type line) := by
  refine h.bind (h.ofExcept here (startValue_checked name type)) fun value _ => ?_
  exact h.bind (h.declareVariable name _ here) fun _ _ => h.note rfl _ _

theorem declareConstant (name : String) (value : Value) (here : S line) : C.of (declareConstant name value line) := by
  unfold Exec.declareConstant
  split
  · exact h.fail here trivial
  · exact h.bind (h.declareVariable name _ here) fun _ _ => h.note rfl _ _

theorem assignVariable (name : String) (value : Value) (here : S line) : C.of (assignVariable name value line) := by
  refine h.bind (h.find name here) fun ⟨cell, v⟩ _ => ?_
  dsimp only
  split
  · exact h.fail here trivial
  · refine h.bind (h.ofExcept here (checkFit_checked name v.type value)) fun _ _ => ?_
    refine h.bind (h.modifyScopes fun _ => rfl) fun _ _ => ?_
    split
    · exact h.bind (h.discard (h.writeArena _ _ here)) fun _ _ => h.recordStore _ _ _ _ _ line
    · exact h.recordStore _ _ _ _ _ line

theorem assignElement (name : String) (indices : List Int) (value : Value) (here : S line) :
    C.of (assignElement name indices value line) := by
  refine h.bind (h.find name here) fun ⟨cell, v⟩ _ => ?_
  refine h.bind (h.ofExcept here (planElement_checked v name indices value)) fun plan _ => ?_
  refine h.bind (h.modifyScopes fun _ => rfl) fun _ _ => ?_
  exact h.recordStore _ _ _ _ _ line

theorem assignThrough (address : Nat) (value : Value) (here : S line) : C.of (assignThrough address value line) := by
  have stores {details : Details} {told : Option Value → Details} : C.of (do
      let old ← Exec.writeArena address value line
      Exec.record .dereference line details
      Exec.record .write line (told old)) := by
    refine h.bind (h.writeArena address value here) fun _ _ => ?_
    exact h.bind (h.note rfl _ _) fun _ _ => h.note rfl _ _
  simp only [Exec.assignThrough]
  split
  · exact h.fail here trivial
  · refine h.bind (h.boundVariable? address) fun found _ => ?_
    split
    · split
      · exact h.fail here trivial
      · refine h.bind (h.ofExcept here (checkFit_checked _ _ value)) fun _ _ => ?_
        exact h.bind (h.modifyScopes fun _ => rfl) fun _ _ => stores
    · exact stores

theorem counterCell (name : String) (here : S line) : C.of (counterCell name line) := by
  refine h.look (fun _ _ _ _ _ => rfl) fun m => ?_
  split
  · exact h.pure trivial
  · refine h.look (fun _ _ _ _ _ => rfl) fun m' => ?_
    refine h.bind (h.declareVariable name _ here) fun _ _ => ?_
    exact h.bind (h.note rfl _ _) fun _ _ => h.pure trivial

theorem bindParameter (callable : String) (p : Param) (b : Binding) (line : Nat) :
    C.of (bindParameter callable p b line) := by
  have binds {x : Exec σ Unit} (onCell : C.of x) (value : Option Value) (id : ScopeId) :
      C.of (do
        if (← get).scopes.accepts id p.name then x
        Exec.record .declare line
          { subject := some p.name, value := value.map Value.display,
            note := some s!"{p.mode.keyword} parameter of {callable}" }) := by
    refine h.look (fun _ _ _ _ _ => rfl) fun m => ?_
    split
    · exact h.bind onCell fun _ _ => h.note rfl _ _
    · exact h.note rfl _ _
  refine h.look (fun _ _ _ _ _ => rfl) fun m => ?_
  cases b with
  | shared cell =>
    exact h.look (fun _ _ _ _ _ => rfl) fun m' => binds (h.modifyScopes fun _ => Scopes.depth_link) _ _
  | copied v => exact binds (h.modifyScopes fun _ => Scopes.depth_declare _) (some v) _

theorem bindParameters (callable : String) (line : Nat) (ps : List Param) (bs : List Binding) :
    C.of (bindParameters callable line ps bs) := by
  induction ps generalizing bs with
  | nil => exact h.pure trivial
  | cons p ps ih =>
    cases bs with
    | nil => exact h.pure trivial
    | cons b bs => exact h.bind (h.bindParameter callable p b line) fun _ _ => ih bs

end StoreSteps

namespace ArenaSteps

variable {C : Property σ} {S : Nat → Prop} (h : ArenaSteps C S)

include h

theorem bindAddress (name : String) (cell : CellId) (v : Variable) {line : Nat} (here : S line) :
    C.of (bindAddress name cell v line) := by
  have binds (address : Nat) (details : Details) : C.of (do
      modify fun m =>
        { m with
          scopes := m.scopes.update cell fun v => { v with address := some address }
          bound := (address, cell) :: m.bound }
      Exec.record .allocate line details
      pure address) := by
    refine h.bind (h.setVariables (fun _ _ _ _ _ => rfl) (fun _ => ⟨rfl, rfl, rfl, rfl, rfl, rfl⟩) fun _ => rfl)
      fun _ _ => ?_
    exact h.bind (h.record _ _ _) fun _ _ => h.pure trivial
  simp only [Exec.bindAddress]
  split
  · exact h.fail here trivial
  · refine h.bind (h.allocate _ _ here) fun address _ => ?_
    split
    · exact h.bind (h.discard (h.writeArena _ _ here)) fun _ _ => binds address _
    · exact binds address _

theorem addressOf (name : String) {line : Nat} (here : S line) : C.of (addressOf name line) := by
  have gives (address : Nat) : C.of (do
      Exec.record .addressOf line { subject := some name, address := some address }
      pure address) :=
    h.bind (h.record _ _ _) fun _ _ => h.pure trivial
  refine h.bind (h.find name here) fun ⟨cell, v⟩ _ => ?_
  dsimp only
  split
  · exact gives _
  · exact h.bind (h.bindAddress name cell v here) fun address _ => gives address

theorem freeBlock (v : Value) {line : Nat} (here : S line) : C.of (freeBlock v line) := by
  cases v with
  | address a =>
    refine h.look (fun _ _ _ _ _ => rfl) fun m => ?_
    split
    · exact h.fail here trivial
    · exact h.bind (h.release a here) fun block _ => h.record _ _ _
  | _ => exact h.fail here trivial

theorem endVariable (id : ScopeId) (name : String) (cell : CellId) {line : Nat} (here : S line) :
    C.of (endVariable id name cell line) := by
  refine h.look (fun _ _ _ _ _ => rfl) fun m => ?_
  split
  · exact h.pure trivial
  · split
    · refine h.bind (h.modifyScopes fun _ => rfl) fun _ _ => ?_
      split
      · refine h.bind (h.setVariables (fun _ _ _ _ _ => rfl) (fun _ => ⟨rfl, rfl, rfl, rfl, rfl, rfl⟩) fun _ => rfl)
          fun _ _ => ?_
        exact h.bind (h.discard (h.release _ here)) fun _ _ => h.record _ _ _
      · exact h.pure trivial
    · exact h.pure trivial

theorem memorySteps : MemorySteps C S where
  toStoreSteps := h.toStoreSteps
  addressOf := h.addressOf
  allocateBlock := h.allocateBlock
  freeBlock := h.freeBlock
  endVariable := h.endVariable

end ArenaSteps

/-- So they do for the steps on memory, if changes of the arena are like others. -/
theorem Sequential.memorySteps {S : Nat → Prop} (h : Sequential C S)
    (setVariables : ∀ {f : Machine σ → Machine σ},
      (∀ m a t l s, f (m.besides a t l s) = (f m).besides a t l s) → (∀ m, SameControl m (f m)) →
        (∀ m, (f m).scopes.depth = m.scopes.depth) → C.of (modify f))
    (setArena : ∀ f : Arena → Arena, C.of (modify fun m => { m with arena := f m.arena })) : MemorySteps C S := by
  have allocates (size : Nat) (tag : String) {line : Nat} (here : S line) :
      C.of (allocate size tag line) := by
    refine h.look (fun _ _ _ _ => rfl) fun m => ?_
    split
    · exact h.fail here trivial
    case h_2 start _ => exact h.bind (setArena (·.occupy start size tag)) fun _ _ => h.pure trivial
  exact ArenaSteps.memorySteps {
    toSequences := h.toSequences
    look := fun blind => h.look fun m t l s => blind m m.arena t l s
    setVariables := setVariables
    record := h.record
    allocate := allocates
    release := fun address _ here => by
      refine h.look (fun _ _ _ _ => rfl) fun m => ?_
      split
      · exact h.fail here trivial
      case h_2 block _ => exact h.bind (setArena (·.vacate block)) fun _ _ => h.pure trivial
    writeArena := fun address value _ here => by
      refine h.look (fun _ _ _ _ => rfl) fun m => ?_
      split
      · exact h.fail here trivial
      · exact h.bind (setArena (·.put address value)) fun _ _ => h.pure trivial
    readThrough := fun address _ here => by
      refine h.look (fun _ _ _ _ => rfl) fun m => ?_
      split
      · exact h.fail here trivial
      · exact h.bind (h.record _ _ _) fun _ _ => h.bind (h.record _ _ _) fun _ _ => h.pure trivial
    allocateBlock := fun size tag _ here => by
      simp only [Exec.allocateBlock]
      split
      · exact h.fail here trivial
      · refine h.look (fun _ _ _ _ => rfl) fun m => ?_
        split
        · exact h.fail here trivial
        · refine h.bind (allocates _ _ here) fun address _ => ?_
          exact h.bind (h.record _ _ _) fun _ _ => h.pure trivial }

namespace MemorySteps

variable {C : Property σ} {S : Nat → Prop} (h : MemorySteps C S)

include h

theorem endVariables (id : ScopeId) (line : Nat) (here : S line) (names : List (String × CellId)) :
    C.of (endVariables id line names) := by
  induction names with
  | nil => exact h.pure trivial
  | cons entry rest ih => exact h.bind (h.endVariable id entry.1 entry.2 here) fun _ _ => ih

theorem closeScope (line : Nat) (here : S line) (pop : C.of (Exec.modifyScopes (·.pop))) :
    C.of (do
    match (← get).scopes.innermost? with
    | none => pure ()
    | some scope =>
      Exec.modifyScopes (·.pop)
      Exec.endVariables (← get).scopes.depth line scope.names) := by
  refine h.look (fun _ _ _ _ _ => rfl) fun m => ?_
  split
  · exact h.pure trivial
  · refine h.bind pop fun _ _ => ?_
    exact h.look (fun _ _ _ _ _ => rfl) fun m' => h.endVariables _ line here _

end MemorySteps

/-- Where nothing is known of values and cells, nothing is asked of them either. -/
theorem MemorySteps.related (h : MemorySteps C)
    (both : ∀ {α : Type} {w : W} {Q : W → α → Prop} {x : Exec σ α}, (∀ w a, Q w a) → C.of x → L w Q x x)
    (values : ∀ w v, κ.value w v) (cells : ∀ w c, κ.cell w c) : Semantics.MemoryRelated L κ where
  find name _ := both (fun w found => cells w found.1) (h.find name trivial)
  readVariable name _ := both values (h.readVariable name trivial)
  readElement name indices _ := both values (h.readElement name indices trivial)
  readThrough address _ := both values (h.readThrough address trivial)
  counterValue name _ _ := both (fun _ _ => trivial) (h.counterValue _ name trivial)
  addressOf name _ := both (fun _ _ => trivial) (h.addressOf name trivial)
  allocateBlock count tag _ := both values (h.allocateBlock count tag trivial)
  freeBlock v _ := both (fun _ _ => trivial) (h.freeBlock v trivial)
  declare name type _ := both (fun _ _ => trivial) (h.declare name type trivial)
  declareConstant name v _ _ := both (fun _ _ => trivial) (h.declareConstant name v trivial)
  assignVariable name v _ _ := both (fun _ _ => trivial) (h.assignVariable name v trivial)
  assignElement name indices v _ _ := both (fun _ _ => trivial) (h.assignElement name indices v trivial)
  assignThrough address v _ _ := both (fun _ _ => trivial) (h.assignThrough address v trivial)
  counterCell name _ := both cells (h.counterCell name trivial)

/-- What is known of the steps on memory may be joined with a property that they have. -/
theorem MemorySteps.refine (h : MemorySteps C) (known : Semantics.MemoryRelated L κ)
    (both : ∀ {α : Type} {w : W} {P : α → Prop} {Q : W → α → Prop} {x : Exec σ α}, L w Q x x → C P x → L' w Q x x) :
    Semantics.MemoryRelated L' κ where
  find name line := both (known.find name line) (h.find name trivial)
  readVariable name line := both (known.readVariable name line) (h.readVariable name trivial)
  readElement name indices line := both (known.readElement name indices line) (h.readElement name indices trivial)
  readThrough address line := both (known.readThrough address line) (h.readThrough address trivial)
  counterValue name line seen := both (known.counterValue name line seen) (h.counterValue _ name trivial)
  addressOf name line := both (known.addressOf name line) (h.addressOf name trivial)
  allocateBlock count tag line := both (known.allocateBlock count tag line) (h.allocateBlock count tag trivial)
  freeBlock v line := both (known.freeBlock v line) (h.freeBlock v trivial)
  declare name type line := both (known.declare name type line) (h.declare name type trivial)
  declareConstant name v line value :=
    both (known.declareConstant name line value) (h.declareConstant name v trivial)
  assignVariable name v line value := both (known.assignVariable name line value) (h.assignVariable name v trivial)
  assignElement name indices v line value :=
    both (known.assignElement name indices line value) (h.assignElement name indices v trivial)
  assignThrough address v line value :=
    both (known.assignThrough address line value) (h.assignThrough address v trivial)
  counterCell name line := both (known.counterCell name line) (h.counterCell name trivial)

/-- So may what is known of the others. -/
theorem QuietSteps.refine (h : QuietSteps C) (known : Semantics.QuietRelated L κ)
    (both : ∀ {α : Type} {w : W} {P : α → Prop} {Q : W → α → Prop} {x : Exec σ α}, L w Q x x → C P x → L' w Q x x) :
    Semantics.QuietRelated L' κ where
  currentLine := both known.currentLine h.currentLine
  fileEnds v line := both (known.fileEnds v line) (h.fileEnds v line)
  draw := both known.draw h.draw
  requireCall line := both (known.requireCall line) (h.requireCall line)

/-- What is known of all steps may be joined with a property as well, also for steps under two
configurations, if what depends on the configuration is given. -/
theorem HostSteps.refine {config : Config} (h : HostSteps C ctx) (memory : MemorySteps C)
    (known : Semantics.Steps L κ Eq ctx ctx) (sequenced : Semantics.Sequenced L' κ)
    (both : ∀ {α : Type} {w : W} {P : α → Prop} {Q : W → α → Prop} {x : Exec σ α}, L w Q x x → C P x → L' w Q x x)
    (interrupted : ∀ {w : W} (access : Access) (st : Stmt),
      L' w (fun _ _ => True) (Exec.interrupted ctx access st) (Exec.interrupted { ctx with config } access st))
    (echo : ∀ {w : W} (text : String) (line : Nat),
      L' w (fun _ _ => True) (Exec.echo ctx text line) (Exec.echo { ctx with config } text line)) :
    Semantics.Steps L' κ Eq ctx { ctx with config } where
  toSequenced := sequenced
  toMemoryRelated := memory.refine known.toMemoryRelated both
  toQuietRelated := h.toQuietSteps.refine known.toQuietRelated both
  values := known.values
  definitions _ := rfl
  denied := rfl
  interrupted := by
    rintro w access _ rfl st
    exact interrupted access st
  requireHost := by
    rintro w access _ rfl statement line
    exact both (known.requireHost rfl statement line) (h.requireHost access statement line)
  emit _ l := both (known.emit rfl l) (h.emit l)
  echo _ text line := echo text line
  askInput _ name type := both (known.askInput rfl name type) (h.askInput name type)
  openNamed _ name mode line := both (known.openNamed rfl name mode line) (h.openNamed name mode line)
  readNamed _ name line := both (known.readNamed rfl name line) (h.readNamed name line)
  writeNamed _ name text line := both (known.writeNamed rfl name text line) (h.writeNamed name text line)
  closeNamed _ name line := both (known.closeNamed rfl name line) (h.closeNamed name line)

section Stepwise

variable (sequenced : Semantics.Sequenced L κ) (memory : Semantics.MemoryRelated L κ)
  (both : ∀ {α : Type} {w : W} {Q : α → Prop} {x : Exec σ α}, C Q x → L w (fun _ => Q) x x)
  (values : ∀ w, Value.Closed (κ.value w))

include sequenced both values

theorem QuietSteps.related (h : QuietSteps C) : Semantics.QuietRelated L κ where
  currentLine := both h.currentLine
  fileEnds v line := by
    rw [← bind_pure (Exec.fileEnds v line)]
    refine sequenced.bind (both (h.fileEnds v line)) ?_
    rintro w' _ _ ⟨b, rfl⟩
    exact sequenced.pure ((values w').boolean b)
  draw := both h.draw
  requireCall line := both (h.requireCall line)

include memory

/-- The steps do not depend on what runs the bodies of callables, nor on the limit of the trace. -/
theorem HostSteps.steps (h : HostSteps C ctx) (limit : Nat) (below : Option (Runner σ)) :
    Semantics.Steps L κ Eq ctx { ctx with config := { ctx.config with traceLimit := limit }, below } where
  toSequenced := sequenced
  toMemoryRelated := memory
  toQuietRelated := h.related sequenced both values
  values := values
  definitions _ := rfl
  denied := rfl
  interrupted := by
    rintro w access _ rfl st
    exact both (h.interrupted access st)
  requireHost := by
    rintro w access _ rfl statement line
    exact both (h.requireHost access statement line)
  emit _ l := both (h.emit l)
  echo _ text line := both (h.echo text line)
  askInput _ name type := both (h.askInput name type)
  openNamed _ name mode line := both (h.openNamed name mode line)
  readNamed _ name line := both (h.readNamed name line)
  writeNamed _ name text line := both (h.writeNamed name text line)
  closeNamed _ name line := both (h.closeNamed name line)

/-- Where no statement has rights, the steps that need them are not taken. -/
theorem QuietSteps.steps (h : QuietSteps C) (budget : ∀ line, C.of (Exec.checkBudget ctx.config line)) :
    Semantics.Steps L κ (fun access access' => access = .denied ∧ access' = .denied) ctx ctx where
  toSequenced := sequenced
  toMemoryRelated := memory
  toQuietRelated := h.related sequenced both values
  values := values
  definitions _ := rfl
  denied := ⟨rfl, rfl⟩
  interrupted := by
    rintro w _ _ ⟨rfl, rfl⟩ st
    exact both (h.mono (h.interrupted_denied st (budget st.line)) fun _ _ => trivial)
  requireHost := by
    rintro w _ _ ⟨rfl, rfl⟩ statement line
    exact both (h.requireHost .denied statement line)
  emit rights := nomatch rights.1
  echo rights := nomatch rights.1
  askInput rights := nomatch rights.1
  openNamed rights := nomatch rights.1
  readNamed rights := nomatch rights.1
  writeNamed rights := nomatch rights.1
  closeNamed rights := nomatch rights.1

end Stepwise

end Exec

end Pseudocode
