import Pseudocode.Proofs.Semantics.Related
import Pseudocode.Proofs.Steps

/-!
What single steps of the machine preserve. A step preserves a property of states if it ends in a state
that has the property whenever it begins in one, also when it fails. What depends on memory alone is
preserved by the steps that leave memory alone, and what does not depend on it by those that change
nothing else.
-/

namespace Pseudocode

namespace Exec

open Machine

variable {σ : Type} {α β : Type}

/-- A step has ended in a state with a property, and `Q` holds of its result. -/
def Ends (Inv : Machine σ → Prop) (Q : α → Prop) : EStateM.Result RuntimeError (Machine σ) α → Prop
  | .ok a m => Inv m ∧ Q a
  | .error _ m => Inv m

def Preserves (Inv : Machine σ → Prop) (Q : α → Prop) (x : Exec σ α) : Prop :=
  ∀ m, Inv m → Ends Inv Q (x m)

variable {x : Exec σ α} {r : EStateM.Result RuntimeError (Machine σ) α} {Inv : Machine σ → Prop} {f : α → Exec σ β}
  {Inv' : Machine σ → Prop}

theorem bind_of_ok {m m' : Machine σ} {a : α} (ended : x m = .ok a m') : (x >>= f) m = f a m' := by
  show EStateM.bind x f m = _
  rw [EStateM.bind, ended]

theorem bind_of_error {m m' : Machine σ} {e : RuntimeError} (ended : x m = .error e m') :
    (x >>= f) m = .error e m' := by
  show EStateM.bind x f m = _
  rw [EStateM.bind, ended]

theorem get_bind (f : Machine σ → Exec σ β) (m : Machine σ) : (get >>= f) m = f m m := rfl

theorem modify_bind (g : Machine σ → Machine σ) (f : Unit → Exec σ β) (m : Machine σ) :
    (modify g >>= f) m = f () (g m) := rfl

/-- A step that ended went through its first part. -/
theorem bind_eq_ok {m m' : Machine σ} {b : β} (ended : (x >>= f) m = .ok b m') :
    ∃ a m₁, x m = .ok a m₁ ∧ f a m₁ = .ok b m' := by
  cases run : x m with
  | error e m₁ =>
    rw [bind_of_error run] at ended
    cases ended
  | ok a m₁ =>
    rw [bind_of_ok run] at ended
    exact ⟨a, m₁, rfl, ended⟩

theorem discard_of_ok {m m' : Machine σ} {a : α} (ended : x m = .ok a m') : discard x m = .ok () m' :=
  bind_of_ok ended

theorem discard_of_error {m m' : Machine σ} {e : RuntimeError} (ended : x m = .error e m') :
    discard x m = .error e m' :=
  bind_of_error ended

theorem discard_bind (x : Exec σ α) (f : Unit → Exec σ β) : discard x >>= f = x >>= fun _ => f () := by
  funext m
  cases run : x m with
  | ok a m' => rw [bind_of_ok (discard_of_ok run), bind_of_ok run]
  | error e m' => rw [bind_of_error (discard_of_error run), bind_of_error run]

theorem Ends.mono {Q Q' : α → Prop} (h : Ends Inv Q r) (states : ∀ m, Inv m → Inv' m) (results : ∀ a, Q a → Q' a) :
    Ends Inv' Q' r := by
  cases r with
  | ok a m => exact ⟨states m h.1, results a h.2⟩
  | error e m => exact states m h

theorem Ends.bind {P : α → Prop} {Q : β → Prop} {m : Machine σ} (first : Ends Inv P (x m))
    (next : ∀ a, P a → Preserves Inv Q (f a)) : Ends Inv Q ((x >>= f) m) := by
  cases run : x m with
  | ok a m' =>
    rw [run] at first
    rw [bind_of_ok run]
    exact next a first.2 m' first.1
  | error e m' =>
    rw [run] at first
    rw [bind_of_error run]
    exact first

namespace Preserves

variable {Inv : Machine σ → Prop}

theorem pure {Q : α → Prop} {a : α} (h : Q a) : Preserves Inv Q (pure a) := fun _ inv => ⟨inv, h⟩

theorem throw {Q : α → Prop} (e : RuntimeError) : Preserves Inv Q (throw e) := fun _ inv => inv

theorem bind {P : α → Prop} {Q : β → Prop} {x : Exec σ α} {f : α → Exec σ β} (first : Preserves Inv P x)
    (next : ∀ a, P a → Preserves Inv Q (f a)) : Preserves Inv Q (x >>= f) :=
  fun m inv => (first m inv).bind next

/-- A step that looks at the state does what it would do in the state that it sees. -/
theorem get {Q : β → Prop} {f : Machine σ → Exec σ β} (next : ∀ m, Inv m → Ends Inv Q (f m m)) :
    Preserves Inv Q (get >>= f) :=
  fun m inv => next m inv

theorem checkBudget (config : Config) (line : Nat) : Preserves Inv (fun _ => True) (checkBudget config line) := by
  refine .get fun m inv => ?_
  split
  · exact inv
  · exact ⟨inv, trivial⟩

theorem modify {f : Machine σ → Machine σ} (step : ∀ m, Inv m → Inv (f m)) :
    Preserves Inv (fun _ => True) (modify f) :=
  fun m inv => ⟨step m inv, trivial⟩

theorem sequential (untraced : ∀ m t, Inv m → Inv (m.withTrace t)) : Sequential fun _ => Preserves Inv where
  pure := .pure
  throw _ _ := .throw _
  bind := .bind
  look _ next := .get fun m inv => next m m inv
  record _ _ _ := .modify fun m inv => untraced m _ inv

/-- A step that changes memory preserves what is known of all else. -/
theorem memorySteps (looks : ∀ m m', SameControl m m' → Inv m → Inv m') : MemorySteps fun _ => Preserves Inv :=
  (sequential fun m _ => looks m _ ⟨rfl, rfl, rfl, rfl, rfl, rfl⟩).memorySteps
    (fun _ same _ => .modify fun m inv => looks m _ (same m) inv)
    fun _ => .modify fun m inv => looks m _ ⟨rfl, rfl, rfl, rfl, rfl, rfl⟩ inv

/-- A step that leaves memory and the trace alone preserves what is known of the two. -/
theorem controlSteps (looks : ∀ m m', m'.memory = m.memory → m'.trace = m.trace → Inv m → Inv m') :
    ControlSteps fun _ => Preserves Inv where
  pure := .pure
  throw _ _ := .throw _
  bind := .bind
  look _ next := .get fun m inv => next m m inv
  control blind same := by
    intro m inv
    have trace := congrArg (·.2.trace) (blind m m.memory m.trace)
    exact ⟨looks m _ (same m).memory trace inv, trivial⟩
  showState _ m inv := ⟨looks m _ rfl rfl inv, trivial⟩

end Preserves

/-- A step has ended in a state with a property, and `Q` holds of its result in that state. -/
def EndsAt (Inv : Machine σ → Prop) (Q : Machine σ → α → Prop) :
    EStateM.Result RuntimeError (Machine σ) α → Prop
  | .ok a m => Inv m ∧ Q m a
  | .error _ m => Inv m

theorem EndsAt.mono {Q Q' : Machine σ → α → Prop} (h : EndsAt Inv Q r) (states : ∀ m, Inv m → Inv' m)
    (results : ∀ m a, Inv m → Q m a → Q' m a) : EndsAt Inv' Q' r := by
  cases r with
  | ok a m => exact ⟨states m h.1, results m a h.1 h.2⟩
  | error e m => exact states m h

/-- Begun in a state with a property, a step ends in a later state that has it. -/
def Keeps (κ : Knowledge (Machine σ)) (Inv : Machine σ → Prop) (m : Machine σ) (Q : Machine σ → α → Prop)
    (x : Exec σ α) : Prop :=
  Inv m → EndsAt (fun m' => Inv m' ∧ κ.Later m m') Q (x m)

namespace Keeps

variable {κ : Knowledge (Machine σ)} {Inv : Machine σ → Prop} {m : Machine σ}

theorem sequenced : Semantics.Sequenced (.onLeft (Keeps κ Inv)) κ where
  pure known inv := ⟨⟨inv, κ.refl _⟩, known⟩
  throw _ inv := ⟨inv, κ.refl _⟩
  bind := by
    intro α β m P Q x _ f _ first next inv
    have ended := first inv
    cases run : x m with
    | ok a m' =>
      rw [run] at ended
      rw [bind_of_ok run]
      refine (next m' a ended.1.2 ended.2 ended.1.1).mono ?_ fun _ _ _ known => known
      exact fun m'' there => ⟨there.1, κ.trans ended.1.2 there.2⟩
    | error e m' =>
      rw [run] at ended
      rw [bind_of_error run]
      exact ended

end Keeps

theorem Preserves.keeps {Q : α → Prop} (h : Preserves Inv Q x) (m : Machine σ) :
    Keeps .nothing Inv m (fun _ => Q) x := by
  intro inv
  have ended := h m inv
  cases run : x m with
  | ok a m' =>
    rw [run] at ended
    exact ⟨⟨ended.1, trivial⟩, ended.2⟩
  | error e m' =>
    rw [run] at ended
    exact ⟨ended, trivial⟩

/-- A step leaves memory alone. -/
def LeavesMemory : Property σ := fun _ Q x => ∀ m, Ends (SameMemory m) Q (x m)

theorem LeavesMemory.sequential : Sequential (LeavesMemory : Property σ) where
  pure known m := ⟨.refl m, known⟩
  throw _ _ m := .refl m
  bind first next m := (first m).bind fun a known _ same =>
    (next a known _).mono (fun _ there => same.trans there) fun _ q => q
  look _ next m := next m m
  record _ _ _ _ := ⟨⟨rfl, rfl, rfl, rfl, rfl⟩, trivial⟩

theorem LeavesMemory.controlSteps : ControlSteps (LeavesMemory : Property σ) :=
  sequential.controlSteps fun _ same m => ⟨same m, trivial⟩

theorem LeavesMemory.checkBudget (config : Config) (line : Nat) :
    LeavesMemory (fun _ => True) (checkBudget config line : Exec σ Unit) :=
  controlSteps.quietSteps.checkBudget (fun _ m => .refl m) config line

/-- The same computation in two runs, which has a property. -/
def Alike (C : Property σ) : FlatRelation (Exec σ) (Exec σ) := fun _ Q x y => x = y ∧ C Q x

namespace Alike

variable {C : Property σ}
  (gives : ∀ {α : Type} {Q : α → Prop} {x : Exec σ α}, C Q x → ∀ m, Ends (fun _ => True) Q (x m))

include gives

theorem bind (h : Sequences C) {P : α → Prop} {Q : β → Prop} {x y : Exec σ α} {f g : α → Exec σ β}
    (first : Alike C P x y) (next : ∀ a, P a → Alike C Q (f a) (g a)) : Alike C Q (x >>= f) (y >>= g) := by
  obtain ⟨rfl, known⟩ := first
  refine ⟨funext fun m => ?_, h.bind known fun a p => (next a p).2⟩
  have ended := gives known m
  cases run : x m with
  | ok a m' =>
    rw [run] at ended
    rw [bind_of_ok run, bind_of_ok run, (next a ended.2).1]
  | error e m' => rw [bind_of_error run, bind_of_error run]

theorem sequenced {κ : Knowledge Unit} (h : Sequences C) : Semantics.Sequenced (Alike C).staged κ where
  pure known := ⟨rfl, h.pure known⟩
  throw ordinary := ⟨rfl, h.throw ordinary trivial⟩
  bind first next := bind gives h first fun a known => next () a (κ.refl ()) known

omit gives in
theorem memoryRelated (memory : MemorySteps C) : Semantics.MemoryRelated (Alike C).staged .nothing :=
  memory.related (fun known step => ⟨rfl, memory.mono step fun a _ => known _ a⟩) (fun _ _ => trivial)
    fun _ _ => trivial

theorem steps (control : ControlSteps C) (memory : MemorySteps C)
    (throws : ∀ e, C.of (throw e : Exec σ Unit)) (ctx : Context σ) (limit : Nat)
    (below : Option (Runner σ)) :
    Semantics.Steps (Alike C).staged .nothing Eq ctx
      { ctx with config := { ctx.config with traceLimit := limit }, below } :=
  (control.hostSteps (control.quietSteps.checkBudget throws ctx.config)).steps
    (sequenced gives control.toSequences) (memoryRelated memory) (fun known => ⟨rfl, known⟩) (fun _ => .true)
    limit below

end Alike

/-- A property that all steps have which have nothing to do with the host and the files, and with it the
opening and closing of frames, the counting of loop passes, and every error. -/
structure Framing (C : Property σ) : Prop where
  memorySteps : MemorySteps C
  quietSteps : QuietSteps C
  throw {α : Type} {Q : α → Prop} (e : RuntimeError) : C Q (throw e)
  setCalls (f : CallStack → CallStack) : C.of (modify fun m => { m with calls := f m.calls })
  setScopes (f : Scopes → Scopes) : C.of (modifyScopes f)
  countPass : C.of (modify fun m => { m with iterations := m.iterations + 1 })

namespace Framing

variable {C : Property σ} (h : Framing C)

include h

theorem enter (d : Definition Stmt) (kind : CallableKind) (bindings : List Binding) (line : Nat) :
    C.of (enter d kind bindings line) := by
  refine h.memorySteps.bind (h.setScopes _) fun _ _ => ?_
  refine h.memorySteps.bind (h.memorySteps.bindParameters d.name line d.params bindings) fun _ _ => ?_
  exact h.setCalls (·.push _)

theorem leave (line : Nat) : C.of (leave line) :=
  h.memorySteps.bind (h.setCalls _) fun _ _ => h.memorySteps.closeScope line trivial (h.setScopes _)

theorem closeCall (line : Nat) {Q : Flow → Prop} {result : Except RuntimeError Flow}
    (known : ∀ flow, result = .ok flow → Q flow) : C (fun ended => Q ended.1) (closeCall line result) := by
  refine h.quietSteps.bind h.quietSteps.currentLine fun last _ => ?_
  refine h.quietSteps.bind (h.leave line) fun _ _ => ?_
  cases result with
  | ok flow => exact h.quietSteps.pure (known flow rfl)
  | error e => exact h.throw e

theorem checkBudget (config : Config) (line : Nat) : C.of (checkBudget config line) :=
  h.quietSteps.checkBudget h.throw config line

end Framing

/-- So has what goes on after an error. -/
structure Enclosing (C : Property σ) : Prop extends Framing C where
  gives {α : Type} {Q : α → Prop} {x : Exec σ α} : C Q x → ∀ m, Ends (fun _ => True) Q (x m)
  attempt {α : Type} {Q : α → Prop} {x : Exec σ α} :
    C Q x → C (fun r => ∀ a, r = .ok a → Q a) (attempt x)

namespace Enclosing

variable {C : Property σ} (h : Enclosing C)

include h

/-- A call has the property if its body has it. -/
theorem call (d : Definition Stmt) (kind : CallableKind) (bindings : List Binding) (line : Nat)
    {Q : Flow → Prop} {body : Exec σ Flow} (onBody : C Q body) :
    C (fun ended => Q ended.1)
      (do Exec.enter d kind bindings line; let result ← Exec.attempt body; Exec.closeCall line result) := by
  refine h.quietSteps.bind (h.enter d kind bindings line) fun _ _ => ?_
  exact h.quietSteps.bind (h.attempt onBody) fun result returned => h.closeCall line returned

theorem calls : Semantics.Counted.Calls (Alike C).staged .nothing := by
  intro _ d kind bindings line body body' _ onBody
  obtain ⟨rfl, known⟩ := onBody ()
  exact ⟨rfl, h.call d kind bindings line known⟩

theorem counted (config : Config) : Semantics.Counted (Alike C).staged .nothing config where
  toSequenced := Alike.sequenced h.gives h.quietSteps.toSequences
  tick line := ⟨rfl, h.quietSteps.bind h.countPass fun _ _ => h.checkBudget config line⟩
  overrun _ := ⟨rfl, h.quietSteps.bind h.countPass fun _ _ => h.throw _⟩
  passesLeft := ⟨rfl, h.quietSteps.look (fun _ _ _ _ _ => rfl) fun _ => h.quietSteps.pure trivial⟩
  refuse _ _ := ⟨rfl, h.throw _⟩

end Enclosing

section Equations

theorem find_eq (name : String) (line : Nat) (m : Machine σ) :
    find name line m =
      match m.find? name with
      | some found => .ok found m
      | none => .error ⟨.undefinedVariable name, line⟩ m := by
  unfold find
  show (match m.find? name with | some found => pure found | none => fail _ line : Exec σ _) m = _
  cases m.find? name <;> rfl

theorem boundVariable?_eq (address : Nat) (m : Machine σ) :
    boundVariable? address m =
      .ok ((m.bound.lookup address).bind fun cell => (m.scopes.cell? cell).map (cell, ·)) m := by
  unfold boundVariable?
  rw [get_bind]
  cases m.bound.lookup address <;> rfl

theorem writeArena_eq (address : Nat) (value : Value) (line : Nat) (m : Machine σ) :
    writeArena address value line m =
      match m.arena.access address with
      | .error fault => .error ⟨.memory fault, line⟩ m
      | .ok slot => .ok slot.value? { m with arena := m.arena.put address value } := by
  unfold writeArena
  show (match m.arena.access address with
    | .error fault => fail (.memory fault) line
    | .ok slot => do
      modify fun m => { m with arena := m.arena.put address value }
      pure slot.value? : Exec σ _) m = _
  cases m.arena.access address <;> rfl

theorem allocate_eq (size : Nat) (tag : String) (line : Nat) (m : Machine σ) :
    allocate size tag line m =
      match m.arena.place size with
      | .error fault => .error ⟨.memory fault, line⟩ m
      | .ok start => .ok start { m with arena := m.arena.occupy start size tag } := by
  unfold allocate
  show (match m.arena.place size with
    | .error fault => fail (.memory fault) line
    | .ok start => do
      modify fun m => { m with arena := m.arena.occupy start size tag }
      pure start : Exec σ _) m = _
  cases m.arena.place size <;> rfl

theorem release_eq (address line : Nat) (m : Machine σ) :
    release address line m =
      match m.arena.freeable address with
      | .error fault => .error ⟨.memory fault, line⟩ m
      | .ok block => .ok block { m with arena := m.arena.vacate block } := by
  unfold release
  show (match m.arena.freeable address with
    | .error fault => fail (.memory fault) line
    | .ok block => do
      modify fun m => { m with arena := m.arena.vacate block }
      pure block : Exec σ _) m = _
  cases m.arena.freeable address <;> rfl

end Equations

section Looks

/-- A step has ended as `Done` says, or it has failed in the state in which it began. -/
def AllOrNothing (m : Machine σ) (Done : α → Machine σ → Prop) :
    EStateM.Result RuntimeError (Machine σ) α → Prop
  | .ok a m' => Done a m'
  | .error _ m' => m' = m

theorem bind_apply (x : Exec σ α) (f : α → Exec σ β) (m : Machine σ) :
    (x >>= f) m =
      match x m with
      | .ok a m' => f a m'
      | .error e m' => .error e m' := by
  cases run : x m with
  | ok a m' => exact bind_of_ok run
  | error e m' => exact bind_of_error run

variable {Inv : Machine σ → Prop} {m : Machine σ} {line : Nat}

namespace AllOrNothing

theorem mono {Done Done' : α → Machine σ → Prop} {r : EStateM.Result RuntimeError (Machine σ) α}
    (h : AllOrNothing m Done r) (weaker : ∀ a m', Done a m' → Done' a m') : AllOrNothing m Done' r := by
  cases r with
  | ok a m' => exact weaker a m' h
  | error e m' => exact h

variable {Done : β → Machine σ → Prop}

theorem bind {First : α → Machine σ → Prop} {x : Exec σ α} {f : α → Exec σ β} (first : AllOrNothing m First (x m))
    (next : ∀ a m', First a m' → AllOrNothing m Done (f a m')) : AllOrNothing m Done ((x >>= f) m) := by
  rw [bind_apply]
  cases run : x m with
  | ok a m' =>
    rw [run] at first
    exact next a m' first
  | error e m' =>
    rw [run] at first
    exact first

theorem find_bind {name : String} {f : CellId × Variable → Exec σ β}
    (next : ∀ found, m.find? name = some found → AllOrNothing m Done (f found m)) :
    AllOrNothing m Done ((find name line >>= f) m) := by
  rw [bind_apply, find_eq]
  cases found : m.find? name with
  | none => rfl
  | some entry => exact next entry found

theorem ofExcept_bind {x : Except Cause α} {f : α → Exec σ β}
    (next : ∀ a, x = .ok a → AllOrNothing m Done (f a m)) : AllOrNothing m Done ((ofExcept line x >>= f) m) := by
  cases x with
  | ok a => exact next a rfl
  | error cause => rfl

end AllOrNothing

namespace Ends

variable {Q : β → Prop}

/-- A step that begins with the look-up of a name goes on with what it found, in the same state. -/
theorem find_bind {name : String} {f : CellId × Variable → Exec σ β} (inv : Inv m)
    (next : ∀ found, m.find? name = some found → Ends Inv Q (f found m)) :
    Ends Inv Q ((find name line >>= f) m) := by
  rw [bind_apply, find_eq]
  cases found : m.find? name with
  | none => exact inv
  | some entry => exact next entry found

/-- A check that fails leaves the state as it is. -/
theorem ofExcept_bind {x : Except Cause α} {f : α → Exec σ β} (inv : Inv m)
    (next : ∀ a, x = .ok a → Ends Inv Q (f a m)) : Ends Inv Q ((ofExcept line x >>= f) m) := by
  cases x with
  | ok a => exact next a rfl
  | error cause => exact inv

/-- A block that cannot be taken leaves the state as it is. -/
theorem allocate_bind {size : Nat} {tag : String} {f : Nat → Exec σ β} (inv : Inv m)
    (next : ∀ start, m.arena.place size = .ok start →
      Ends Inv Q (f start { m with arena := m.arena.occupy start size tag })) :
    Ends Inv Q ((allocate size tag line >>= f) m) := by
  rw [bind_apply, allocate_eq]
  cases placed : m.arena.place size with
  | error fault => exact inv
  | ok start => exact next start placed

/-- So does one that cannot be given back. -/
theorem release_bind {address : Nat} {f : Block → Exec σ β} (inv : Inv m)
    (next : ∀ block, m.arena.freeable address = .ok block →
      Ends Inv Q (f block { m with arena := m.arena.vacate block })) :
    Ends Inv Q ((release address line >>= f) m) := by
  rw [bind_apply, release_eq]
  cases found : m.arena.freeable address with
  | error fault => exact inv
  | ok block => exact next block found

end Ends

end Looks

/-- A call that has been entered is on top of the others. -/
theorem enter_control (d : Definition Stmt) (kind : CallableKind) (bindings : List Binding) (line : Nat)
    (m : Machine σ) :
    match enter d kind bindings line m with
    | .ok _ m' => SameControl { m with calls := m.calls.push ⟨d.name, d.location.line, kind⟩ } m'
    | .error _ m' => SameControl m m' := by
  have binds : Preserves (SameControl m) (fun _ => True) (bindParameters d.name line d.params bindings) :=
    (Preserves.memorySteps fun _ _ same inv => inv.trans same).bindParameters d.name line d.params bindings
  have ended := binds { m with scopes := m.scopes.push globalScope } ⟨rfl, rfl, rfl, rfl, rfl, rfl⟩
  show match EStateM.bind (bindParameters d.name line d.params bindings)
      (fun _ => modify fun m => { m with calls := m.calls.push ⟨d.name, d.location.line, kind⟩ })
      { m with scopes := m.scopes.push globalScope } with
    | .ok _ m' => SameControl { m with calls := m.calls.push ⟨d.name, d.location.line, kind⟩ } m'
    | .error _ m' => SameControl m m'
  unfold EStateM.bind
  cases run : bindParameters d.name line d.params bindings { m with scopes := m.scopes.push globalScope } with
  | ok a m' =>
    rw [run] at ended
    obtain ⟨h, -⟩ := ended
    exact ⟨by simp [h.calls], h.files, h.transcript, h.iterations, h.line, h.host⟩
  | error e m' =>
    rw [run] at ended
    exact ended

/-- Of the calls that ran before a call is left, all but the last run afterwards. -/
theorem leave_control (line : Nat) (m : Machine σ) :
    Ends (SameControl { m with calls := m.calls.pop }) (fun _ => True) (leave line m) := by
  have closes (m₀ : Machine σ) :=
    (Preserves.memorySteps fun (m m' : Machine σ) same (inv : SameControl m₀ m) => inv.trans same).closeScope line
      trivial (.modify fun _ inv => inv.trans ⟨rfl, rfl, rfl, rfl, rfl, rfl⟩)
  exact closes _ _ (.refl _)

end Exec

end Pseudocode
