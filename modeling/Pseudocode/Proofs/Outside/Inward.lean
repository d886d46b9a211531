import Pseudocode.Proofs.Observation

/-!
Steps that have nothing to do with the outside. Such a step takes the same course whatever the state of
the host, and leaves the host, the files and the transcript as they are (`Inward`). All that an
expression does is of this kind, and so is all that statements without rights do (`Inward.runs`); they
are not stopped either (`GoesOn.runBlock`).
-/

namespace Pseudocode

open Exec Machine Semantics

variable {σ : Type} {α β : Type}

namespace Exec

/-- From states that differ in the host alone a step leads to results that differ in the host alone. `Same`
is what is kept of the state. -/
def Apart (Same : Machine σ → Machine σ → Prop) : Property σ := fun _ Q x =>
  ∀ m : Machine σ, Ends (Same m) Q (x m) ∧ ∀ s, x (m.withHost s) = mapState (·.withHost s) (x m)

namespace Apart

variable {Same : Machine σ → Machine σ → Prop}

theorem gives {Q : α → Prop} {x : Exec σ α} (h : Apart Same Q x) (m : Machine σ) :
    Ends (fun _ => True) Q (x m) :=
  (h m).1.mono (fun _ _ => trivial) fun _ known => known

theorem bind (trans : ∀ a b c, Same a b → Same b c → Same a c) {P : α → Prop} {Q : β → Prop}
    {x : Exec σ α} {f : α → Exec σ β} (first : Apart Same P x) (next : ∀ a, P a → Apart Same Q (f a)) :
    Apart Same Q (x >>= f) := by
  intro m
  obtain ⟨ended, blind⟩ := first m
  cases run : x m with
  | ok a m' =>
    rw [run] at ended blind
    obtain ⟨ended', blind'⟩ := next a ended.2 m'
    constructor
    · rw [bind_of_ok run]
      exact ended'.mono (fun _ same => trans m m' _ ended.1 same) fun _ known => known
    · intro s
      rw [bind_of_ok run, bind_of_ok (blind s), blind' s]
  | error e m' =>
    rw [run] at ended blind
    constructor
    · rw [bind_of_error run]
      exact ended
    · intro s
      rw [bind_of_error run, bind_of_error (blind s)]
      rfl

theorem throw (refl : ∀ m, Same m m) {Q : α → Prop} (e : RuntimeError) : Apart Same Q (throw e) :=
  fun m => ⟨refl m, fun _ => rfl⟩

theorem sequences (refl : ∀ m, Same m m) (trans : ∀ a b c, Same a b → Same b c → Same a c) :
    Sequences (Apart Same) where
  pure known m := ⟨⟨refl m, known⟩, fun _ => rfl⟩
  throw _ _ := throw refl _
  bind first next := bind trans first next

theorem look {Q : β → Prop} {f : Machine σ → Exec σ β} (blind : ∀ m s, f (m.withHost s) = f m)
    (next : ∀ m, Apart Same Q (f m)) : Apart Same Q (get >>= f) := by
  intro m
  refine ⟨(next m m).1, fun s => ?_⟩
  show f (m.withHost s) (m.withHost s) = _
  rw [blind]
  exact (next m m).2 s

theorem modifyGet {f : Machine σ → α × Machine σ}
    (blind : ∀ m s, f (m.withHost s) = ((f m).1, (f m).2.withHost s))
    (same : ∀ m, Same m (f m).2) : Apart Same (fun _ => True) (modifyGet f) := by
  intro m
  refine ⟨⟨same m, trivial⟩, fun s => ?_⟩
  show EStateM.Result.ok (f (m.withHost s)).1 (f (m.withHost s)).2 = _
  rw [blind]
  rfl

theorem modify {f : Machine σ → Machine σ} (blind : ∀ m s, f (m.withHost s) = (f m).withHost s)
    (same : ∀ m, Same m (f m)) : Apart Same (fun _ => True) (modify f) := by
  apply modifyGet
  · intro m s
    rw [blind]
  · exact same

theorem attempt {Q : α → Prop} {x : Exec σ α} (h : Apart Same Q x) :
    Apart Same (fun r => ∀ a, r = .ok a → Q a) (attempt x) := by
  intro m
  obtain ⟨ended, blind⟩ := h m
  unfold Exec.attempt
  cases run : x m with
  | ok a m' =>
    rw [run] at ended blind
    refine ⟨⟨ended.1, fun b given => ?_⟩, fun s => ?_⟩
    · cases given
      exact ended.2
    · rw [blind s]
      rfl
  | error e m' =>
    rw [run] at ended blind
    refine ⟨⟨ended, nofun⟩, fun s => ?_⟩
    rw [blind s]
    rfl

theorem quietSteps (refl : ∀ m, Same m m) (trans : ∀ a b c, Same a b → Same b c → Same a c)
    (outside : ∀ a b, SameOutside a b → Same a b) : QuietSteps (Apart Same) where
  toSequences := sequences refl trans
  look blind := look fun m s => blind m m.memory m.trace m.transcript s
  quiet {_ f} blind same keeps := by
    refine modifyGet (fun m s => ?_) fun m => outside m _ (keeps m)
    -- The change gives back the memory, the trace and the transcript that it was given.
    have kept : ((f m).2.withMemory m.memory m.trace).withOutside m.transcript m.host = (f m).2 :=
      congrArg Prod.snd (blind m m.memory m.trace m.transcript m.host).symm
    calc
      f (m.withHost s)
        = ((f m).1, (((f m).2.withMemory m.memory m.trace).withOutside m.transcript m.host).withHost s) :=
          blind m m.memory m.trace m.transcript s
      _ = ((f m).1, (f m).2.withHost s) := by rw [kept]

end Apart

/-- A step has nothing to do with the host, and leaves it as it was. -/
def Hostless : Property σ := Apart fun m m' => m'.host = m.host

theorem Hostless.fileSteps : FileSteps (Hostless : Property σ) where
  toQuietSteps :=
    Apart.quietSteps (fun _ => rfl) (fun _ _ _ first next => next.trans first) fun _ _ same => same.host
  setFiles _ := Apart.modify (fun _ _ => rfl) fun _ => rfl

/-- A step has nothing to do with the outside, and leaves it as it was. -/
def Inward : Property σ := Apart SameOutside

namespace Inward

theorem gives {Q : α → Prop} {x : Exec σ α} (h : Inward Q x) (m : Machine σ) :
    Ends (fun _ => True) Q (x m) :=
  Apart.gives h m

theorem quietSteps : QuietSteps (Inward : Property σ) :=
  Apart.quietSteps .refl (fun _ _ _ => .trans) fun _ _ same => same

theorem sequences : Sequences (Inward : Property σ) := quietSteps.toSequences

theorem memorySteps : MemorySteps (Inward : Property σ) := by
  have sequential : Sequential (Inward : Property σ) :=
    { toSequences := sequences
      look := fun blind => Apart.look fun m s => blind m m.trace m.transcript s
      record := fun _ _ _ => Apart.modify (fun _ _ => rfl) fun _ => ⟨rfl, rfl, rfl⟩ }
  refine sequential.memorySteps (fun {f} blind same _ => ?_) fun _ =>
    Apart.modify (fun _ _ => rfl) fun _ => ⟨rfl, rfl, rfl⟩
  refine Apart.modify (fun m s => ?_) fun m => (same m).sameOutside
  calc
    f (m.withHost s) = ((f m).besides m.arena m.trace m.transcript m.host).withHost s :=
      blind m m.arena m.trace m.transcript s
    _ = (f m).withHost s := by rw [besides_self blind]

theorem enclosing : Enclosing (Inward : Property σ) where
  memorySteps := memorySteps
  quietSteps := quietSteps
  throw := Apart.throw .refl
  gives := gives
  attempt := Apart.attempt
  setCalls _ := Apart.modify (fun _ _ => rfl) fun _ => ⟨rfl, rfl, rfl⟩
  setScopes _ := Apart.modify (fun _ _ => rfl) fun _ => ⟨rfl, rfl, rfl⟩
  countPass := Apart.modify (fun _ _ => rfl) fun _ => ⟨rfl, rfl, rfl⟩

/-- What leaves the outside alone leaves the host alone. -/
theorem hostless {Q : α → Prop} {x : Exec σ α} (h : Inward Q x) : Hostless Q x :=
  fun m => ⟨(h m).1.mono (fun _ same => same.host) fun _ known => known, (h m).2⟩

variable (host : Host σ) (config : Config) (definitions : List (Definition Stmt)) (frames : Nat)

/-- Expressions, and statements without rights, have nothing to do with the outside. -/
theorem runs :
    SelfCongruence (ofExec (runContext host config definitions frames)) (runContext host config definitions frames)
      (Alike (Inward : Property σ)).staged
      (Alike (Inward : Property σ)).staged .nothing
      (fun access access' => access = .denied ∧ access' = .denied) True :=
  (enclosing.counted config).runBlock_related host definitions
    (fun _ => quietSteps.steps (Alike.sequenced gives sequences) (Alike.memoryRelated memorySteps)
      (fun known => ⟨rfl, known⟩) (fun _ => .true) (enclosing.checkBudget config))
    enclosing.calls frames

theorem eval (e : Expr) :
    Inward (fun _ => True) (eval (runContext host config definitions frames) e) := by
  have evaluated := ((runs host config definitions frames).eval () e).2
  rw [eval_ofExec] at evaluated
  exact evaluated

end Inward

/-- Flows that have nothing to do with the outside and do not stop. -/
def GoesOn (x y : Exec σ Flow) : Prop := Alike Inward (fun flow => flow ≠ .halt) x y

namespace GoesOn

theorem bind {Q : α → Prop} {x y : Exec σ α} {f g : α → Exec σ Flow} (first : Alike Inward Q x y)
    (next : ∀ a, Q a → GoesOn (f a) (g a)) : GoesOn (x >>= f) (y >>= g) :=
  Alike.bind Inward.gives Inward.sequences first next

theorem normal : GoesOn (pure .normal : Exec σ Flow) (pure .normal) :=
  ⟨rfl, Inward.sequences.pure Flow.normal_ne_halt⟩

theorem sequenced :
    FlowSequenced (Alike (Inward : Property σ)).staged .nothing fun _ => GoesOn where
  normal := normal
  bind first next := bind first fun a known => next () a trivial known
  followedBy first next := by
    refine bind first fun flow going => ?_
    cases flow with
    | normal => exact next () trivial
    | returned v => exact ⟨rfl, Inward.sequences.pure going⟩
    | halt => exact absurd rfl going

variable (host : Host σ) (config : Config) (definitions : List (Definition Stmt)) (frames : Nat)

theorem procedureResult (d : Definition Stmt) {ended : Flow × Nat} (going : ended.1 ≠ .halt) :
    GoesOn (procedureResult d ended : Exec σ Flow) (procedureResult d ended) := by
  obtain ⟨flow, last⟩ := ended
  rcases flow with _ | (_ | v) | _
  · exact normal
  · exact normal
  · exact ⟨rfl, Inward.sequences.fail trivial trivial⟩
  · exact absurd rfl going

/-- One level of calls, given that the bodies of callables go on. -/
theorem flows
    (onBody : ∀ sts, GoesOn ((ofExec (runContext host config definitions frames)).body .denied sts)
      ((ofExec (runContext host config definitions frames)).body .denied sts)) :
    SelfFlows (ofExec (runContext host config definitions frames)) (runContext host config definitions frames)
      (Alike (Inward : Property σ)).staged .nothing True .denied (fun _ => GoesOn) fun _ => GoesOn := by
  have related := Inward.runs host config definitions frames
  have counted := Inward.enclosing (σ := σ).counted config
  have unit {x y : Exec σ Unit} (done : Alike Inward (fun _ => True) x y) : GoesOn (simply x) (simply y) :=
    bind done fun _ _ => normal
  exact {
    normal := normal
    followedBy := sequenced.followedBy
    weaken := id
    bind := sequenced.bind
    fail := fun _ ordinary => ⟨rfl, Inward.sequences.fail trivial ordinary⟩
    begin := fun {_} st {x y} rest => by
      refine bind ⟨rfl, Inward.quietSteps.interrupted_denied st (Inward.enclosing.checkBudget _ _)⟩ ?_
      rintro _ rfl
      exact rest ()
    whileLoop := sequenced.whileLoop counted
    repeatLoop := sequenced.repeatLoop counted
    forLoop := sequenced.forLoop counted
    call := fun _ d bindings line _ =>
      bind ⟨rfl, Inward.enclosing.call d .procedure bindings line (onBody d.body).2⟩ fun _ going =>
        procedureResult d going
    giveBack := fun {w} value line =>
      related.giveBack sequenced.bind (fun _ => ⟨rfl, Inward.sequences.pure Flow.returned_ne_halt⟩) w value line
    output := fun items line => unit (related.output ⟨rfl, rfl⟩ () items line)
    input := fun target line =>
      bind ⟨rfl, Inward.sequences.requireHost .denied _ line⟩ fun _ granted => nomatch granted
    openFile := fun file mode line => unit (related.openFile ⟨rfl, rfl⟩ () file mode line)
    readFile := fun file target line => unit (related.readFile ⟨rfl, rfl⟩ () file target line)
    writeFile := fun file value line => unit (related.writeFile ⟨rfl, rfl⟩ () file value line)
    closeFile := fun file line => unit (related.closeFile ⟨rfl, rfl⟩ () file line) }

-- By induction on the frames: the body of a callable is run with one frame less.
theorem runBlock (sts : List Stmt) :
    GoesOn (runBlock host config definitions frames .denied sts)
      (Exec.runBlock host config definitions frames .denied sts) := by
  induction frames generalizing sts with
  | zero =>
    have flowing := flows host config definitions 0 fun _ => normal
    rw [runBlock_eq]
    exact flowing.execBlock (Inward.runs host config definitions 0) () sts
  | succ frames ih =>
    have flowing := flows host config definitions (frames + 1) ih
    rw [runBlock_eq]
    exact flowing.execBlock (Inward.runs host config definitions (frames + 1)) () sts

end GoesOn

end Exec

end Pseudocode
