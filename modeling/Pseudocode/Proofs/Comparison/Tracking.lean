import Pseudocode.Proofs.Observation

/-!
Steps that are taken from two states. The states may differ in the arena, in what was put out and in the
host (`Beside`); a step tracks another if it gives the same from the second state as the other from the
first, and leads to states that differ no more, unless the first ends with an error that is excused
(`Tracking`).
-/

namespace Pseudocode

open Exec Machine

variable {σ : Type} {α β : Type}

/-- States that differ at most in the arena, in what was put out and in the host, and in these only as the
relations say. -/
inductive Machine.Beside (Arenas : Arena → Arena → Prop) (Outer : Transcript × σ → Transcript × σ → Prop)
    (m : Machine σ) : Machine σ → Prop
  | mk {arena : Arena} {transcript : Transcript} {host : σ} (arenas : Arenas m.arena arena)
      (outer : Outer (m.transcript, m.host) (transcript, host)) :
      Beside Arenas Outer m (m.besides arena m.trace transcript host)

namespace Machine.Beside

variable {Arenas : Arena → Arena → Prop} {Outer : Transcript × σ → Transcript × σ → Prop} {m n : Machine σ}

theorem calls (h : Beside Arenas Outer m n) : n.calls = m.calls := by
  cases h
  rfl

theorem iterations (h : Beside Arenas Outer m n) : n.iterations = m.iterations := by
  cases h
  rfl

/-- Where nothing may differ, the states are the same. -/
theorem eq (h : Beside Eq Eq m n) : n = m := by
  obtain @⟨_, _, _, rfl, ⟨⟩⟩ := h
  rfl

end Machine.Beside

/-- Unless the first of two runs has no result, or ends with an error that is excused, the second ends as the
first does, and the last states are as `Same` says. -/
def Followed (Same : Machine σ → Machine σ → Prop) (excuse : Cause → Prop) :
    Option (EStateM.Result RuntimeError (Machine σ) α) →
      Option (EStateM.Result RuntimeError (Machine σ) α) → Prop
  | none, _ => True
  | some (.ok a m), r => ∃ n, r = some (.ok a n) ∧ Same m n
  | some (.error e m), r => excuse e.cause ∨ ∃ n, r = some (.error e n) ∧ Same m n

theorem Followed.same {Same : Machine σ → Machine σ → Prop} {excuse : Cause → Prop}
    {r r' : EStateM.Result RuntimeError (Machine σ) α} (h : Followed Same excuse (some r) (some r'))
    (unexcused : ∀ e, outcome r = .error e → ¬ excuse e.cause) :
    outcome r' = outcome r ∧ Same (final r) (final r') := by
  cases r with
  | ok a m =>
    obtain ⟨n, ran, same⟩ := h
    cases ran
    exact ⟨rfl, same⟩
  | error e m =>
    rcases h with allowed | ⟨n, ran, same⟩
    · exact absurd allowed (unexcused e rfl)
    · cases ran
      exact ⟨rfl, same⟩

namespace Exec

/-- From states that are as `Same` says, one step gives what the other does, or an error that is excused. -/
def Tracking (Same : Machine σ → Machine σ → Prop) (excuse : Cause → Prop) :
    FlatRelation (Exec σ) (Exec σ) := fun _ Q x y =>
  ∀ m n, Same m n → Ends (fun _ => True) Q (x m) ∧ Followed Same excuse (some (x m)) (some (y n))

/-- A step that does the same from both states. -/
def Tracks (Same : Machine σ → Machine σ → Prop) (excuse : Cause → Prop) : Property σ := fun _ Q x =>
  Tracking Same excuse Q x x

namespace Tracking

variable {Same : Machine σ → Machine σ → Prop} {excuse : Cause → Prop}

theorem pure {Q : α → Prop} {a : α} (known : Q a) :
    Tracking Same excuse Q (pure a : Exec σ α) (Pure.pure a) :=
  fun _ n same => ⟨⟨trivial, known⟩, n, rfl, same⟩

theorem throw {Q : α → Prop} (e : RuntimeError) : Tracking Same excuse Q (throw e : Exec σ α) (throw e) :=
  fun _ n same => ⟨trivial, .inr ⟨n, rfl, same⟩⟩

/-- An error that is excused may stand against anything. -/
theorem excused {Q : α → Prop} {e : RuntimeError} (allowed : excuse e.cause) (y : Exec σ α) :
    Tracking Same excuse Q (MonadExcept.throw e : Exec σ α) y :=
  fun _ _ _ => ⟨trivial, .inl allowed⟩

theorem bind {P : α → Prop} {Q : β → Prop} {x y : Exec σ α} {f g : α → Exec σ β}
    (first : Tracking Same excuse P x y) (next : ∀ a, P a → Tracking Same excuse Q (f a) (g a)) :
    Tracking Same excuse Q (x >>= f) (y >>= g) := by
  intro m n same
  obtain ⟨ended, followed⟩ := first m n same
  cases run : x m with
  | ok a m' =>
    rw [run] at ended followed
    obtain ⟨n', ran, same'⟩ := followed
    rw [bind_of_ok run, bind_of_ok (Option.some.inj ran)]
    exact next a ended.2 m' n' same'
  | error e m' =>
    rw [run] at followed
    rw [bind_of_error run]
    refine ⟨trivial, ?_⟩
    rcases followed with allowed | ⟨n', ran, same'⟩
    · exact .inl allowed
    · rw [bind_of_error (Option.some.inj ran)]
      exact .inr ⟨n', rfl, same'⟩

/-- What is looked at may differ as the states do. -/
theorem look {Q : β → Prop} {f g : Machine σ → Exec σ β}
    (next : ∀ m n, Same m n → Tracking Same excuse Q (f m) (g n)) :
    Tracking Same excuse Q (get >>= f) (get >>= g) :=
  fun m n same => next m n same m n same

theorem modifyGet {f g : Machine σ → α × Machine σ}
    (step : ∀ m n, Same m n → (g n).1 = (f m).1 ∧ Same (f m).2 (g n).2) :
    Tracking Same excuse (fun _ => True) (modifyGet f : Exec σ α) (modifyGet g) := by
  intro m n same
  obtain ⟨given, same'⟩ := step m n same
  refine ⟨⟨trivial, trivial⟩, (g n).2, ?_, same'⟩
  rw [← given]
  rfl

theorem sequences : Sequences (Tracks Same excuse) where
  pure := pure
  throw _ _ := throw _
  bind := bind

end Tracking

namespace Tracks

variable {Arenas : Arena → Arena → Prop} {Outer : Transcript × σ → Transcript × σ → Prop}
  {excuse : Cause → Prop}

theorem look {Same : Machine σ → Machine σ → Prop} {Q : β → Prop} {f : Machine σ → Exec σ β}
    (blind : ∀ m n, Same m n → f n = f m) (next : ∀ m, Tracks Same excuse Q (f m)) :
    Tracks Same excuse Q (get >>= f) := by
  refine Tracking.look fun m n same => ?_
  rw [blind m n same]
  exact next m

/-- A change leaves alone what may differ. -/
theorem modify {f : Machine σ → Machine σ}
    (blind : ∀ m a t l s, f (m.besides a t l s) = (f m).besides a t l s) :
    Tracks (Beside Arenas Outer) excuse (fun _ => True) (modify f) := by
  refine Tracking.modifyGet ?_
  rintro m _ ⟨arenas, outer⟩
  refine ⟨rfl, ?_⟩
  have kept := besides_self blind m
  rw [blind, ← kept]
  exact .mk arenas outer

theorem record (operation : Operation) (line : Nat) (details : Details) :
    Tracks (Beside Arenas Outer) excuse (fun _ => True) (record operation line details) := by
  refine Tracking.modifyGet ?_
  rintro m _ ⟨arenas, outer⟩
  exact ⟨rfl, .mk arenas outer⟩

theorem quietSteps : QuietSteps (Tracks (Beside Arenas Outer) excuse) where
  toSequences := Tracking.sequences
  look blind next := by
    refine look ?_ next
    rintro m _ @⟨arena, transcript, host, -, -⟩
    exact blind m ⟨m.scopes, arena, m.bound⟩ m.trace transcript host
  quiet {_ f} blind _ _ := by
    refine Tracking.modifyGet ?_
    rintro m _ @⟨arena, transcript, host, arenas, outer⟩
    -- The change gives back what it was given of memory, of the trace and of the outside.
    have kept : ((f m).2.withMemory m.memory m.trace).withOutside m.transcript m.host = (f m).2 :=
      congrArg Prod.snd (blind m m.memory m.trace m.transcript m.host).symm
    have changed : f (m.besides arena m.trace transcript host) = ((f m).1,
        (((f m).2.withMemory m.memory m.trace).withOutside m.transcript m.host).besides arena m.trace
          transcript host) :=
      blind m ⟨m.scopes, arena, m.bound⟩ m.trace transcript host
    rw [changed]
    refine ⟨rfl, ?_⟩
    rw [← kept]
    exact .mk arenas outer

theorem fileSteps : FileSteps (Tracks (Beside Arenas Outer) excuse) where
  toQuietSteps := quietSteps
  setFiles _ := modify fun _ _ _ _ _ => rfl

theorem framing (memory : MemorySteps (Tracks (Beside Arenas Outer) excuse)) :
    Framing (Tracks (Beside Arenas Outer) excuse) where
  memorySteps := memory
  quietSteps := quietSteps
  throw := Tracking.throw
  setCalls _ := modify fun _ _ _ _ _ => rfl
  setScopes _ := modify fun _ _ _ _ _ => rfl
  countPass := modify fun _ _ _ _ _ => rfl

/-- In arenas that are the same, the steps on memory do the same. -/
theorem memorySteps : MemorySteps (Tracks (Beside Eq Outer) excuse) := by
  have sequential : Sequential (Tracks (Beside Eq Outer) excuse) :=
    { toSequences := Tracking.sequences
      look := fun blind => look fun m _ ⟨arenas, _⟩ => arenas ▸ blind m m.trace _ _
      record := record }
  refine sequential.memorySteps (fun blind _ _ => modify blind) fun f => Tracking.modifyGet ?_
  rintro m _ ⟨arenas, outer⟩
  exact ⟨rfl, .mk (congrArg f arenas) outer⟩

/-- The host is turned to in both states, which it answers alike. -/
theorem turnTo {q : Machine σ → σ → α × σ} (blind : ∀ m a l s, q (m.besides a m.trace l s) = q m)
    (answers : ∀ m l s, Outer (m.transcript, m.host) (l, s) →
      (q m s).1 = (q m m.host).1 ∧ Outer (m.transcript, (q m m.host).2) (l, (q m s).2)) :
    Tracks (Beside Arenas Outer) excuse (fun _ => True)
      (modifyGet fun m => ((q m m.host).1, { m with host := (q m m.host).2 })) := by
  refine Tracking.modifyGet ?_
  rintro m _ @⟨_, transcript, host, arenas, outer⟩
  obtain ⟨answer, outer'⟩ := answers m transcript host outer
  rw [blind]
  exact ⟨answer, .mk arenas outer'⟩

/-- What does not look at the arena does the same with a host that is the same. -/
theorem unseen {f : Machine σ → α × Machine σ}
    (blind : ∀ m a, f { m with arena := a } = ((f m).1, { (f m).2 with arena := a })) :
    Tracks (Beside Arenas Eq) excuse (fun _ => True) (modifyGet f) := by
  refine Tracking.modifyGet ?_
  rintro m _ @⟨arena, _, _, arenas, ⟨⟩⟩
  have kept : { (f m).2 with arena := m.arena } = (f m).2 := congrArg Prod.snd (blind m m.arena).symm
  have changed : f (m.besides arena m.trace m.transcript m.host) = ((f m).1, { (f m).2 with arena }) :=
    blind m arena
  rw [changed]
  refine ⟨rfl, ?_⟩
  rw [← kept]
  exact .mk arenas rfl

theorem hostSteps (ctx : Context σ) : HostSteps (Tracks (Beside Arenas Eq) excuse) ctx where
  toFileSteps := fileSteps
  poll := unseen fun _ _ => rfl
  showState := unseen fun _ _ => rfl
  emit _ := unseen fun _ _ => rfl
  askInput _ _ := unseen fun _ _ => rfl
  askFile _ mode := by
    cases mode with
    | read => exact unseen fun _ _ => rfl
    | write | append => exact Tracking.pure trivial
  checkBudget := quietSteps.checkBudget Tracking.throw ctx.config

end Tracks

end Exec

end Pseudocode
