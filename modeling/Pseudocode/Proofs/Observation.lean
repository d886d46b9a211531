import Pseudocode.Proofs.Preservation

/-!
Watched runs. Nothing bounds the loops and calls of a watched run but its fuel, and the budget and the
depth of calls are checked while it runs, so that it may also end without a result. The states at the
boundaries of its statements are kept; they are the states that a run can reach. What every step
preserves holds in all of them (`Kept.reachable`).
-/

namespace Pseudocode

variable {σ : Type}

/-- The state in which a step has ended. -/
def Exec.final : EStateM.Result RuntimeError (Machine σ) α → Machine σ
  | .ok _ m => m
  | .error _ m => m

/-- What a step has given, whatever state it has ended in. -/
def Exec.outcome : EStateM.Result RuntimeError (Machine σ) α → Except RuntimeError α
  | .ok a _ => .ok a
  | .error e _ => .error e

variable {α : Type} {κ : Knowledge (Machine σ)} {P Inv : Machine σ → Prop} {Q : Machine σ → α → Prop}
  {r : EStateM.Result RuntimeError (Machine σ) α}

theorem Exec.result_ext {r' : EStateM.Result RuntimeError (Machine σ) α} (given : outcome r = outcome r')
    (last : final r = final r') : r = r' := by
  cases r <;> cases r' <;> cases given <;> cases last <;> rfl

theorem Exec.Ends.final {Q : α → Prop} (h : Ends P Q r) : P (Exec.final r) := by
  cases r with
  | ok a m => exact h.1
  | error e m => exact h

theorem Exec.EndsAt.final (h : EndsAt P Q r) : P (Exec.final r) := by
  cases r with
  | ok a m => exact h.1
  | error e m => exact h

theorem Exec.EndsAt.outcome (h : EndsAt P Q r) (a : α) (given : Exec.outcome r = .ok a) : Q (Exec.final r) a := by
  cases r with
  | ok b m =>
    cases given
    exact h.2
  | error e m => cases given

theorem Exec.attempt_eq (x : Exec σ α) (m : Machine σ) :
    attempt x m = .ok (outcome (x m)) (Exec.final (x m)) := by
  unfold attempt
  cases x m <;> rfl

/-- What a step gives, in another state. -/
def Exec.mapState (g : Machine σ → Machine σ) :
    EStateM.Result RuntimeError (Machine σ) α → EStateM.Result RuntimeError (Machine σ) α
  | .ok a m => .ok a (g m)
  | .error e m => .error e (g m)

theorem Exec.outcome_mapState (g : Machine σ → Machine σ) (r : EStateM.Result RuntimeError (Machine σ) α) :
    outcome (mapState g r) = outcome r := by
  cases r <;> rfl

theorem Exec.final_mapState (g : Machine σ → Machine σ) (r : EStateM.Result RuntimeError (Machine σ) α) :
    Exec.final (mapState g r) = g (Exec.final r) := by
  cases r <;> rfl

/-- The states at the boundaries of statements, in order, and how the run has ended; without fuel it
has not. -/
structure Observed (σ α : Type) where
  seen : List (Machine σ)
  result : Option (EStateM.Result RuntimeError (Machine σ) α)

/-- All states of which something was observed. -/
def Observed.states (o : Observed σ α) : List (Machine σ) := o.seen ++ (o.result.map Exec.final).toList

/-- A computation that is watched. -/
def Watch (σ α : Type) := Machine σ → Observed σ α

namespace Watch

def bind (x : Watch σ α) (f : α → Watch σ β) : Watch σ β := fun m =>
  match x m with
  | ⟨seen, none⟩ => ⟨seen, none⟩
  | ⟨seen, some (.error e m)⟩ => ⟨seen, some (.error e m)⟩
  | ⟨seen, some (.ok a m)⟩ => ⟨seen ++ (f a m).seen, (f a m).result⟩

instance : Monad (Watch σ) where
  pure a := fun m => ⟨[], some (.ok a m)⟩
  bind := bind

section Bind

variable {x : Watch σ α} {f : α → Watch σ β} {m m' : Machine σ} {seen : List (Machine σ)}

theorem bind_of_none (ran : x m = ⟨seen, none⟩) : (x >>= f) m = ⟨seen, none⟩ := by
  show Watch.bind x f m = _
  rw [Watch.bind, ran]

theorem bind_of_ok {a : α} (ran : x m = ⟨seen, some (.ok a m')⟩) :
    (x >>= f) m = ⟨seen ++ (f a m').seen, (f a m').result⟩ := by
  show Watch.bind x f m = _
  rw [Watch.bind, ran]

theorem bind_of_error {e : RuntimeError} (ran : x m = ⟨seen, some (.error e m')⟩) :
    (x >>= f) m = ⟨seen, some (.error e m')⟩ := by
  show Watch.bind x f m = _
  rw [Watch.bind, ran]

end Bind

theorem seen_subset_bind (x : Watch σ α) (f : α → Watch σ β) (m : Machine σ) :
    (x m).seen ⊆ ((x >>= f) m).seen := by
  rcases run : x m with ⟨before, _ | ⟨a, m'⟩ | ⟨e, m'⟩⟩
  · rw [bind_of_none run]
    exact List.Subset.refl before
  · rw [bind_of_ok run]
    exact List.subset_append_left before _
  · rw [bind_of_error run]
    exact List.Subset.refl before

/-- Statements are followed by others only if they end normally. -/
theorem followedBy_cases (x y : Watch σ Flow) (m : Machine σ) :
    (do let flow ← x; Semantics.followedBy flow y : Watch σ Flow) m = x m ∨
      ∃ before m', x m = ⟨before, some (.ok .normal m')⟩ ∧
        (do let flow ← x; Semantics.followedBy flow y : Watch σ Flow) m =
          ⟨before ++ (y m').seen, (y m').result⟩ := by
  rcases run : x m with ⟨before, _ | ⟨flow, m'⟩ | ⟨e, m'⟩⟩
  · exact .inl (bind_of_none run)
  · rw [bind_of_ok run]
    cases flow with
    | normal => exact .inr ⟨before, m', rfl, rfl⟩
    | returned v =>
      refine .inl (congrArg (Observed.mk · _) ?_)
      exact List.append_nil before
    | halt =>
      refine .inl (congrArg (Observed.mk · _) ?_)
      exact List.append_nil before
  · exact .inl (bind_of_error run)

/-- A step of the machine, within which nothing is seen. -/
def lift (x : Exec σ α) : Watch σ α := fun m => ⟨[], some (x m)⟩

theorem lift_bind (x : Exec σ α) (f : α → Exec σ β) : lift (x >>= f) = lift x >>= fun a => lift (f a) := by
  funext m
  show (⟨[], some ((x >>= f) m)⟩ : Observed σ β) = _
  cases run : x m with
  | ok a m' =>
    have ran : lift x m = ⟨[], some (.ok a m')⟩ := by rw [lift, run]
    rw [Exec.bind_of_ok run, bind_of_ok ran]
    rfl
  | error e m' =>
    have ran : lift x m = ⟨[], some (.error e m')⟩ := by rw [lift, run]
    rw [Exec.bind_of_error run, bind_of_error ran]

def attempt (x : Watch σ α) : Watch σ (Except RuntimeError α) := fun m =>
  match x m with
  | ⟨seen, none⟩ => ⟨seen, none⟩
  | ⟨seen, some (.error e m)⟩ => ⟨seen, some (.ok (.error e) m)⟩
  | ⟨seen, some (.ok a m)⟩ => ⟨seen, some (.ok (.ok a) m)⟩

/-- The fuel is used up. -/
def exhausted : Watch σ α := fun _ => ⟨[], none⟩

/-- Keeps the states in which a statement begins and ends. -/
def between (x : Watch σ Flow) : Watch σ Flow := fun m => ⟨m :: (x m).states, (x m).result⟩

/-- Refuses a call with a wrong number of arguments, and one beyond the depth that is allowed. -/
def permit (config : Config) (d : Definition Stmt) (arguments line : Nat) : Exec σ Unit := do
  if arguments = d.params.length then
    if config.maxDepth ≤ (← get).calls.depth then Exec.fail (.recursionLimit d.name config.maxDepth) line
  else Exec.fail (.argumentCount d.name d.params.length arguments) line

open Semantics (followedBy)

def whilePasses (config : Config) (condition : Watch σ Bool) (body : Watch σ Flow) (line : Nat) :
    Nat → Watch σ Flow
  | 0 => exhausted
  | fuel + 1 => do
    if ← condition then
      lift (Exec.tick config line)
      let flow ← body
      followedBy flow (whilePasses config condition body line fuel)
    else pure .normal

def repeatPasses (config : Config) (body : Watch σ Flow) (condition : Watch σ Bool) (line : Nat) :
    Nat → Watch σ Flow
  | 0 => exhausted
  | fuel + 1 => do
    lift (Exec.tick config line)
    let flow ← body
    followedBy flow do
      if ← condition then pure .normal else repeatPasses config body condition line fuel

def forPasses (config : Config) (counter : Watch σ Float) (continues : Float → Bool)
    (advance : Float → Watch σ Unit) (body : Watch σ Flow) (line : Nat) : Nat → Watch σ Flow
  | 0 => exhausted
  | fuel + 1 => do
    if continues (← counter) then
      lift (Exec.tick config line)
      let flow ← body
      followedBy flow do
        advance (← counter)
        forPasses config counter continues advance body line fuel
    else pure .normal

/-- A loop may begin as many passes as there is fuel. -/
def semantics (config : Config) (fuel : Nat) (body : Access → List Stmt → Watch σ Flow) :
    Semantics σ (Watch σ) where
  lift := lift
  attempt := attempt
  permit d arguments line := lift (permit config d arguments line)
  body := body
  boundary := between
  whileLoop condition body line := whilePasses config condition body line fuel
  repeatLoop body condition line := repeatPasses config body condition line fuel
  forLoop counter continues advance body line := forPasses config counter continues advance body line fuel

end Watch

/-- The body of a callable is run with one unit of fuel less. -/
def watching (ctx : Context σ) : Nat → Semantics σ (Watch σ)
  | 0 => Watch.semantics ctx.config 0 fun _ _ => Watch.exhausted
  | fuel + 1 => Watch.semantics ctx.config (fuel + 1) fun access body => (watching ctx fuel).execBlock ctx access body

/-- A watched run that keeps states of statements and of the bodies of callables. -/
def watchingAt (statement body : Watch σ Flow → Watch σ Flow) (ctx : Context σ) : Nat → Semantics σ (Watch σ)
  | 0 => { Watch.semantics ctx.config 0 fun _ _ => Watch.exhausted with boundary := statement }
  | fuel + 1 =>
    { Watch.semantics ctx.config (fuel + 1) fun access sts =>
        body ((watchingAt statement body ctx fuel).execBlock ctx access sts) with
      boundary := statement }

/-- A run that is watched at the boundaries of statements is one of these. -/
theorem watching_eq (ctx : Context σ) (fuel : Nat) :
    watching ctx fuel = watchingAt Watch.between id ctx fuel := by
  induction fuel with
  | zero => rfl
  | succ fuel ih =>
    simp only [watching, watchingAt, ih]
    rfl

/-- Watches the run of a program. -/
def Program.observe (p : Program) (host : Host σ) (config : Config) (fuel : Nat) : Watch σ Outcome :=
  (watching ⟨host, config, p.definitions, none⟩ fuel).exec ⟨host, config, p.definitions, none⟩ p

/-- A state at the boundary of a statement, or in which the run has ended, with whatever outcome. -/
def Reachable (p : Program) (host : Host σ) (config : Config) (draws : Draws) (state : σ) (m : Machine σ) : Prop :=
  ∃ fuel, m ∈ (p.observe host config fuel (.initial config draws state)).states

namespace Watch

variable {κ : Knowledge (Machine σ)} {Inv Seen : Machine σ → Prop} {m : Machine σ}

/-- Begun in a state with a property, a computation ends in a later one that has it, and `Seen` holds of
the states in which it is seen. -/
def Keeps (κ : Knowledge (Machine σ)) (Inv Seen : Machine σ → Prop) (m : Machine σ)
    (Q : Machine σ → α → Prop) (x : Watch σ α) : Prop :=
  Inv m → (∀ m' ∈ (x m).seen, Seen m') ∧
    ∀ r, (x m).result = some r → Exec.EndsAt (fun m' => Inv m' ∧ κ.Later m m') Q r

namespace Keeps

variable {α : Type} {Q : Machine σ → α → Prop}

theorem pure {a : α} (h : Q m a) : Keeps κ Inv Seen m Q (pure a) := by
  intro inv
  refine ⟨by simp [Pure.pure], fun r ended => ?_⟩
  cases ended
  exact ⟨⟨inv, κ.refl m⟩, h⟩

theorem lift {x : Exec σ α} (h : Exec.Keeps κ Inv m Q x) : Keeps κ Inv Seen m Q (lift x) := by
  intro inv
  refine ⟨by simp [Watch.lift], fun r ended => ?_⟩
  cases ended
  exact h inv

theorem exhausted : Keeps κ Inv Seen m Q exhausted :=
  fun _ => ⟨by simp [Watch.exhausted], fun _ ended => nomatch ended⟩

theorem bind {P : Machine σ → α → Prop} {Q : Machine σ → β → Prop} {x : Watch σ α} {f : α → Watch σ β}
    (first : Keeps κ Inv Seen m P x) (next : ∀ m' a, κ.Later m m' → P m' a → Keeps κ Inv Seen m' Q (f a)) :
    Keeps κ Inv Seen m Q (x >>= f) := by
  intro inv
  obtain ⟨seen, ended⟩ := first inv
  rcases run : x m with ⟨before, _ | ⟨a, m'⟩ | ⟨e, m'⟩⟩
  · rw [run] at seen
    rw [bind_of_none run]
    exact ⟨seen, fun _ ended => nomatch ended⟩
  · rw [run] at seen ended
    rw [bind_of_ok run]
    obtain ⟨⟨there, later⟩, known⟩ := ended _ rfl
    obtain ⟨after, rest⟩ := next m' a later known there
    refine ⟨List.forall_mem_append.2 ⟨seen, after⟩, fun r last => ?_⟩
    exact (rest r last).mono (fun _ h => ⟨h.1, κ.trans later h.2⟩) fun _ _ _ q => q
  · rw [run] at seen ended
    rw [bind_of_error run]
    refine ⟨seen, fun r last => ?_⟩
    cases last
    exact ended (.error e m') rfl

theorem states {x : Watch σ α} (h : Keeps κ Inv Seen m Q x) (sees : ∀ m', Inv m' → κ.Later m m' → Seen m')
    (inv : Inv m) : ∀ m' ∈ (x m).states, Seen m' := by
  obtain ⟨seen, ended⟩ := h inv
  refine List.forall_mem_append.2 ⟨seen, fun m' last => ?_⟩
  obtain ⟨r, result, rfl⟩ := Option.map_eq_some_iff.1 (Option.mem_toList.1 last)
  have last := (ended r result).final
  exact sees _ last.1 last.2

theorem between {Q : Machine σ → Flow → Prop} {x : Watch σ Flow} (h : Keeps κ Inv Seen m Q x)
    (sees : ∀ m', Inv m' → Seen m') : Keeps κ Inv Seen m Q (between x) :=
  fun inv => ⟨List.forall_mem_cons.2 ⟨sees m inv, h.states (fun m' there _ => sees m' there) inv⟩, (h inv).2⟩

end Keeps

/-- A relation between flows that are watched holds of sequences, and of those that the fuel cuts off. -/
structure Flowing {W : Type} (κ : Knowledge W) (R : Relation W (Watch σ) (Watch σ))
    (F : W → Watch σ Flow → Watch σ Flow → Prop) : Prop extends Semantics.FlowSequenced R κ F where
  exhausted {w : W} : F w exhausted exhausted

/-- A relation between computations that are watched holds of sequences of related ones. -/
structure Composes {W : Type} (κ : Knowledge W) (R : Relation W (Watch σ) (Watch σ)) : Prop where
  exhausted {w : W} : R w κ.flow exhausted exhausted
  pure {α : Type} {w : W} {Q : W → α → Prop} {a : α} : Q w a → R w Q (pure a) (pure a)
  bind {α β : Type} {w : W} {P : W → α → Prop} {Q : W → β → Prop} {x y : Watch σ α} {f g : α → Watch σ β} :
    R w P x y → (∀ w' a, κ.Later w w' → P w' a → R w' Q (f a) (g a)) → R w Q (x >>= f) (y >>= g)

/-- Flows may be related as other computations are. -/
theorem Composes.flowing {W : Type} {κ : Knowledge W} {R : Relation W (Watch σ) (Watch σ)} (h : Composes κ R) :
    Flowing κ R fun w => R w κ.flow :=
  ⟨.of_sequences h.pure h.bind, h.exhausted⟩

theorem Keeps.composes : Composes κ fun _ m Q x _ => Keeps κ Inv Seen m Q x where
  exhausted := exhausted
  pure := pure
  bind := bind

namespace Flowing

variable {W : Type} {w : W} {κ : Knowledge W} {R : Relation W (Watch σ) (Watch σ)}
  {F : W → Watch σ Flow → Watch σ Flow → Prop} (fl : Flowing κ R F) {config : Config} (config' : Config)
  {line : Nat} {condition : Watch σ Bool} (condition' : Watch σ Bool) {body : Watch σ Flow}
  (body' : Watch σ Flow)
  (tick : ∀ w, R.any w (lift (Exec.tick config line)) (lift (Exec.tick config' line)))

include fl tick

theorem whilePasses (fuel : Nat) (onBody : ∀ w', κ.Later w w' → F w' body body')
    (onCondition : ∀ w', κ.Later w w' → R.any w' condition condition') :
    F w (whilePasses config condition body line fuel) (Watch.whilePasses config' condition' body' line fuel) := by
  induction fuel generalizing w with
  | zero => exact fl.exhausted
  | succ fuel ih =>
    refine fl.bind (onCondition w (κ.refl w)) fun w₁ truth l₁ _ => ?_
    cases truth with
    | false => exact fl.normal
    | true =>
      refine fl.bind (tick w₁) fun w₂ _ l₂ _ => ?_
      refine fl.followedBy (onBody w₂ (κ.trans l₁ l₂)) fun w₃ l₃ => ?_
      have later := κ.trans (κ.trans l₁ l₂) l₃
      exact ih (fun w' l => onBody w' (κ.trans later l)) fun w' l => onCondition w' (κ.trans later l)

theorem repeatPasses (fuel : Nat) (onBody : ∀ w', κ.Later w w' → F w' body body')
    (onCondition : ∀ w', κ.Later w w' → R.any w' condition condition') :
    F w (repeatPasses config body condition line fuel)
      (Watch.repeatPasses config' body' condition' line fuel) := by
  induction fuel generalizing w with
  | zero => exact fl.exhausted
  | succ fuel ih =>
    refine fl.bind (tick w) fun w₁ _ l₁ _ => ?_
    refine fl.followedBy (onBody w₁ l₁) fun w₂ l₂ => ?_
    refine fl.bind (onCondition w₂ (κ.trans l₁ l₂)) fun w₃ truth l₃ _ => ?_
    have later := κ.trans (κ.trans l₁ l₂) l₃
    cases truth with
    | false => exact ih (fun w' l => onBody w' (κ.trans later l)) fun w' l => onCondition w' (κ.trans later l)
    | true => exact fl.normal

theorem forPasses (fuel : Nat) {counter : Watch σ Float} (counter' : Watch σ Float) (continues : Float → Bool)
    {advance : Float → Watch σ Unit} (advance' : Float → Watch σ Unit)
    (onBody : ∀ w', κ.Later w w' → F w' body body')
    (onCounter : ∀ w', κ.Later w w' → R.any w' counter counter')
    (onAdvance : ∀ w' x, κ.Later w w' → R.any w' (advance x) (advance' x)) :
    F w (forPasses config counter continues advance body line fuel)
      (Watch.forPasses config' counter' continues advance' body' line fuel) := by
  induction fuel generalizing w with
  | zero => exact fl.exhausted
  | succ fuel ih =>
    refine fl.bind (onCounter w (κ.refl w)) fun w₁ x l₁ _ => ?_
    split
    · refine fl.bind (tick w₁) fun w₂ _ l₂ _ => ?_
      refine fl.followedBy (onBody w₂ (κ.trans l₁ l₂)) fun w₃ l₃ => ?_
      have l₁₃ := κ.trans (κ.trans l₁ l₂) l₃
      refine fl.bind (onCounter w₃ l₁₃) fun w₄ y l₄ _ => ?_
      refine fl.bind (onAdvance w₄ y (κ.trans l₁₃ l₄)) fun w₅ _ l₅ _ => ?_
      have later := κ.trans (κ.trans l₁₃ l₄) l₅
      exact ih (fun w' l => onBody w' (κ.trans later l)) (fun w' l => onCounter w' (κ.trans later l))
        fun w' x l => onAdvance w' x (κ.trans later l)
    · exact fl.normal

end Flowing

theorem permit_keeps (config : Config) (d : Definition Stmt) (arguments line : Nat) :
    Exec.Keeps κ Inv m (fun _ _ => True) (permit config d arguments line) := by
  intro inv
  have here : Inv m ∧ κ.Later m m := ⟨inv, κ.refl m⟩
  unfold permit
  split
  · rw [Exec.get_bind]
    split
    · exact here
    · exact ⟨here, trivial⟩
  · exact here

end Watch

open Semantics

/-- A call that is watched is seen only in its body. -/
theorem Watch.runBody_eq (config : Config) (fuel : Nat) (body : Access → List Stmt → Watch σ Flow)
    (mark : Watch σ Flow → Watch σ Flow) (gate : Definition Stmt → Nat → Nat → Watch σ Unit) (access : Access)
    (d : Definition Stmt) (kind : CallableKind) (bindings : List Binding) (line : Nat) (m : Machine σ) :
    { Watch.semantics config fuel body with boundary := mark, permit := gate }.runBody access d kind bindings
        line m =
      match Exec.enter d kind bindings line m with
      | .ok _ m' =>
        ⟨(body access d.body m').seen,
          (body access d.body m').result.map fun r => Exec.closeCall line (Exec.outcome r) (Exec.final r)⟩
      | .error e m' => ⟨[], some (.error e m')⟩ := by
  show Watch.bind (Watch.lift (Exec.enter d kind bindings line)) (fun _ =>
    Watch.bind (Watch.attempt (body access d.body)) fun result =>
      Watch.lift (Exec.closeCall line result)) m = _
  unfold Watch.bind Watch.lift Watch.attempt
  cases Exec.enter d kind bindings line m with
  | error e m' => rfl
  | ok _ m' =>
    dsimp only
    rcases body access d.body m' with ⟨seen, _ | _ | _⟩ <;> simp <;> rfl

/-- Runs that are watched are related if their steps are, the counting of their loop passes, what they make of
the boundaries of statements, and their calls. -/
theorem Watch.Composes.semantics {W : Type} {κ : Knowledge W} {L : Relation W (Exec σ) (Exec σ)}
    {R : Relation W (Watch σ) (Watch σ)} {A : Access → Access → Prop} {P : Prop} {ctx ctx' : Context σ}
    {body body' : Access → List Stmt → Watch σ Flow} {mark mark' : Watch σ Flow → Watch σ Flow}
    {gate gate' : Definition Stmt → Nat → Nat → Watch σ Unit} (h : Composes κ R) (fuel : Nat)
    (steps : Steps L κ A ctx ctx')
    (lifted : ∀ {α : Type} {w : W} {Q : W → α → Prop} {x y : Exec σ α}, L w Q x y → R w Q (lift x) (lift y))
    (marked : ∀ {w : W} {x y : Watch σ Flow}, R w κ.flow x y → R w κ.flow (mark x) (mark' y))
    (tick : ∀ w line,
      R.any w (lift (Exec.tick ctx.config line)) (lift (Exec.tick ctx'.config line)))
    (permit : ∀ {w : W} {name : String} {d : Definition Stmt}, ctx.definition? name = some d → ∀ arguments line,
      R w (fun _ _ => P) (gate d arguments line) (gate' d arguments line))
    (call : ∀ {w : W}, P → ∀ {access access' : Access}, A access access' → ∀ (d : Definition Stmt)
      (kind : CallableKind) {bindings : List Binding} (line : Nat), κ.bindings w d.params bindings →
      R w (fun w ended => κ.flow w ended.1)
        ({ Watch.semantics ctx.config fuel body with boundary := mark, permit := gate }.runBody access d kind
          bindings line)
        ({ Watch.semantics ctx'.config fuel body' with boundary := mark', permit := gate' }.runBody access' d kind
          bindings line)) :
    Congruence { Watch.semantics ctx.config fuel body with boundary := mark, permit := gate }
      { Watch.semantics ctx'.config fuel body' with boundary := mark', permit := gate' } ctx ctx' L R κ A P where
  steps := steps
  pure := h.pure
  bind := h.bind
  lift := lifted
  boundary := marked
  whileLoop line onCondition onBody := h.flowing.whilePasses _ _ _ (tick · line) fuel onBody onCondition
  repeatLoop line onBody onCondition := h.flowing.repeatPasses _ _ _ (tick · line) fuel onBody onCondition
  forLoop continues _ _ _ _ line onCounter onAdvance onBody :=
    h.flowing.forPasses _ _ (tick · line) fuel _ continues _ onBody onCounter onAdvance
  permit := permit
  call := call

/-- Every step preserves a property of states that is taken by statements with rights of which `A` holds.
While a call runs, what is known of the caller's state need not hold; it is known again when the call has
been left. -/
structure KeptUnder (A : Access → Access → Prop) (ctx : Context σ) (κ : Knowledge (Machine σ))
    (Inv : Machine σ → Prop) : Prop where
  steps : Steps (.onLeft (Exec.Keeps κ Inv)) κ A ctx ctx
  tick (m : Machine σ) (line : Nat) : Exec.Keeps κ Inv m (fun _ _ => True) (Exec.tick ctx.config line)
  call {m : Machine σ} {d : Definition Stmt} {bindings : List Binding} (kind : CallableKind) (line : Nat) :
    κ.bindings m d.params bindings → Inv m →
      ∃ m₁, Exec.enter d kind bindings line m = .ok () m₁ ∧ Inv m₁ ∧
        ∀ m₂, κ.Later m₁ m₂ → Inv m₂ →
          Exec.EndsAt (fun m' => Inv m' ∧ κ.Later m m') (fun m' _ => ∀ v, κ.value m₂ v → κ.value m' v)
            (Exec.leave line m₂)

/-- Every step of a run preserves a property of states. -/
abbrev Kept (ctx : Context σ) (κ : Knowledge (Machine σ)) (Inv : Machine σ → Prop) : Prop :=
  KeptUnder Eq ctx κ Inv

/-- A state in which a call has just been entered from one with a property. -/
def Entered (κ : Knowledge (Machine σ)) (Inv : Machine σ → Prop) (m : Machine σ) : Prop :=
  ∃ (m₀ : Machine σ) (d : Definition Stmt) (kind : CallableKind) (bindings : List Binding) (line : Nat),
    Inv m₀ ∧ κ.bindings m₀ d.params bindings ∧ Exec.enter d kind bindings line m₀ = .ok () m

namespace KeptUnder

variable {A : Access → Access → Prop} {ctx : Context σ} {κ : Knowledge (Machine σ)}
  {Inv Seen : Machine σ → Prop}

/-- The caller goes on with what the body has returned. -/
theorem closeCall {P : Machine σ → Prop} {m : Machine σ} {line : Nat}
    (left : Exec.EndsAt P (fun m' _ => ∀ v, κ.value m v → κ.value m' v) (Exec.leave line m))
    {result : Except RuntimeError Flow} (returned : ∀ flow, result = .ok flow → κ.flow m flow) :
    Exec.EndsAt P (fun m' ended => κ.flow m' ended.1) (Exec.closeCall line result m) := by
  unfold Exec.closeCall
  rw [Exec.bind_of_ok (rfl : Exec.currentLine m = .ok m.line m)]
  rw [Exec.bind_apply]
  generalize Exec.leave line m = r at left ⊢
  cases r with
  | error e m' => exact left
  | ok _ m' =>
    cases result with
    | error e => exact left.1
    | ok flow =>
      refine ⟨left.1, ?_⟩
      rcases flow with _ | (_ | v) | _
      · trivial
      · trivial
      · exact left.2 v (returned _ rfl)
      · trivial

variable {body : Access → List Stmt → Watch σ Flow} {mark : Watch σ Flow → Watch σ Flow}

/-- A call is watched in its body, where a property of its own may be kept. -/
theorem inside {Inner : Machine σ → Prop} {config : Config} {fuel : Nat} {access : Access} {m m₁ : Machine σ}
    {d : Definition Stmt} {kind : CallableKind} {bindings : List Binding} {line : Nat}
    (entered : Exec.enter d kind bindings line m = .ok () m₁) (there : Inner m₁)
    (onBody : Watch.Keeps κ Inner Seen m₁ κ.flow (body access d.body))
    (leaves : ∀ m₂, κ.Later m₁ m₂ → Inner m₂ →
      Exec.EndsAt (fun m' => Inv m' ∧ κ.Later m m') (fun m' _ => ∀ v, κ.value m₂ v → κ.value m' v)
        (Exec.leave line m₂)) :
    Watch.Keeps κ Inv Seen m (fun m' ended => κ.flow m' ended.1)
      ({ Watch.semantics config fuel body with boundary := mark }.runBody access d kind bindings line) := by
  intro _
  obtain ⟨seen, ended⟩ := onBody there
  rw [Watch.runBody_eq, entered]
  refine ⟨seen, fun r closed => ?_⟩
  obtain ⟨r, result, rfl⟩ := Option.map_eq_some_iff.1 closed
  have last := ended r result
  exact closeCall (leaves _ last.final.2 last.final.1) last.outcome

variable (h : KeptUnder A ctx κ Inv)

include h

theorem runBody {access : Access}
    (onBody : ∀ m, Entered κ Inv m → ∀ sts, Watch.Keeps κ Inv Seen m κ.flow (body access sts)) (fuel : Nat)
    {m : Machine σ} {d : Definition Stmt} {bindings : List Binding} (kind : CallableKind) (line : Nat)
    (known : κ.bindings m d.params bindings) :
    Watch.Keeps κ Inv Seen m (fun m' ended => κ.flow m' ended.1)
      ({ Watch.semantics ctx.config fuel body with boundary := mark }.runBody access d kind bindings
        line) := by
  intro inv
  obtain ⟨m₁, entered, there, leaves⟩ := h.call kind line known inv
  have onCall := onBody m₁ ⟨m, d, kind, bindings, line, inv, known, entered⟩ d.body
  exact inside entered there onCall leaves inv

/-- One level of calls, given the bodies of the callables. -/
theorem semantics
    (onBody : ∀ access access', A access access' → ∀ m, Entered κ Inv m → ∀ sts,
      Watch.Keeps κ Inv Seen m κ.flow (body access sts))
    (marked : ∀ m x, Watch.Keeps κ Inv Seen m κ.flow x → Watch.Keeps κ Inv Seen m κ.flow (mark x)) (fuel : Nat) :
    SelfCongruence { Watch.semantics ctx.config fuel body with boundary := mark } ctx
      (.onLeft (Exec.Keeps κ Inv)) (.onLeft (Watch.Keeps κ Inv Seen)) κ A
      True := by
  refine Watch.Keeps.composes.semantics fuel h.steps .lift (marked _ _) (fun m line => .lift (h.tick m line)) ?_ ?_
  · intro m _ d _ arguments line
    exact .lift (Watch.permit_keeps ctx.config d arguments line)
  · intro m _ access access' rights d kind bindings line known
    exact h.runBody (onBody access access' rights) fuel kind line known

end KeptUnder

theorem Kept.watching {ctx : Context σ} (h : Kept ctx κ Inv) (fuel : Nat) :
    SelfCongruence (watching ctx fuel) ctx
      (.onLeft (Exec.Keeps κ Inv)) (.onLeft (Watch.Keeps κ Inv Inv)) κ Eq True := by
  have marked (m : Machine σ) (x : Watch σ Flow) (keeps : Watch.Keeps κ Inv Inv m κ.flow x) :
      Watch.Keeps κ Inv Inv m κ.flow (.between x) := keeps.between fun _ => id
  induction fuel with
  | zero => exact h.semantics (fun _ _ _ _ _ _ => .exhausted) marked 0
  | succ fuel ih => exact h.semantics (fun _ _ rights m _ sts => ih.execBlock rights m sts) marked (fuel + 1)

/-- What holds at first and is preserved by every step holds of every state that can be reached. -/
theorem Kept.reachable {p : Program} {host : Host σ} {config : Config} {draws : Draws} {state : σ}
    (h : Kept ⟨host, config, p.definitions, none⟩ κ Inv) (initial : Inv (.initial config draws state))
    {m : Machine σ} (reached : Reachable p host config draws state m) : Inv m := by
  obtain ⟨fuel, among⟩ := reached
  exact ((h.watching fuel).exec rfl _ p).states (fun _ there _ => there) initial m among

/-- Without definitions there are no calls, of which nothing need be known then. -/
theorem watching_of_no_definitions {ctx : Context σ} (undefined : ctx.definitions = [])
    (steps : Steps (.onLeft (Exec.Keeps κ Inv)) κ Eq ctx ctx)
    (tick : ∀ m line, Exec.Keeps κ Inv m (fun _ _ => True) (Exec.tick ctx.config line)) (fuel : Nat) :
    SelfCongruence (watching ctx fuel) ctx
      (.onLeft (Exec.Keeps κ Inv)) (.onLeft (Watch.Keeps κ Inv Inv)) κ Eq False := by
  have level (fuel : Nat) (body : Access → List Stmt → Watch σ Flow) :
      SelfCongruence (Watch.semantics ctx.config fuel body) ctx
        (.onLeft (Exec.Keeps κ Inv)) (.onLeft (Watch.Keeps κ Inv Inv)) κ Eq False := by
    refine Watch.Keeps.composes.semantics fuel steps .lift (fun keeps => keeps.between fun _ => id)
      (fun m line => .lift (tick m line)) (fun defined => ?_) fun impossible => impossible.elim
    rw [Context.definition?, undefined] at defined
    cases defined
  cases fuel with
  | zero => exact level 0 _
  | succ fuel => exact level (fuel + 1) _

/-- What every step besides calls preserves holds throughout the runs of a program without definitions. -/
theorem Reachable.of_steps {p : Program} {host : Host σ} {config : Config} {draws : Draws} {state : σ}
    (undefined : p.definitions = [])
    (steps : Steps (.onLeft (Exec.Keeps κ Inv)) κ Eq ⟨host, config, p.definitions, none⟩
      ⟨host, config, p.definitions, none⟩)
    (tick : ∀ m line, Exec.Keeps κ Inv m (fun _ _ => True) (Exec.tick config line))
    (initial : Inv (.initial config draws state)) {m : Machine σ} (reached : Reachable p host config draws state m) :
    Inv m := by
  obtain ⟨fuel, among⟩ := reached
  exact ((watching_of_no_definitions undefined steps tick fuel).exec rfl _ p).states (fun _ there _ => there)
    initial m among

end Pseudocode
