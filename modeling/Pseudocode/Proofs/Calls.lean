import Pseudocode.Proofs.Termination

/-!
Runs that are watched at their calls. A run may also be watched where the body of a callable begins
and where it ends, instead of at the boundaries of statements (`Program.bodies`); where it is watched
makes no difference to what it does (`bodies_result`). A call begins in a state that was entered from
one with the invariants of the run (`Kept.callBegins`), and its body ends in a later state with these
invariants (`Kept.callEnds`); so does every body that is run in such a state (`Kept.runBlock`).
-/

namespace Pseudocode

open Exec Semantics

variable {σ : Type} {α : Type}

namespace Watch

/-- Keeps the state in which a body begins. -/
def opening (x : Watch σ Flow) : Watch σ Flow := fun m => ⟨m :: (x m).seen, (x m).result⟩

/-- Keeps the state in which a body has ended, however it did. -/
def closing (x : Watch σ Flow) : Watch σ Flow := fun m => ⟨(x m).states, (x m).result⟩

end Watch

/-- The states that are kept of the bodies of callables. -/
def Program.bodies (p : Program) (mark : Watch σ Flow → Watch σ Flow) (host : Host σ) (config : Config)
    (fuel : Nat) : Watch σ Outcome :=
  (watchingAt id mark ⟨host, config, p.definitions, none⟩ fuel).exec ⟨host, config, p.definitions, none⟩ p

/-- A run whose bodies are watched is that of the interpreter. -/
theorem bodies_result {mark : Watch σ Flow → Watch σ Flow} (marked : ∀ x m, (mark x m).result = (x m).result)
    (p : Program) (host : Host σ) (config : Config) (draws : Draws) (state : σ) (more : Nat) :
    (p.bodies mark host config (config.maxDepth + config.maxIterations + 1 + more)
        (.initial config draws state)).result =
      some (p.exec host config (.initial config draws state)) :=
  watchingAt_result id mark (fun _ _ => rfl) marked p host config draws state more

/-- A state in which the body of a callable begins. -/
def CallBegins (p : Program) (host : Host σ) (config : Config) (draws : Draws) (state : σ) (m : Machine σ) :
    Prop :=
  ∃ fuel, m ∈ (p.bodies Watch.opening host config fuel (.initial config draws state)).seen

/-- A state in which the body of a callable has ended, and the call is still to be left. -/
def CallEnds (p : Program) (host : Host σ) (config : Config) (draws : Draws) (state : σ) (m : Machine σ) :
    Prop :=
  ∃ fuel, m ∈ (p.bodies Watch.closing host config fuel (.initial config draws state)).seen

namespace Watch.Keeps

variable {κ : Knowledge (Machine σ)} {Inv Seen : Machine σ → Prop} {m : Machine σ}
  {Q : Machine σ → Flow → Prop} {x : Watch σ Flow}

theorem opening (h : Keeps κ Inv Seen m Q x) (begins : Seen m) : Keeps κ Inv Seen m Q (opening x) :=
  fun inv => ⟨List.forall_mem_cons.2 ⟨begins, (h inv).1⟩, (h inv).2⟩

theorem closing (h : Keeps κ Inv Seen m Q x) (ends : ∀ m', Inv m' → κ.Later m m' → Seen m') :
    Keeps κ Inv Seen m Q (closing x) :=
  fun inv => ⟨h.states ends inv, (h inv).2⟩

end Watch.Keeps

namespace Kept

variable {p : Program} {host : Host σ} {config : Config} {draws : Draws} {state : σ}
  {κ : Knowledge (Machine σ)} {Inv Seen : Machine σ → Prop}
  (h : Kept ⟨host, config, p.definitions, none⟩ κ Inv) (initial : Inv (.initial config draws state))

include h

theorem watchingAt {mark : Watch σ Flow → Watch σ Flow}
    (marked : ∀ m x, Entered κ Inv m → Watch.Keeps κ Inv Seen m κ.flow x →
      Watch.Keeps κ Inv Seen m κ.flow (mark x))
    (fuel : Nat) :
    SelfCongruence (watchingAt id mark ⟨host, config, p.definitions, none⟩ fuel) ⟨host, config, p.definitions, none⟩
      (.onLeft (Exec.Keeps κ Inv)) (.onLeft (Watch.Keeps κ Inv Seen)) κ Eq
      True := by
  induction fuel with
  | zero => exact h.semantics (fun _ _ _ _ _ _ => .exhausted) (fun _ _ keeps => keeps) 0
  | succ fuel ih =>
    exact h.semantics (fun _ _ rights m entered sts => marked m _ entered (ih.execBlock rights m sts))
      (fun _ _ keeps => keeps) (fuel + 1)

include initial

theorem callBegins {m : Machine σ} (begins : CallBegins p host config draws state m) : Entered κ Inv m := by
  obtain ⟨fuel, among⟩ := begins
  have watched := h.watchingAt (fun _ _ entered keeps => keeps.opening entered) fuel
  exact (watched.exec rfl _ p initial).1 m among

theorem callEnds {m : Machine σ} (ends : CallEnds p host config draws state m) :
    Inv m ∧ ∃ m₁, Entered κ Inv m₁ ∧ κ.Later m₁ m := by
  obtain ⟨fuel, among⟩ := ends
  have seen {m₁ m : Machine σ} (entered : Entered κ Inv m₁) (inv : Inv m) (later : κ.Later m₁ m) :
      Inv m ∧ ∃ m₁, Entered κ Inv m₁ ∧ κ.Later m₁ m :=
    ⟨inv, m₁, entered, later⟩
  have watched := h.watchingAt
    (fun _ _ entered keeps => keeps.closing fun _ inv later => seen entered inv later) fuel
  exact (watched.exec rfl _ p initial).1 m among

/-- A run ends in a state with its invariants, which is later than the first. -/
theorem final :
    let last := Exec.final (p.exec host config (.initial config draws state))
    Inv last ∧ κ.Later (.initial config draws state) last := by
  have watched := (h.watching (config.maxDepth + config.maxIterations + 1 + 0)).exec rfl _ p initial
  exact (watched.2 _ (observe_result p host config draws state 0)).final

end Kept

namespace Kept

variable {host : Host σ} {config : Config} {definitions : List (Definition Stmt)} {κ : Knowledge (Machine σ)}
  {Inv : Machine σ → Prop}

/-- The counting of loop passes keeps what a pass keeps. -/
theorem counted {ctx : Context σ} (h : Kept ctx κ Inv) :
    Counted (.onLeft (Exec.Keeps κ Inv)) κ ctx.config where
  toSequenced := Exec.Keeps.sequenced
  tick line := h.tick _ line
  overrun {_ m _} line inv := by
    have counted := h.tick m line inv
    rw [tick_eq] at counted
    split at counted
    · exact counted
    · exact counted.1
  passesLeft inv := ⟨⟨inv, κ.refl _⟩, trivial⟩
  refuse _ _ inv := ⟨inv, κ.refl _⟩

/-- A call keeps what its body keeps. -/
theorem call_keeps {ctx : Context σ} (h : Kept ctx κ Inv) {m : Machine σ} (d : Definition Stmt)
    (kind : CallableKind) {bindings : List Binding} (line : Nat) (known : κ.bindings m d.params bindings)
    {body : Exec σ Flow} (onBody : ∀ m, Exec.Keeps κ Inv m κ.flow body) :
    Exec.Keeps κ Inv m (fun m' ended => κ.flow m' ended.1)
      (do enter d kind bindings line; let result ← Exec.attempt body; Exec.closeCall line result) := by
  intro inv
  obtain ⟨m₁, entered, there, leaves⟩ := h.call kind line known inv
  have ended := onBody m₁ there
  rw [bind_of_ok entered, bind_of_ok (attempt_eq body m₁)]
  exact KeptUnder.closeCall (leaves _ ended.final.2 ended.final.1) ended.outcome

variable (h : ∀ frames, Kept (runContext host config definitions frames) κ Inv)

include h

/-- Runs keep what their steps keep, at every depth. -/
theorem related (frames : Nat) :
    SelfCongruence (ofExec (runContext host config definitions frames)) (runContext host config definitions frames)
      (.onLeft (Exec.Keeps κ Inv))
      (.onLeft (Exec.Keeps κ Inv)) κ Eq True := by
  have counted : Counted (.onLeft (Exec.Keeps κ Inv)) κ config := (h 0).counted
  exact counted.runBlock_related host definitions (fun frames => (h frames).steps)
    (fun d kind _ line _ _ known onBody => (h 0).call_keeps d kind line known onBody) frames

/-- Statements end, however they do, in a later state with the invariants of the state they began in. -/
theorem runBlock {m : Machine σ} (inv : Inv m) (frames : Nat) (access : Access) (sts : List Stmt) :
    Inv (Exec.final (Exec.runBlock host config definitions frames access sts m)) ∧
      κ.Later m (Exec.final (Exec.runBlock host config definitions frames access sts m)) := by
  have ended := (related h frames).execBlock (rfl : access = access) m sts inv
  rw [← runBlock_eq] at ended
  exact ended.final

end Kept

end Pseudocode
