import Pseudocode.Proofs.Constants.Invariant
import Pseudocode.Proofs.Course
import Pseudocode.Proofs.Lifetime.Runs

/-!
Constants never change (`constants_keep_values`). From the statement that declares it until its scope ends, a
constant and its copy in the arena hold the value of the declaration, whatever else the run does: no
assignment by any name, through any pointer, by a loop or from outside reaches it.
-/

namespace Pseudocode

open Exec Machine Semantics

variable {σ : Type}

/-- A cell has a constant with a value, and so has the arena if the constant has an address. -/
def Machine.HoldsConstant (m : Machine σ) (c : CellId) (x : Value) : Prop :=
  ∃ v, m.scopes.cell? c = some v ∧ v.constant = true ∧ v.value = some x ∧
    ∀ a, v.address = some a → m.arena.slot a = .holding x

theorem Machine.HoldsConstant.endures {m m' : Machine σ} {c : CellId} {x : Value} (h : m.HoldsConstant c x)
    (mirrors : m'.memory.Mirrors) (endures : m.memory.Endures m'.memory) {id : ScopeId} {name : String}
    (named : m'.scopes.Names id name c) : m'.HoldsConstant c x := by
  obtain ⟨v, there, constant, held, -⟩ := h
  obtain ⟨v', there', constant', value, -⟩ := endures c v there constant
  have held' : v'.value = some x := by
    rcases value with same | gone
    · exact same.trans held
    · exact absurd named (gone id name)
  refine ⟨v', there', constant', held', fun a placed => ?_⟩
  have copy := (mirrors.mirrored there' placed).slot
  rw [held'] at copy
  exact copy

/-- A constant is declared in the innermost scope, in a cell of its own. -/
theorem Exec.declareConstant_ok {name : String} {x : Value} {line : Nat} {m m' : Machine σ}
    (declared : declareConstant name x line m = .ok () m') :
    m'.HoldsConstant m.scopes.cells.size x ∧
      m'.scopes.Names m'.scopes.current name m.scopes.cells.size := by
  unfold declareConstant at declared
  cases typed : x.constantType? with
  | none =>
    rw [typed] at declared
    cases declared
  | some type =>
    rw [typed] at declared
    obtain ⟨_, m₁, named, recorded⟩ := bind_eq_ok declared
    cases recorded
    let v : Variable := { Variable.declared type (some x) m.scopes.current with constant := true }
    change (if m.scopes.accepts m.scopes.current name then
      modifyScopes (·.declare m.scopes.current name v) else fail (.redeclaration name) line : Exec σ Unit) m =
        .ok () m₁ at named
    split at named
    · rename_i accepted
      cases named
      have there : (m.scopes.addCell v).cells[m.scopes.cells.size]? = some v := Array.getElem?_push_size
      have same : (m.scopes.declare m.scopes.current name v).current = m.scopes.current :=
        congrArg (· - 1) (Scopes.depth_declare v)
      refine ⟨⟨v, there, rfl, rfl, nofun⟩, (Scopes.names_declare accepted v).2 (.inr ⟨same, rfl, rfl⟩)⟩
    · cases named

/-- The statement that declares a constant gives it the value of its expression. -/
theorem Exec.execStmt_constant {ctx : Context σ} {access : Access} {name : String} {e : Expr} {l : Location}
    {m m' : Machine σ} (ended : execStmt ctx access (.constant name e l) m = .ok .normal m') :
    ∃ m₁ m₂ x c, interrupted ctx access (.constant name e l) m = .ok false m₁ ∧ eval ctx e m₁ = .ok x m₂ ∧
      m'.HoldsConstant c x ∧ m'.scopes.Names m'.scopes.current name c := by
  rw [execStmt] at ended
  obtain ⟨stopped, m₁, begun, rest⟩ := bind_eq_ok ended
  cases stopped with
  | true => cases rest
  | false =>
    obtain ⟨_, m₃, ran, last⟩ := bind_eq_ok rest
    cases last
    obtain ⟨x, m₂, value, declared⟩ := bind_eq_ok ran
    exact ⟨m₁, m₂, x, m₂.scopes.cells.size, begun, value, declareConstant_ok declared⟩

/-- Constants endure from each state of a run to all later ones. -/
theorem Memory.Since.advancing (mem₀ : Memory) (ctx : Context σ) :
    Advancing ctx (Memory.endurance.comap memory) (fun m => mem₀.Since m.memory)
      fun m m' => m.memory.Endures m'.memory where
  kept := (Memory.Since.kept mem₀).kept ctx
  refl m := .refl m.memory
  trans first next := first.trans next
  later follows := follows.2
  enter _ known entered := by
    rw [memory_of_enter entered]
    exact .enter (Memory.lifetime_bindings (Memory.endurance.bindings_comap.1 known))
  leave line inv := by
    obtain ⟨t, left⟩ := leave_eq inv.lifetimes.mirrors line
    rw [left]
    exact .leave inv.lifetimes

/-- A statement that declares a constant and ends normally leaves the innermost scope with a name for it, and
the constant with the value of the expression. Of any two states of a run, if the earlier has a constant, then
the later has it with the same value, and so has the arena if the constant has an address, unless no scope has
a name for it any more. No scope that is open in a state that a run can reach is closed while statements run
from there: in all states that they go through, and however they end, every constant that has a name keeps its
names and its value. -/
theorem constants_keep_values (p : Program) (host : Host σ) (config : Config) (draws : Draws) (state : σ) :
    (∀ frames access name e l m m',
      execStmt (runContext host config p.definitions frames) access (.constant name e l) m = .ok .normal m' →
      ∃ m₁ m₂ x c,
        interrupted (runContext host config p.definitions frames) access (.constant name e l) m = .ok false m₁ ∧
        eval (runContext host config p.definitions frames) e m₁ = .ok x m₂ ∧
        m'.HoldsConstant c x ∧ m'.scopes.Names m'.scopes.current name c) ∧
    (∀ fuel, (p.observe host config fuel (.initial config draws state)).states.Pairwise fun m m' =>
      ∀ c x, m.HoldsConstant c x → (∃ id name, m'.scopes.Names id name c) → m'.HoldsConstant c x) ∧
    ∀ m, Reachable p host config draws state m → ∀ fuel access sts,
      let ctx : Context σ := ⟨host, config, p.definitions, none⟩
      ∀ m' ∈ ((watching ctx fuel).execBlock ctx access sts m).states,
        ∀ id name c x, m.scopes.Names id name c → m.HoldsConstant c x →
          m'.scopes.Names id name c ∧ m'.HoldsConstant c x := by
  let ctx : Context σ := ⟨host, config, p.definitions, none⟩
  let first : Memory := (Machine.initial config draws state).memory
  have initial : first.Since first := ⟨.initial _, id, .refl _⟩
  have reach {m : Machine σ} (reached : Reachable p host config draws state m) : first.Since m.memory :=
    (Memory.Since.advancing first ctx).kept.reachable initial reached
  refine ⟨fun _ _ _ _ _ _ _ => execStmt_constant, fun fuel => ?_, fun m reached fuel access sts => ?_⟩
  · have course := (Memory.Since.advancing first ctx).pairwise initial fuel
    refine course.imp_of_mem fun {m m'} _ later endures c x held named => ?_
    obtain ⟨id, name, named⟩ := named
    exact held.endures (reach ⟨fuel, later⟩).lifetimes.mirrors endures named
  · intro ctx m' among id name c x named held
    have begun : m.memory.Since m.memory := ⟨(reach reached).lifetimes, fun named => named, .refl _⟩
    have keeps := (((Memory.Since.kept m.memory).kept ctx).watching fuel).execBlock (rfl : access = access) m sts
    have inv : m.memory.Since m'.memory := keeps.states (fun _ there _ => there) begun m' among
    have still := inv.names named
    exact ⟨still, held.endures inv.lifetimes.mirrors inv.endures still⟩

/-- A constant whose address is taken, and which is passed by reference to a procedure that assigns it. -/
def constantSpoiler : Program where
  statements :=
    [.define ⟨"Spoil", [⟨"x", .boolean, .byReference⟩], none,
        [.assign (.identifier "x" ⟨2, 3⟩) (.literal (.boolean false) ⟨2, 8⟩) ⟨2, 3⟩], ⟨1, 1⟩⟩,
      .constant "k" (.literal (.boolean true) ⟨4, 14⟩) ⟨4, 1⟩,
      .declare "p" (.pointer .boolean) ⟨5, 1⟩,
      .assign (.identifier "p" ⟨6, 1⟩) (.addressOf (.identifier "k" ⟨6, 7⟩) ⟨6, 6⟩) ⟨6, 1⟩,
      .call "Spoil" [.identifier "k" ⟨7, 12⟩] ⟨7, 1⟩]

/-- Whether a cell has a constant, its truth value and its address. -/
def Machine.constantTruth? (m : Machine σ) (c : CellId) : Option (Bool × Bool × Option Nat) :=
  match m.scopes.cell? c with
  | some ⟨_, some (.boolean b), constant, address, _⟩ => some (constant, b, address)
  | _ => none

theorem Machine.constantTruth?_eq_some {m : Machine σ} {c : CellId} {constant b : Bool} {address : Option Nat}
    (found : m.constantTruth? c = some (constant, b, address)) :
    ∃ v, m.scopes.cell? c = some v ∧ v.constant = constant ∧ v.value = some (.boolean b) ∧ v.address = address := by
  unfold constantTruth? at found
  split at found
  · rename_i there
    cases found
    exact ⟨_, there, rfl, rfl, rfl⟩
  · cases found

/-- When the assignment in the procedure has been refused, the constant and its copy are as they were. -/
theorem constantSpoiler_refused :
    let states := (constantSpoiler.observe Script.host { arenaSize := 1030 } 1
      (.initial { arenaSize := 1030 } 0 {})).states
    ∃ m m' : Machine Script, states[3]? = some m ∧ states[10]? = some m' ∧
      m.HoldsConstant 0 (.boolean true) ∧ m'.scopes.Names 1 "x" 0 ∧ m'.HoldsConstant 0 (.boolean true) ∧
      m'.arena.slot 1024 = .holding (.boolean true) := by
  intro states
  have shown : (states[3]?.bind (·.constantTruth? 0), states[10]?.bind (·.constantTruth? 0),
      states[10]?.bind (·.scopes.scope? 1)) =
      (some (true, true, none), some (true, true, some 1024), some ((Scope.empty (some 0)).bind "x" 0)) := by
    decide +kernel
  simp only [Prod.mk.injEq, Option.bind_eq_some_iff] at shown
  obtain ⟨⟨m, at3, before⟩, ⟨m', at10, after⟩, _, at10', scope⟩ := shown
  cases at10.symm.trans at10'
  obtain ⟨v, there, constant, held, unplaced⟩ := Machine.constantTruth?_eq_some before
  have declared : m.HoldsConstant 0 (.boolean true) := by
    refine ⟨v, there, constant, held, fun a placed => ?_⟩
    rw [unplaced] at placed
    cases placed
  have shared : m'.scopes.Names 1 "x" 0 := ⟨_, scope, rfl⟩
  obtain ⟨-, course, -⟩ := constants_keep_values constantSpoiler Script.host { arenaSize := 1030 } 0 {}
  obtain ⟨inside, rfl⟩ := List.getElem?_eq_some_iff.1 at3
  obtain ⟨inside', rfl⟩ := List.getElem?_eq_some_iff.1 at10
  have kept := List.pairwise_iff_getElem.1 (course 1) 3 10 inside inside' (by decide) 0 _ declared ⟨1, "x", shared⟩
  obtain ⟨w, there', -, -, placed⟩ := Machine.constantTruth?_eq_some after
  have ⟨w', there'', _, _, copied⟩ := kept
  cases there'.symm.trans there''
  exact ⟨_, _, at3, at10, declared, shared, kept, copied 1024 placed⟩

end Pseudocode
