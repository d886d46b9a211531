import Pseudocode.Proofs.Arena.Representation
import Pseudocode.Proofs.Memory.Runs
import Pseudocode.Proofs.Termination

/-!
Variables and their copies in the arena agree in every state that a run can reach
(`mirror_of_reachable`): whether a variable was last assigned by its name, through a pointer, by
reference from a callable, as a loop variable or from outside, what a pointer to it reads is what its
name reads.
-/

namespace Pseudocode

open Exec

variable {σ : Type} {α β : Type}

/-- The variables of a state agree with their copies in the arena. -/
def Machine.Mirrors (m : Machine σ) : Prop := m.memory.Mirrors

/-- Every step keeps variables and their copies together. -/
theorem Machine.Mirrors.kept : MemoryKept .nothing Memory.Mirrors where
  mirrors inv := inv
  values _ := .true
  held _ _ _ := trivial
  item _ _ := trivial
  slot _ _ := trivial
  sees _ _ := trivial
  change inv change := ⟨change.mirrors inv, trivial⟩
  enter known inv := inv.enter known
  leave _ _ _ inv := ⟨inv.leave, trivial, fun _ _ => trivial⟩

namespace Exec

/-- A frame is always closed, so a call ends as its body has ended. -/
theorem closeCall_eq {m : Machine σ} (inv : m.Mirrors) (line : Nat) (result : Except RuntimeError Flow) :
    ∃ m' : Machine σ, m'.Mirrors ∧ m'.host = m.host ∧
      closeCall line result m =
        match result with
        | .ok flow => .ok (flow, m.line) m'
        | .error e => .error e m' := by
  obtain ⟨t, left⟩ := leave_eq inv line
  have seen : currentLine m = .ok m.line m := rfl
  refine ⟨{ m.withMemory m.memory.leave t with calls := m.calls.pop }, inv.leave, rfl, ?_⟩
  unfold closeCall
  rw [bind_of_ok seen, bind_of_ok left]
  cases result <;> rfl

theorem outcome_readThrough_ok {m : Machine σ} {a : Nat} {x : Value} (read : m.arena.read a = .ok x)
    (line : Nat) : outcome (readThrough a line m) = .ok x := by
  unfold readThrough
  rw [get_bind, read]
  rfl

theorem outcome_readThrough_error {m : Machine σ} {a : Nat} {fault : MemoryFault}
    (read : m.arena.read a = .error fault) (line : Nat) :
    outcome (readThrough a line m) = .error ⟨.memory fault, line⟩ := by
  unfold readThrough
  rw [get_bind, read]
  rfl

/-- What a pointer to a mirrored variable reads. -/
theorem outcome_readThrough {m : Machine σ} (inv : m.Mirrors) {c : CellId} {v : Variable} {a : Nat}
    (there : m.scopes.cell? c = some v) (address : v.address = some a) (line : Nat) (x : Value) :
    outcome (readThrough a line m) = .ok x ↔ v.value = some x := by
  have granted : m.arena.access a = _ := (inv.mirrored there address).access inv.layout
  cases value : v.value with
  | none =>
    have read : m.arena.read a = .error (.uninitialized a) := by
      rw [Arena.read, granted, value]
      rfl
    rw [outcome_readThrough_error read]
    simp
  | some y =>
    have read : m.arena.read a = .ok y := by
      rw [Arena.read, granted, value]
      rfl
    rw [outcome_readThrough_ok read, Except.ok.injEq, Option.some.injEq]

/-- What the name of a variable reads. -/
theorem outcome_readVariable {m : Machine σ} {name : String} {c : CellId} {v : Variable}
    (found : m.find? name = some (c, v)) (line : Nat) (x : Value) :
    outcome (readVariable name line m) = .ok x ↔ v.value = some x := by
  have looked := find_eq name line m
  rw [found] at looked
  unfold readVariable
  rw [bind_of_ok looked]
  dsimp only
  cases v.value with
  | none => exact ⟨nofun, nofun⟩
  | some y => exact ⟨fun given => by cases given; rfl, fun given => by cases given; rfl⟩

end Exec

/-- In every state that a run can reach, also after an error: the table of bound addresses tells which
variables have which addresses, and no two have the same; a variable's address is the start of a live
block of the size and with the tag of its type, whose first slot holds the value of the variable, or
nothing while it has none. So a pointer to a variable reads what any name of the variable reads. -/
theorem mirror_of_reachable {p : Program} {host : Host σ} {config : Config} {draws : Draws} {state : σ}
    {m : Machine σ} (reached : Reachable p host config draws state m) :
    (∀ a c, m.bound.lookup a = some c ↔ ∃ v, m.scopes.cell? c = some v ∧ v.address = some a) ∧
    (∀ c d v w a, m.scopes.cell? c = some v → m.scopes.cell? d = some w →
      v.address = some a → w.address = some a → c = d) ∧
    (∀ c v a, m.scopes.cell? c = some v → v.address = some a →
      ⟨a, v.type.size, v.type.render⟩ ∈ m.arena.blocks ∧ m.arena.slot a = .mirror v.value) ∧
    ∀ name c v a line x, m.find? name = some (c, v) → v.address = some a →
      (outcome (readThrough a line m) = .ok x ↔ outcome (readVariable name line m) = .ok x) := by
  have inv : m.Mirrors := (Machine.Mirrors.kept.kept _).reachable (.empty _ (.empty _)) reached
  refine ⟨inv.bound, fun c d v w a => inv.cell_unique, fun c v a there address => ?_, ?_⟩
  · have copy := inv.mirrored there address
    exact ⟨copy.block, copy.slot⟩
  · intro name c v a line x found address
    rw [outcome_readThrough inv (Machine.cell_of_find? found) address, outcome_readVariable found]

/-- A variable that is assigned through a pointer. -/
def pointerWrite : Program where
  statements :=
    [.declare "b" .boolean ⟨1, 1⟩, .declare "p" (.pointer .boolean) ⟨2, 1⟩,
      .assign (.identifier "p" ⟨3, 1⟩) (.addressOf (.identifier "b" ⟨3, 6⟩) ⟨3, 5⟩) ⟨3, 1⟩,
      .assign (.dereference (.identifier "p" ⟨4, 2⟩) ⟨4, 1⟩) (.literal (.boolean true) ⟨4, 6⟩) ⟨4, 1⟩]

theorem pointerWrite_mirrored :
    ∃ m : Machine Script, Reachable pointerWrite Script.host { arenaSize := 1030 } 0 {} m ∧
      m.bound.lookup 1024 = some 0 ∧
      ∃ v, m.scopes.cell? 0 = some v ∧ v.address = some 1024 ∧ m.arena.slot 1024 = .mirror v.value := by
  have reached := reachable_final pointerWrite Script.host { arenaSize := 1030 } 0 {}
  have key : (final (pointerWrite.exec Script.host { arenaSize := 1030 }
      (.initial { arenaSize := 1030 } 0 {}))).bound.lookup 1024 = some 0 := by
    decide +kernel
  obtain ⟨v, there, address⟩ := ((mirror_of_reachable reached).1 1024 0).1 key
  exact ⟨_, reached, key, v, there, address, ((mirror_of_reachable reached).2.2.1 0 v 1024 there address).2⟩

end Pseudocode
