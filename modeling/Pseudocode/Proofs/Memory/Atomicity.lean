import Pseudocode.Proofs.Calls
import Pseudocode.Proofs.Memory.Contents
import Pseudocode.Proofs.Mirror.Runs

/-!
Stores are made in full or not at all (`stores_are_atomic`). Some change the variable before the arena, but
what is checked first, and what is known of the states that a run can reach, rules out that the second change
fails: a variable that has an address has a block of its own, and a block that was just taken can be written.
-/

namespace Pseudocode

open Exec Semantics

variable {σ : Type} {α β : Type}

namespace Grid

theorem one_le_length {b : Bounds} {index : Int} (within : b.contains index = true) : 1 ≤ b.length := by
  simp only [Bounds.contains, Bool.and_eq_true, decide_eq_true_eq] at within
  have wide : 1 ≤ b.width := by
    unfold Bounds.width
    omega
  exact Nat.le_min.2 ⟨by decide, wide⟩

theorem prod_pos_of_positionFrom {start i : Nat} {indices : List Int} {dims : List Bounds}
    (found : positionFrom start indices dims = .ok i) (rank : indices.length = dims.length) :
    0 < (dims.map Bounds.length).prod := by
  induction indices generalizing start dims with
  | nil =>
    obtain rfl : dims = [] := List.length_eq_zero_iff.1 rank.symm
    exact Nat.one_pos
  | cons index indices ih =>
    cases dims with
    | nil => cases rank
    | cons b dims =>
      rw [positionFrom] at found
      split at found
      · rename_i within
        rw [List.map_cons, List.prod_cons]
        exact Nat.mul_pos (one_le_length within) (ih found (Nat.succ.inj rank))
      · cases found

-- By induction on the dimensions; there are `bound` positions for the indices read so far. A dimension whose
-- width is not a word would make the grid too large.
theorem positionFrom_lt {start bound i : Nat} {indices : List Int} {dims : List Bounds}
    (found : positionFrom start indices dims = .ok i) (rank : indices.length = dims.length)
    (small : (dims.map Bounds.length).prod < wordMax) (inside : start < bound) :
    i < bound * (dims.map Bounds.length).prod := by
  induction indices generalizing start bound dims with
  | nil =>
    obtain rfl : dims = [] := List.length_eq_zero_iff.1 rank.symm
    cases found
    simpa using inside
  | cons index indices ih =>
    cases dims with
    | nil => cases rank
    | cons b dims =>
      rw [positionFrom] at found
      rw [List.map_cons, List.prod_cons] at small ⊢
      split at found
      · rename_i within
        have rest := prod_pos_of_positionFrom found (Nat.succ.inj rank)
        have fits : b.length < wordMax := Nat.lt_of_le_of_lt (Nat.le_mul_of_pos_right _ rest) small
        have offset : (index - b.lower).toNat < b.length := by
          simp only [Bounds.contains, Bool.and_eq_true, decide_eq_true_eq] at within
          unfold Bounds.length Bounds.width at fits ⊢
          omega
        have next : start * b.length + (index - b.lower).toNat < bound * b.length :=
          calc start * b.length + (index - b.lower).toNat
            _ < (start + 1) * b.length := by rw [Nat.add_one_mul]; omega
            _ ≤ bound * b.length := Nat.mul_le_mul_right _ inside
        rw [← Nat.mul_assoc]
        refine ih found (Nat.succ.inj rank) ?_ next
        exact Nat.lt_of_le_of_lt (Nat.le_mul_of_pos_left _ (one_le_length within)) small
      · cases found

/-- Assigning a cell changes no other. -/
theorem get?_set_eq (g : Grid α) {i : Nat} (inside : i < g.cells.size) (a : α) (j : Nat) :
    (g.set i a).get? j = if j = i then some a else g.get? j := by
  simp only [get?, set, Array.getElem?_setIfInBounds]
  by_cases same : j = i
  · subst same
    simp [inside]
  · simp [same, Ne.symm same]

end Grid

/-- An index tuple points to a cell of an array. -/
theorem Value.Roomy.position_lt {g : Grid Value} (roomy : (Value.array g).Roomy) {indices : List Int} {i : Nat}
    (rank : indices.length = g.dims.length) (found : g.position indices = .ok i) : i < g.cells.size := by
  obtain ⟨few, size, -, -⟩ := roomy.grid
  have small : (g.dims.map Bounds.length).prod < wordMax := Nat.lt_of_le_of_lt few (by decide)
  have inside := Grid.positionFrom_lt found rank small Nat.one_pos
  rwa [Nat.one_mul, ← size] at inside

/-- Nothing has changed but some cells and some slots, and the trace. -/
structure Machine.SameBut (C : CellId → Prop) (S : Nat → Prop) (m m' : Machine σ) : Prop where
  cell : ∀ c, ¬ C c → m'.scopes.cell? c = m.scopes.cell? c
  slot : ∀ i, ¬ S i → m'.arena.slot i = m.arena.slot i
  rest : ∃ cells arena trace, m.arena.SameTable arena ∧
    m' = { m with scopes := { m.scopes with cells }, arena, trace }

/-- The variable that a name stands for holds a value now, and its copy too if it has one. -/
def Machine.VariableStored (name : String) (x : Value) (m m' : Machine σ) : Prop :=
  ∃ c v, m.find? name = some (c, v) ∧ m'.scopes.cell? c = some { v with value := some x } ∧
    (∀ a, v.address = some a → m'.arena.slot a = .holding x) ∧ m.SameBut (· = c) (v.address = some ·) m'

/-- One element of an array holds a value now. -/
def Machine.ElementStored (name : String) (indices : List Int) (x : Value) (m m' : Machine σ) : Prop :=
  ∃ c v g i, m.find? name = some (c, v) ∧ v.value = some (.array g) ∧ g.position indices = .ok i ∧
    m'.scopes.cell? c = some { v with value := some (.array (g.set i x)) } ∧
    (∀ j, m'.item? c j = if j = i then some x else m.item? c j) ∧ m.SameBut (· = c) (fun _ => False) m'

/-- An address holds a value now, and so does the variable whose address it is, if there is one. -/
def Machine.TargetStored (a : Nat) (x : Value) (m m' : Machine σ) : Prop :=
  m'.arena.slot a = .holding x ∧
    (∀ c, m.bound.lookup a = some c →
      ∃ v, m.scopes.cell? c = some v ∧ m'.scopes.cell? c = some { v with value := some x }) ∧
    m.SameBut (m.bound.lookup a = some ·) (· = a) m'

namespace Exec

/-- If a step fails, then in the state in which it began. -/
def FailsUnchanged (m : Machine σ) (x : Exec σ α) : Prop := ∀ e m', x m = .error e m' → m' = m

theorem AllOrNothing.failsUnchanged {m : Machine σ} {Done : α → Machine σ → Prop} {x : Exec σ α}
    (h : AllOrNothing m Done (x m)) : FailsUnchanged m x := by
  intro e m' failed
  rw [failed] at h
  exact h

end Exec

theorem Scopes.cell?_update (s : Scopes) (c d : CellId) (f : Variable → Variable) :
    (s.update c f).cell? d = if d = c then (s.cell? d).map f else s.cell? d := by
  simp only [cell?, update, Array.getElem?_modify, eq_comm]

namespace Machine

variable {m : Machine σ}

theorem SameBut.stored (c : CellId) (f : Variable → Variable) (address : Option Nat) (x : Value) (t : Trace) :
    m.SameBut (· = c) (address = some ·) (m.stored c f address x t) where
  cell d other := by
    show (m.scopes.update c f).cell? d = _
    rw [Scopes.cell?_update, if_neg other]
  slot i other := by
    cases address with
    | none => rfl
    | some a =>
      show (m.arena.put a x).slot i = _
      rw [Arena.slot_put, if_neg fun both => other (congrArg some both.1.symm)]
  rest := by
    cases address with
    | none => exact ⟨_, m.arena, t, ⟨rfl, rfl, rfl, rfl⟩, rfl⟩
    | some a => exact ⟨_, _, t, m.arena.sameTable_put a x, rfl⟩

theorem SameBut.mono {C C' : CellId → Prop} {S S' : Nat → Prop} {m' : Machine σ} (h : m.SameBut C S m')
    (cells : ∀ c, C c → C' c) (slots : ∀ i, S i → S' i) : m.SameBut C' S' m' where
  cell c other := h.cell c fun changed => other (cells c changed)
  slot i other := h.slot i fun changed => other (slots i changed)
  rest := h.rest

theorem cell?_stored {c : CellId} {v : Variable} (there : m.scopes.cell? c = some v) (f : Variable → Variable)
    (address : Option Nat) (x : Value) (t : Trace) : (m.stored c f address x t).scopes.cell? c = some (f v) := by
  show (m.scopes.update c f).cell? c = _
  rw [Scopes.cell?_update, if_pos rfl, there]
  rfl

theorem slot_stored {a : Nat} (taken : m.arena.isAllocated a = true) (c : CellId) (f : Variable → Variable)
    (x : Value) (t : Trace) : (m.stored c f (some a) x t).arena.slot a = .holding x := by
  show (m.arena.put a x).slot a = _
  rw [Arena.slot_put, if_pos ⟨rfl, taken⟩]

end Machine

namespace Exec

variable {m : Machine σ}

theorem assignVariable_atomic (inv : m.memory.Mirrors) (name : String) (x : Value) (line : Nat) :
    AllOrNothing m (fun _ => m.VariableStored name x) (assignVariable name x line m) := by
  refine (Acts.assignVariable (V := fun _ => True) name line trivial inv fun c v t found => ?_).done
  have there : m.scopes.cell? c = some v := Machine.cell_of_find? found
  refine ⟨c, v, found, Machine.cell?_stored there _ _ x t, fun a address => ?_, .stored c _ _ x t⟩
  rw [address]
  exact Machine.slot_stored (inv.mirrored there address).isAllocated c _ x t

theorem assignThrough_atomic (inv : m.memory.Mirrors) (a : Nat) (x : Value) (line : Nat) :
    AllOrNothing m (fun _ => m.TargetStored a x) (assignThrough a x line m) := by
  refine (Acts.assignThrough (V := fun _ => True) line trivial inv a (fun t taken key => ?_)
    fun c v t key there address => ?_).done
  · refine ⟨?_, fun c bound => ?_, fun _ _ => rfl, fun i other => ?_, ⟨_, _, _, m.arena.sameTable_put a x, rfl⟩⟩
    · exact (Arena.slot_put a x a).trans (if_pos ⟨rfl, taken⟩)
    · cases key.symm.trans bound
    · exact (Arena.slot_put a x i).trans (if_neg fun both => other both.1)
  · refine ⟨Machine.slot_stored (inv.mirrored there address).isAllocated c _ x t, fun d bound => ?_, ?_⟩
    · cases key.symm.trans bound
      exact ⟨v, there, Machine.cell?_stored there _ _ x t⟩
    · refine (Machine.SameBut.stored c _ (some a) x t).mono (fun d same => ?_) fun i same => ?_
      · rw [same, key]
      · exact (Option.some.inj same).symm

theorem assignElement_atomic (roomy : m.memory.Holds Value.Roomy) (name : String) (indices : List Int) (x : Value)
    (line : Nat) :
    AllOrNothing m (fun _ => m.ElementStored name indices x) (assignElement name indices x line m) := by
  refine (Acts.assignElement (V := fun _ => True) name line trivial indices fun c v plan t found planned => ?_).done
  have there : m.scopes.cell? c = some v := Machine.cell_of_find? found
  obtain ⟨-, g, array, -, rank, position⟩ := planElement_ok planned
  have now : v.setElement plan.position x = { v with value := some (.array (g.set plan.position x)) } := by
    obtain ⟨type, value, constant, address, owner⟩ := v
    cases array
    rfl
  have cell := Machine.cell?_stored there (·.setElement plan.position x) none x t
  rw [now] at cell
  refine ⟨c, v, g, plan.position, found, array, position, cell, fun j => ?_, ?_⟩
  · have before : m.item? c j = g.get? j := by simp [Machine.item?, there, array]
    have after : (m.stored c (·.setElement plan.position x) none x t).item? c j = (g.set plan.position x).get? j := by
      simp [Machine.item?, cell]
    have inside := (roomy.cells there array).position_lt rank position
    rw [before]
    exact after.trans (g.get?_set_eq inside x j)
  · exact (Machine.SameBut.stored c _ none x t).mono (fun _ same => same) fun i same => by cases same

end Exec

/-- A state in which a run may come to store something: some expressions have been evaluated since the boundary
of a statement, and what followed has left memory alone. -/
def ComesToStore (p : Program) (host : Host σ) (config : Config) (draws : Draws) (state : σ) (m : Machine σ) :
    Prop :=
  ∃ m₀ frames es, Reachable p host config draws state m₀ ∧
    m.memory = (final (evalAll (runContext host config p.definitions frames) es m₀)).memory

theorem Reachable.comesToStore {p : Program} {host : Host σ} {config : Config} {draws : Draws} {state : σ}
    {m : Machine σ} (reached : Reachable p host config draws state m) : ComesToStore p host config draws state m :=
  ⟨m, 0, [], reached, by simp only [Exec.evalAll]; rfl⟩

theorem ComesToStore.holds {p : Program} {host : Host σ} {config : Config} {draws : Draws} {state : σ}
    {m : Machine σ} (there : ComesToStore p host config draws state m) : m.memory.Holds Value.Roomy := by
  obtain ⟨m₀, frames, es, reached, same⟩ := there
  have kept := Memory.Holds.kept Value.Roomy.storable
  have before := (kept.kept _).reachable (.initial _ config.arenaSize) reached
  have related := Kept.related (fun frames => kept.kept (runContext host config p.definitions frames)) frames
  have ended := related.evalAll m₀ es before
  rw [evalAll_ofExec] at ended
  rw [same]
  exact ended.final.1

/-- Wherever a run may come to store something, a store in a variable, in an element of an array or through a
pointer changes its target, with the copy if there is one, and nothing else, or it fails and leaves all as it
was. So do declarations, the taking of addresses, and the taking and freeing of blocks if they fail. -/
theorem stores_are_atomic {p : Program} {host : Host σ} {config : Config} {draws : Draws} {state : σ}
    {m : Machine σ} (there : ComesToStore p host config draws state m) (line : Nat) :
    (∀ name x, AllOrNothing m (fun _ => m.VariableStored name x) (assignVariable name x line m)) ∧
    (∀ name indices x,
      AllOrNothing m (fun _ => m.ElementStored name indices x) (assignElement name indices x line m)) ∧
    (∀ a x, AllOrNothing m (fun _ => m.TargetStored a x) (assignThrough a x line m)) ∧
    (∀ name type, FailsUnchanged m (declare name type line)) ∧
    (∀ name x, FailsUnchanged m (declareConstant name x line)) ∧
    (∀ size tag, FailsUnchanged m (allocateBlock size tag line)) ∧
    (∀ name, FailsUnchanged m (addressOf name line)) ∧
    ∀ x, FailsUnchanged m (freeBlock x line) := by
  have roomy := there.holds
  have inv := roomy.mirrors
  refine ⟨fun name x => assignVariable_atomic inv name x line,
    fun name indices x => assignElement_atomic roomy name indices x line,
    fun a x => assignThrough_atomic inv a x line, ?_, ?_, ?_, ?_, ?_⟩
  · exact fun name type => (Acts.declare (V := fun _ => True) name line type).done.failsUnchanged
  · exact fun name x => (Acts.declareConstant (V := fun _ => True) name line trivial).done.failsUnchanged
  · exact fun size tag => (Acts.allocateBlock (V := fun _ => True) line size tag).done.failsUnchanged
  · exact fun name => (Acts.addressOf (V := fun _ => True) name line inv).done.failsUnchanged
  · exact fun x => (Acts.freeBlock (V := fun _ => True) line x).done.failsUnchanged

/-- Behind a run that has taken the address of a variable, a value that fits is stored in both places, and one
that does not in none. -/
theorem pointerWrite_atomic :
    ∃ m : Machine Script, ComesToStore pointerWrite Script.host { arenaSize := 1030 } 0 {} m ∧
      (∃ m', assignVariable "b" (.boolean false) 5 m = .ok () m' ∧
        m'.arena.slot 1024 = .holding (.boolean false)) ∧
      ∃ e, assignVariable "b" (.text "x") 5 m = .error e m := by
  let m := final (pointerWrite.exec Script.host { arenaSize := 1030 } (.initial { arenaSize := 1030 } 0 {}))
  have there : ComesToStore pointerWrite Script.host { arenaSize := 1030 } 0 {} m :=
    (reachable_final pointerWrite Script.host { arenaSize := 1030 } 0 {}).comesToStore
  have found : (m.find? "b").map (·.2.address) = some (some 1024) := by decide +kernel
  have ended : (outcome (assignVariable "b" (.boolean false) 5 m)).isOk = true := by decide +kernel
  have failed : (outcome (assignVariable "b" (.text "x") 5 m)).isOk = false := by decide +kernel
  clear_value m
  refine ⟨m, there, ?_, ?_⟩
  · have stored := (stores_are_atomic there 5).1 "b" (.boolean false)
    cases run : assignVariable "b" (.boolean false) 5 m with
    | error e m' =>
      rw [run] at ended
      cases ended
    | ok _ m' =>
      rw [run] at stored
      obtain ⟨c, v, looked, -, copy, -⟩ := stored
      rw [looked] at found
      exact ⟨m', rfl, copy 1024 (Option.some.inj found)⟩
  · have refused := (stores_are_atomic there 5).1 "b" (.text "x")
    cases run : assignVariable "b" (.text "x") 5 m with
    | ok _ m' =>
      rw [run] at failed
      cases failed
    | error e m' =>
      rw [run] at refused
      exact ⟨e, congrArg _ refused⟩

end Pseudocode
