import Pseudocode.Proofs.Typing.Runs

/-!
Properties that all values in memory have. If values that are not read from memory have a property, and arrays
keep it when elements that have it are stored in them, then it is a property of every value that a run stores
(`Holds.kept`). So arrays always have as many cells as index tuples, and these are no more than are allowed
(`Roomy`); the position of an index tuple is that of a cell then.
-/

namespace Pseudocode

/-- A property of values that arrays share with their elements, and that new arrays have. -/
structure Value.Storable (V : Value → Prop) : Prop extends Value.Closed V where
  item {g : Grid Value} {i : Nat} {x : Value} : V (.array g) → g.get? i = some x → V x
  set {g : Grid Value} {x : Value} (i : Nat) :
    V (.array g) → x.conforms g.element = true → V x → V (.array (g.set i x))
  blank {dims : List Bounds} {element : DataType} {g : Grid Value} :
    Grid.blank? dims element = some g → V (.array g)

namespace Memory

/-- What is known of the values that a run passes around, if it is the same in all states. -/
def everywhere (V : Value → Prop) : Knowledge Memory where
  Later _ _ := True
  value _ := V
  cell _ _ := True
  refl _ := trivial
  trans _ _ := trivial
  value_later _ known := known
  cell_later _ _ := trivial

/-- Every value in memory has a property. -/
structure Holds (V : Value → Prop) (mem : Memory) : Prop where
  mirrors : mem.Mirrors
  cells {c : CellId} {v : Variable} {x : Value} : mem.scopes.cells[c]? = some v → v.value = some x → V x
  slots {a : Nat} {x : Value} : mem.arena.slot a = .holding x → V x

namespace Holds

open Typed (holding_put holding_occupy holding_vacate)

variable {V : Value → Prop} {mem mem' : Memory}

/-- One variable changes, and has a value with the property then, if it has one. -/
theorem update (h : mem.Holds V) {c : CellId} {f : Variable → Variable}
    (known : ∀ v x, mem.scopes.cells[c]? = some v → (f v).value = some x → V x) {d : CellId} {w : Variable}
    {x : Value} (there : (mem.scopes.update c f).cells[d]? = some w) (held : w.value = some x) : V x := by
  rcases getElem?_modify_eq_some there with ⟨rfl, v, old, rfl⟩ | old
  · exact known v x old held
  · exact h.cells old held

theorem step (storable : Value.Storable V) (h : mem.Holds V) (change : Change V mem mem') : mem'.Holds V := by
  have mirrors := change.mirrors h.mirrors
  cases change with
  | @store c v x _ _ _ _ known =>
    refine ⟨mirrors, fun there held => h.update (fun _ y _ value => ?_) there held, fun {b y} held => ?_⟩
    · cases value
      exact known
    · cases address : v.address with
      | none =>
        rw [address] at held
        exact h.slots held
      | some a =>
        rw [address] at held
        rcases holding_put held with old | rfl
        · exact h.slots old
        · exact known
  | @storeElement c v g x i _ there _ array fits known =>
    refine ⟨mirrors, fun now held => h.update (fun w y old value => ?_) now held, h.slots⟩
    cases there.symm.trans old
    rw [Variable.value_setElement array] at value
    cases value
    exact storable.set i (h.cells there array) fits known
  | put _ _ known =>
    refine ⟨mirrors, h.cells, fun held => ?_⟩
    rcases holding_put held with old | rfl
    · exact h.slots old
    · exact known
  | occupy tag placed => exact ⟨mirrors, h.cells, fun held => h.slots (holding_occupy held)⟩
  | vacate _ _ => exact ⟨mirrors, h.cells, fun held => h.slots (holding_vacate held)⟩
  | @bind c v a _ there _ _ _ =>
    refine ⟨mirrors, fun now held => h.update (f := fun v => { v with address := some a })
      (fun w y old value => h.cells old value) now held, fun {b y} held => ?_⟩
    cases value : v.value with
    | none =>
      rw [value] at held
      exact h.slots (holding_occupy held)
    | some x =>
      rw [value] at held
      rcases holding_put held with old | rfl
      · exact h.slots (holding_occupy old)
      · exact h.cells there value
  | @declare name v _ starts =>
    refine ⟨mirrors, fun now held => ?_, h.slots⟩
    rcases getElem?_push_eq_some now with ⟨-, rfl⟩ | old
    · rcases starts.known _ held with known | ⟨dims, element, g, -, blank, rfl⟩
      · exact known
      · exact storable.blank blank
    · exact h.cells old held

theorem enter (h : mem.Holds V) {ps : List Param} {bs : List Binding}
    (known : (everywhere V).bindings mem ps bs) : (mem.enter ps bs).Holds V := by
  refine ⟨h.mirrors.enter known, fun {c w x} there held => ?_, h.slots⟩
  have opened (c : CellId) (v : Variable) (x : Value) (there : (mem.scopes.push globalScope).cells[c]? = some v)
      (held : v.value = some x) : V x := h.cells there held
  refine Scopes.receiveAll_of (P := fun s => ∀ (c : CellId) (v : Variable) (x : Value),
    s.cells[c]? = some v → v.value = some x → V x) ?_ known opened c w x there held
  intro s p b given inv
  unfold Scopes.receive
  split
  · cases b with
    | shared cell => exact inv
    | copied v =>
      intro c w x there held
      rcases getElem?_push_eq_some there with ⟨-, rfl⟩ | old
      · cases held
        exact given.1
      · exact inv c w x old held
  · exact inv

theorem endVariable (h : mem.Holds V) (id : ScopeId) (c : CellId) : (mem.endVariable id c).Holds V := by
  refine ⟨h.mirrors.endVariable id c, fun {d w x} there held => ?_, fun {a x} held => ?_⟩
  · rw [cells_endVariable] at there
    obtain ⟨v, old, rfl⟩ := Option.map_eq_some_iff.1 there
    split at held
    · cases held
    · exact h.cells old held
  · unfold Memory.endVariable at held
    split at held
    · exact h.slots held
    · rename_i v _
      split at held
      · cases address : v.address with
        | none =>
          rw [address] at held
          exact h.slots held
        | some b =>
          rw [address] at held
          exact h.slots (holding_vacate held)
      · exact h.slots held

theorem leave (h : mem.Holds V) : mem.leave.Holds V := by
  refine leave_of h ⟨h.mirrors.pop, fun there held => ?_, h.slots⟩ fun _ id c there => there.endVariable id c
  rw [Scopes.cells_pop] at there
  exact h.cells there held

/-- Every step of a run stores values with the property only. -/
theorem kept (storable : Value.Storable V) : MemoryKept (everywhere V) (Holds V) where
  mirrors h := h.mirrors
  values _ := storable.toClosed
  held h there held := h.cells there held
  item known held := storable.item known held
  slot h held := h.slots held
  sees _ _ := trivial
  change h change := ⟨h.step storable change, trivial⟩
  enter known h := h.enter known
  leave _ _ _ there := ⟨there.leave, trivial, fun _ known => known⟩

theorem initial (V : Value → Prop) (size : Nat) : Memory.Holds V ⟨.initial, .empty size, []⟩ where
  mirrors := (Typed.initial size).mirrors
  cells := by simp [Scopes.initial]
  slots held := by
    rw [Arena.slot_empty] at held
    cases held

end Holds

end Memory

/-- The arrays in a value have as many cells as index tuples, and no more than are allowed. -/
abbrev Value.Roomy : Value → Prop := Value.Sound fun dims _ => (dims.map Bounds.length).prod ≤ maxCells

theorem Value.Roomy.storable : Value.Storable Value.Roomy where
  toClosed := Value.Sound.closed _
  item known held := known.grid.2.2.2 _ _ held
  set i known fits element := known.set fits element i
  blank {dims element g} blank := by
    refine .blank blank ?_
    unfold Grid.blank? at blank
    split at blank
    · rename_i count counted
      split at blank
      · rw [← Bounds.cellCount?_eq_some counted]
        assumption
      · cases blank
    · cases blank

end Pseudocode
