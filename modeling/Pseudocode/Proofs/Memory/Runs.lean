import Pseudocode.Proofs.Memory.Steps

/-!
Properties of memory that hold throughout a run. What survives every change of memory, and the entering
and leaving of calls, survives every step (`MemoryKept.kept`), and so holds of every state that a run
can reach.
-/

namespace Pseudocode

open Exec Machine

variable {σ : Type} {α : Type}

/-- What every step preserves, and with it the entering and leaving of calls, is kept throughout a run. -/
theorem Kept.ofPreserves {ctx : Context σ} {Inv : Machine σ → Prop} (frames : Framing fun _ => Preserves Inv)
    (outside : HostSteps (fun _ => Preserves Inv) ctx) : Kept ctx .nothing Inv where
  steps := by
    have related :
        Semantics.MemoryRelated (.onLeft (Keeps .nothing Inv)) .nothing := by
      refine frames.memorySteps.related ?_ (fun _ _ => trivial) fun _ _ => trivial
      intro _ m Q x known step inv
      exact (step.keeps m inv).mono (fun _ there => there) fun m' a _ _ => known m' a
    exact outside.steps Keeps.sequenced related (fun step => step.keeps _) (fun _ => .true)
      ctx.config.traceLimit ctx.below
  tick m line := (frames.countPass.bind fun _ _ => outside.checkBudget line).keeps m
  call {m d bindings} kind line _ inv := by
    obtain ⟨t, entered⟩ := enter_eq d kind bindings line m
    have begun := frames.enter d kind bindings line m inv
    rw [entered] at begun
    refine ⟨_, entered, begun.1, fun m₂ _ there => ?_⟩
    exact ((frames.leave line).keeps m₂ there).mono (fun _ left => left) fun _ _ _ _ _ _ => trivial

/-- A property of memory that holds before a change, or before a call is entered or left, holds
afterwards, and what is known of values and cells is true of those that memory holds. -/
structure MemoryKept (κ : Knowledge Memory) (Inv : Memory → Prop) : Prop where
  mirrors {mem : Memory} : Inv mem → mem.Mirrors
  values (mem : Memory) : Value.Closed (κ.value mem)
  held {mem : Memory} {c : CellId} {v : Variable} {x : Value} :
    Inv mem → mem.scopes.cells[c]? = some v → v.value = some x → κ.value mem x
  item {mem : Memory} {g : Grid Value} {i : Nat} {x : Value} :
    κ.value mem (.array g) → g.get? i = some x → κ.value mem x
  slot {mem : Memory} {a : Nat} {x : Value} : Inv mem → mem.arena.slot a = .holding x → κ.value mem x
  sees {mem : Memory} {c : CellId} : Inv mem → mem.Sees c → κ.cell mem c
  change {mem mem' : Memory} : Inv mem → Memory.Change (κ.value mem) mem mem' → Inv mem' ∧ κ.Later mem mem'
  enter {mem : Memory} {ps : List Param} {bs : List Binding} :
    κ.bindings mem ps bs → Inv mem → Inv (mem.enter ps bs)
  leave {mem mem' : Memory} {ps : List Param} {bs : List Binding} :
    κ.bindings mem ps bs → Inv mem → κ.Later (mem.enter ps bs) mem' → Inv mem' →
      Inv mem'.leave ∧ κ.Later mem mem'.leave ∧ ∀ v, κ.value mem' v → κ.value mem'.leave v

namespace MemoryKept

variable {κ : Knowledge Memory} {Inv : Memory → Prop} (h : MemoryKept κ Inv) {m : Machine σ}
  {x : Exec σ α} {Q : α → Prop} {R : Memory → α → Prop}

theorem unchanged (ended : Ends (·.memory = m.memory) Q (x m))
    (known : ∀ a, Inv m.memory → Q a → R m.memory a) :
    Keeps (κ.comap memory) (Inv ·.memory) m (fun m => R m.memory) x := by
  intro inv
  cases run : x m with
  | ok a m' =>
    rw [run] at ended
    obtain ⟨same, given⟩ := ended
    show (Inv m'.memory ∧ κ.Later m.memory m'.memory) ∧ R m'.memory a
    rw [same]
    exact ⟨⟨inv, κ.refl _⟩, known a inv given⟩
  | error e m' =>
    rw [run] at ended
    show Inv m'.memory ∧ κ.Later m.memory m'.memory
    rw [show m'.memory = m.memory from ended]
    exact ⟨inv, κ.refl _⟩

include h

/-- So it does through a step on memory. -/
theorem acts {Q : α → Machine σ → Prop} (step : m.memory.Mirrors → Acts (κ.value m.memory) m Q (x m))
    (known : ∀ a m', Inv m'.memory → Q a m' → R m'.memory a) :
    Keeps (κ.comap memory) (Inv ·.memory) m (fun m => R m.memory) x := by
  intro inv
  have ended := step (h.mirrors inv)
  cases run : x m with
  | ok a m' =>
    rw [run] at ended
    obtain ⟨⟨mem, ops, effect, rfl⟩, given⟩ := ended
    have kept : Inv mem ∧ κ.Later m.memory mem := by
      rcases effect.change with rfl | change
      · exact ⟨inv, κ.refl _⟩
      · exact h.change inv change
    exact ⟨kept, known a _ kept.1 given⟩
  | error e m' =>
    rw [run] at ended
    obtain rfl : m' = m := ended
    exact ⟨inv, κ.refl _⟩

theorem does (step : m.memory.Mirrors → Acts (κ.value m.memory) m (fun _ _ => True) (x m)) :
    Keeps (κ.comap memory) (Inv ·.memory) m (fun _ _ => True) x :=
  h.acts (R := fun _ _ => True) step fun _ _ _ _ => trivial

theorem memoryRelated :
    Semantics.MemoryRelated (σ := σ) (.onLeft (Keeps (κ.comap memory) (Inv ·.memory)))
      (κ.comap memory) where
  find name line := h.acts (R := fun mem found => κ.cell mem found.1) (fun _ => .find name line)
    fun _ _ inv found => h.sees inv (sees_of_find? found)
  readVariable name line := h.acts (fun _ => .readVariable name line)
    fun _ _ inv ⟨_, _, there, held⟩ => h.held inv there held
  readElement name indices line := h.acts (fun _ => .readElement name line indices)
    fun _ _ inv ⟨_, _, _, _, there, array, held⟩ => h.item (h.held inv there array) held
  readThrough address line := h.acts (fun _ => .readThrough line address) fun _ _ inv ⟨_, held⟩ => h.slot inv held
  counterValue name line _ := h.does fun _ => .counterValue name line _
  addressOf name line := h.does fun inv => .addressOf name line inv
  allocateBlock count tag line := h.acts (fun _ => .allocateBlock line count tag)
    fun _ m' _ ⟨_, given⟩ => given ▸ (h.values m'.memory).address _
  freeBlock v line := h.does fun _ => .freeBlock line v
  declare name type line := h.does fun _ => .declare name line type
  declareConstant name _ line known := h.does fun _ => .declareConstant name line known
  assignVariable name _ line known := h.does fun inv => .assignVariable name line known inv fun _ _ _ _ => trivial
  assignElement name indices _ line known :=
    h.does fun _ => .assignElement name line known indices fun _ _ _ _ _ _ => trivial
  assignThrough address _ line known := h.does fun inv =>
    .assignThrough line known inv address (fun _ _ _ => trivial) fun _ _ _ _ _ _ => trivial
  counterCell name line := h.acts (R := κ.cell) (fun _ => .counterCell name line)
    fun _ _ inv visible => h.sees inv ⟨name, visible⟩

/-- Every step of a run keeps the property. -/
theorem kept (ctx : Context σ) : Kept ctx (κ.comap memory) (Inv ·.memory) where
  steps := by
    have leaves : HostSteps LeavesMemory ctx :=
      LeavesMemory.controlSteps.hostSteps (LeavesMemory.checkBudget ctx.config)
    refine leaves.steps Keeps.sequenced h.memoryRelated (fun {_ m _ _} step => ?_)
      (fun m => h.values m.memory) ctx.config.traceLimit ctx.below
    have ended := (step m).mono (fun _ same => same.memory) fun _ known => known
    exact unchanged (R := fun _ => _) ended fun _ _ known => known
  tick m line := by
    refine unchanged (Q := fun _ => True) (R := fun _ _ => True) ?_ fun _ _ _ => trivial
    show Ends _ _
      ((if ctx.config.maxIterations < m.iterations + 1 then fail _ line else Pure.pure () : Exec σ Unit)
      { m with iterations := m.iterations + 1 })
    split
    · rfl
    · exact ⟨rfl, trivial⟩
  call {m d bindings} kind line known inv := by
    rw [Knowledge.bindings_comap] at known
    obtain ⟨t, entered⟩ := enter_eq d kind bindings line m
    refine ⟨_, entered, h.enter known inv, fun m₂ later there => ?_⟩
    obtain ⟨t', left⟩ := leave_eq (h.mirrors there) line
    rw [left]
    obtain ⟨inv', later', values⟩ := h.leave known inv later there
    exact ⟨⟨inv', later'⟩, values⟩

end MemoryKept

end Pseudocode
