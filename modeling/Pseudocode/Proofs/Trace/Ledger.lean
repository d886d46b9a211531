import Mathlib.Data.Finset.Basic
import Pseudocode.Proofs.Lifetime.Runs
import Pseudocode.Proofs.Memory.Runs
import Pseudocode.Proofs.Trace.Recording

/-!
The trace as a ledger of the arena. Whoever reads the trace from its beginning, and keeps the addresses that
were allocated and are not free yet, is never told of a block twice, nor that one goes which is not there,
and ends with the blocks that are live (`ledger_of_reachable`). The arena changes before the trace does, but
no error comes between the two.
-/

namespace Pseudocode

open Exec Machine

variable {σ : Type} {α : Type}

namespace Trace

/-- The addresses of the blocks that are live behind an operation. An address is not allocated while it is
live, only a live one is freed, and both are named. -/
def settle (live : Finset Nat) (operation : Operation) (address : Option Nat) : Option (Finset Nat) :=
  match operation, address with
  | .allocate, some a => if a ∈ live then none else some (insert a live)
  | .free, some a => if a ∈ live then some (live.erase a) else none
  | .allocate, none | .free, none => none
  | _, _ => some live

/-- The addresses of the blocks that are live behind some entries, if these can be followed. -/
def replay (entries : List TraceEntry) : Option (Finset Nat) :=
  entries.foldlM (fun live e => settle live e.operation e.details.address) ∅

theorem settle_of_still {operation : Operation} (still : operation.movesBlocks = false) (live : Finset Nat)
    (address : Option Nat) : settle live operation address = some live := by
  cases operation <;> first | rfl | cases still

theorem settle_allocate {live : Finset Nat} {a : Nat} (new : a ∉ live) :
    settle live .allocate (some a) = some (insert a live) := by
  simp [settle, new]

theorem settle_free {live : Finset Nat} {a : Nat} (there : a ∈ live) :
    settle live .free (some a) = some (live.erase a) := by
  simp [settle, there]

theorem numbered_append (ops : List Noted) (n : Noted) :
    numbered (ops ++ [n]) = numbered ops ++ [n.entry (ops.length + 1)] := by
  simp [numbered]

/-- What was recorded, whether or not the trace had room for it, tells that these blocks are live. -/
def Accounts (t : Trace) (limit : Nat) (live : Finset Nat) : Prop :=
  ∃ ops, t = (empty limit).recordAll ops ∧ replay (numbered ops) = some live

theorem Accounts.empty (limit : Nat) : (empty limit).Accounts limit ∅ := ⟨[], rfl, rfl⟩

theorem Accounts.record {t : Trace} {limit : Nat} {live live' : Finset Nat} (h : t.Accounts limit live)
    {operation : Operation} {details : Details} (settled : settle live operation details.address = some live')
    (line : Nat) : (t.record operation line details).Accounts limit live' := by
  obtain ⟨ops, rfl, told⟩ := h
  refine ⟨ops ++ [⟨operation, line, details⟩], ?_, ?_⟩
  · rw [recordAll_append]
    rfl
  · rw [numbered_append, replay, List.foldlM_append]
    rw [replay] at told
    simp [told, Noted.entry, settled]

/-- The entries that were kept can be followed, and tell all unless there was no room for some. -/
theorem Accounts.entries {t : Trace} {limit : Nat} {live : Finset Nat} (h : t.Accounts limit live) :
    (∀ (i : Nat) e, t.entries[i]? = some e → e.step = i + 1) ∧
      ∃ told, replay t.entries.toList = some told ∧ (t.truncated = false → told = live) := by
  obtain ⟨ops, rfl, whole⟩ := h
  rw [recordAll_empty]
  refine ⟨fun i e there => step_of_getElem?_numbered (by simpa using there), ?_⟩
  by_cases room : ops.length ≤ limit
  · exact ⟨live, by rw [List.take_of_length_le room]; exact whole, fun _ => rfl⟩
  · -- What can be followed to its end can be followed up to any point.
    rw [← List.take_append_drop limit (numbered ops), take_numbered, replay, List.foldlM_append] at whole
    obtain ⟨told, kept, -⟩ := Option.bind_eq_some_iff.1 whole
    exact ⟨told, kept, fun all => by simp [room] at all⟩

end Trace

namespace Arena

/-- The addresses at which live blocks start. -/
def starts (a : Arena) : Finset Nat := (a.blocks.map (·.start)).toFinset

theorem mem_starts {a : Arena} {address : Nat} : address ∈ a.starts ↔ ∃ b ∈ a.blocks, b.start = address := by
  simp [starts]

theorem starts_occupy (a : Arena) (start size : Nat) (tag : String) :
    (a.occupy start size tag).starts = insert start a.starts := by
  simp [starts, occupy]

namespace Layout

variable {a : Arena} (layout : a.Layout)

include layout

/-- A new block starts where none did. -/
theorem not_mem_starts {size start : Nat} (placed : a.place size = .ok start) : start ∉ a.starts := by
  intro there
  obtain ⟨b, member, rfl⟩ := mem_starts.1 there
  obtain ⟨positive, -, -, free⟩ := place_ok placed
  have taken := (layout.taken b.start).2 ⟨b, member, Block.contains_start (layout.nonempty b member)⟩
  rw [free b.start (Nat.le_refl _) (by omega)] at taken
  cases taken

theorem starts_vacate {b : Block} (member : b ∈ a.blocks) : (a.vacate b).starts = a.starts.erase b.start := by
  ext address
  simp only [mem_starts, Finset.mem_erase, layout.mem_vacate member]
  constructor
  · rintro ⟨c, ⟨old, other⟩, rfl⟩
    exact ⟨other, c, old, rfl⟩
  · rintro ⟨other, c, old, rfl⟩
    exact ⟨c, ⟨old, other⟩, rfl⟩

end Layout

end Arena

/-- The trace tells which blocks are live. -/
structure Machine.Accounted (limit : Nat) (m : Machine σ) : Prop where
  layout : m.arena.Layout
  told : m.trace.Accounts limit m.arena.starts

namespace Machine.Accounted

variable {limit : Nat}

theorem of_same {m m' : Machine σ} (arena : m'.arena = m.arena) (trace : m'.trace = m.trace)
    (h : m.Accounted limit) : m'.Accounted limit := by
  constructor
  · rw [arena]
    exact h.layout
  · rw [arena, trace]
    exact h.told

theorem put {m : Machine σ} (h : m.Accounted limit) {address : Nat} (taken : m.arena.isAllocated address = true)
    (value : Value) : Accounted limit { m with arena := m.arena.put address value } :=
  ⟨h.layout.put taken value, h.told⟩

/-- The arena and the trace change together when a block is taken. -/
theorem took {m m' : Machine σ} (h : m.Accounted limit) {size start : Nat}
    (placed : m.arena.place size = .ok start) {tag : String} {line : Nat} {details : Details}
    (named : details.address = some start) (layout : m'.arena.Layout)
    (starts : m'.arena.starts = (m.arena.occupy start size tag).starts)
    (trace : m'.trace = m.trace.record .allocate line details) : m'.Accounted limit := by
  refine ⟨layout, ?_⟩
  rw [trace, starts, Arena.starts_occupy]
  exact h.told.record (by rw [named]; exact Trace.settle_allocate (h.layout.not_mem_starts placed)) line

/-- They do when a block is given back. -/
theorem gaveBack {m m' : Machine σ} (h : m.Accounted limit) {block : Block} (member : block ∈ m.arena.blocks)
    {line : Nat} {details : Details} (named : details.address = some block.start)
    (arena : m'.arena = m.arena.vacate block) (trace : m'.trace = m.trace.record .free line details) :
    m'.Accounted limit := by
  have live : block.start ∈ m.arena.starts := Arena.mem_starts.2 ⟨block, member, rfl⟩
  constructor
  · rw [arena]
    exact h.layout.vacate member
  · rw [arena, trace, h.layout.starts_vacate member]
    exact h.told.record (by rw [named]; exact Trace.settle_free live) line

/-- The trace tells so after a step, if it did before. -/
abbrev Accounting (σ : Type) (limit : Nat) : Property σ := fun _ => Preserves (Accounted limit)

theorem note {operation : Operation} (still : operation.movesBlocks = false) (line : Nat) (details : Details) :
    (Accounting σ limit).of (record operation line details) :=
  .modify fun _ inv => ⟨inv.layout, inv.told.record (Trace.settle_of_still still _ _) line⟩

theorem storeSteps : StoreSteps (Accounting σ limit) where
  pure := .pure
  throw _ _ := .throw _
  bind := .bind
  look _ next := .get fun m inv => next m m inv
  setVariables blind _ _ := by
    refine .modify fun m inv => ?_
    have same := besides_self blind m
    exact inv.of_same (congrArg (·.arena) same).symm (congrArg (·.trace) same).symm
  note := note
  writeArena address value _ _ := by
    intro m inv
    rw [writeArena_eq]
    cases granted : m.arena.access address with
    | error fault => exact inv
    | ok s =>
      obtain ⟨-, -, rfl, taken⟩ := Arena.access_ok granted
      exact ⟨inv.put taken value, trivial⟩
  readThrough address line _ := by
    refine .get fun m inv => ?_
    cases m.arena.read address with
    | error fault => exact inv
    | ok value =>
      have noted : (Accounting σ limit).of (do
          record .dereference line { address := some address }
          record .read line { address := some address, value := some value.display }
          pure value) :=
        (note rfl line _).bind fun _ _ => (note rfl line _).bind fun _ _ => .pure trivial
      exact noted m inv

theorem bindAddress (name : String) (cell : CellId) (v : Variable) (line : Nat) :
    (Accounting σ limit).of (bindAddress name cell v line) := by
  intro m inv
  unfold Exec.bindAddress
  split
  · exact inv
  · refine .allocate_bind inv fun start placed => ?_
    have layout := inv.layout.occupy placed v.type.render
    cases v.value with
    | none => exact ⟨inv.took placed rfl layout rfl rfl, trivial⟩
    | some x =>
      -- A new block can be written to.
      have granted := inv.layout.access_occupy placed v.type.render
      have written := writeArena_eq start x line { m with arena := m.arena.occupy start v.type.size v.type.render }
      rw [show Arena.access _ start = _ from granted] at written
      show Ends _ _ ((discard (writeArena start x line) >>= _) _)
      rw [discard_bind, bind_of_ok written]
      have kept := layout.put (Arena.access_ok granted).2.2.2 x
      exact ⟨inv.took placed rfl kept rfl rfl, trivial⟩

theorem addressOf (name : String) (line : Nat) : (Accounting σ limit).of (addressOf name line) := by
  have gives (address : Nat) : (Accounting σ limit).of (do
      Exec.record .addressOf line { subject := some name, address := some address }
      pure address) :=
    (storeSteps.note rfl line _).bind fun _ _ => .pure trivial
  refine (storeSteps.find name trivial).bind fun ⟨cell, v⟩ _ => ?_
  dsimp only
  split
  · exact gives _
  · exact (bindAddress name cell v line).bind fun address _ => gives address

theorem allocateBlock (size : Float) (tag : Option DataType) (line : Nat) :
    (Accounting σ limit).of (allocateBlock size tag line) := by
  simp only [Exec.allocateBlock]
  split
  · exact .throw _
  · refine .get fun m inv => ?_
    split
    · exact inv
    · refine .allocate_bind inv fun start placed => ?_
      exact ⟨inv.took placed rfl (inv.layout.occupy placed _) rfl rfl, trivial⟩

theorem freeBlock (v : Value) (line : Nat) : (Accounting σ limit).of (freeBlock v line) := by
  cases v with
  | address a =>
    refine .get fun m inv => ?_
    split
    · exact inv
    · refine .release_bind inv fun block found => ?_
      obtain ⟨member, rfl⟩ := Arena.freeable_ok found
      exact ⟨inv.gaveBack member rfl rfl rfl, trivial⟩
  | _ => exact .throw _

theorem endVariable (id : ScopeId) (name : String) (cell : CellId) (line : Nat) :
    (Accounting σ limit).of (endVariable id name cell line) := by
  have frees (a : Nat) : (Accounting σ limit).of (do
      discard (release a line)
      record .free line { subject := some name, address := some a, note := some "end of scope" }) := by
    intro m inv
    rw [discard_bind]
    refine .release_bind inv fun block found => ?_
    obtain ⟨member, rfl⟩ := Arena.freeable_ok found
    exact ⟨inv.gaveBack member rfl rfl rfl, trivial⟩
  refine storeSteps.look (fun _ _ _ _ _ => rfl) fun m => ?_
  split
  · exact .pure trivial
  · split
    · refine storeSteps.bind (storeSteps.modifyScopes fun _ => rfl) fun _ _ => ?_
      split
      · exact storeSteps.bind (.modify fun m inv => ⟨inv.layout, inv.told⟩) fun _ _ => frees _
      · exact .pure trivial
    · exact .pure trivial

theorem memorySteps : MemorySteps (Accounting σ limit) where
  toStoreSteps := storeSteps
  addressOf name line _ := addressOf name line
  allocateBlock size tag line _ := allocateBlock size tag line
  freeBlock v line _ := freeBlock v line
  endVariable id name cell line _ := endVariable id name cell line

theorem controlSteps : ControlSteps (Accounting σ limit) :=
  Preserves.controlSteps fun _ _ memory trace inv => inv.of_same (congrArg Memory.arena memory) trace

/-- The trace tells which blocks are live throughout a run. -/
theorem kept (ctx : Context σ) : Kept ctx .nothing (Accounted limit) := by
  refine .ofPreserves ?_ (controlSteps.hostSteps (.checkBudget ctx.config))
  exact {
    memorySteps := memorySteps
    quietSteps := controlSteps.quietSteps
    throw := .throw
    setCalls := fun _ => .modify fun m inv => ⟨inv.layout, inv.told⟩
    setScopes := fun _ => .modify fun m inv => ⟨inv.layout, inv.told⟩
    countPass := .modify fun m inv => ⟨inv.layout, inv.told⟩ }

theorem initial (config : Config) (draws : Draws) (state : σ) :
    (Machine.initial config draws state).Accounted config.traceLimit :=
  ⟨.empty config.arenaSize, .empty config.traceLimit⟩

end Machine.Accounted

/-- In every state that a run can reach, the entries of the trace are numbered in their order, and can be
followed from the first: no block is allocated at an address where one is live, and none is freed but a live
one. If there was room for all operations, the blocks that the trace tells of are the live ones, whatever
they were taken for and however they went. -/
theorem ledger_of_reachable {p : Program} {host : Host σ} {config : Config} {draws : Draws} {state : σ}
    {m : Machine σ} (reached : Reachable p host config draws state m) :
    (∀ (i : Nat) e, m.trace.entries[i]? = some e → e.step = i + 1) ∧
    ∃ live, Trace.replay m.trace.entries.toList = some live ∧
      (m.trace.truncated = false → ∀ address, address ∈ live ↔ ∃ b ∈ m.arena.blocks, b.start = address) := by
  have inv : m.Accounted config.traceLimit :=
    (Machine.Accounted.kept _).reachable (Machine.Accounted.initial config draws state) reached
  obtain ⟨numbered, live, followed, all⟩ := inv.told.entries
  refine ⟨numbered, live, followed, fun whole address => ?_⟩
  rw [all whole]
  exact Arena.mem_starts

/-- Two blocks are allocated, and the parameter's goes when the call is left. -/
theorem addressTaker_ledger :
    ∃ m : Machine Script, Reachable addressTaker Script.host { arenaSize := 1030 } 0 {} m ∧
      m.trace.truncated = false ∧
      (m.trace.entries.toList.filter (·.operation.movesBlocks)).map (fun e => (e.operation, e.details.address)) =
        [(.allocate, some 1024), (.allocate, some 1025), (.free, some 1025)] ∧
      ∀ address, (∃ b ∈ m.arena.blocks, b.start = address) ↔ address = 1024 := by
  let m := final (addressTaker.exec Script.host { arenaSize := 1030 } (.initial { arenaSize := 1030 } 0 {}))
  have reached : Reachable addressTaker Script.host { arenaSize := 1030 } 0 {} m := reachable_final _ _ _ _ _
  have shown :
      (m.trace.truncated,
        (m.trace.entries.toList.filter (·.operation.movesBlocks)).map fun e => (e.operation, e.details.address),
        Trace.replay m.trace.entries.toList) =
      (false, [(.allocate, some 1024), (.allocate, some 1025), (.free, some 1025)], some {1024}) := by
    decide +kernel
  obtain ⟨whole, moves, told⟩ : _ ∧ _ ∧ _ := by simpa only [Prod.mk.injEq] using shown
  obtain ⟨-, live, followed, all⟩ := ledger_of_reachable reached
  obtain rfl : live = {1024} := Option.some.inj (followed.symm.trans told)
  exact ⟨m, reached, whole, moves, fun address => (all whole address).symm.trans Finset.mem_singleton⟩

end Pseudocode
