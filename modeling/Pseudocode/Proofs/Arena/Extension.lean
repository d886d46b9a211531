import Pseudocode.Proofs.Arena.Representation

/-!
Arenas that differ in their size alone. Where the smaller one has room for what is asked of it, the larger
one does the same, at the same addresses (`Extends.place`, `Extends.access`, `Extends.freeable`), and both
stay alike (`Extends.occupy`, `Extends.vacate`, `Extends.put`).
-/

namespace Pseudocode.Arena

/-- `b` holds what `a` holds, and has at least as many slots. -/
structure Extends (a b : Arena) : Prop where
  layout : a.Layout
  room : a.size ≤ b.size
  slot : ∀ i, b.slot i = a.slot i
  blocks : b.blocks = a.blocks
  watermark : b.watermark = a.watermark
  marks : a.freed.size = a.size
  marks' : b.freed.size = b.size
  freed : ∀ i, b.freed.getD i false = a.freed.getD i false

theorem obstacle?_congr {flags flags' : Array Bool} (same : ∀ i, flags'.getD i false = flags.getD i false)
    (start count : Nat) : obstacle? flags' start count = obstacle? flags start count := by
  induction count generalizing start with
  | zero => rfl
  | succ count ih => rw [obstacle?, obstacle?, same, ih]

/-- A place that is found where there are fewer slots is also the first where there are more. -/
theorem firstFit?_of_le {flags flags' : Array Bool} (room : flags.size ≤ flags'.size)
    (same : ∀ i, flags'.getD i false = flags.getD i false) {count start found : Nat}
    (fit : firstFit? flags count start = some found) : firstFit? flags' count start = some found := by
  fun_induction firstFit? flags count start with
  | case1 start inside clear =>
    rw [← obstacle?_congr same] at clear
    rw [firstFit?, if_pos (by omega)]
    split
    · exact fit
    · rename_i blocked
      rw [clear] at blocked
      cases blocked
  | case2 start inside blocker blocked below ih =>
    rw [← obstacle?_congr same] at blocked
    rw [firstFit?, if_pos (by omega)]
    split
    · rename_i clear
      rw [blocked] at clear
      cases clear
    · rename_i other also
      rw [blocked] at also
      cases also
      rw [if_pos (by omega)]
      exact ih fit
  | case3 => cases fit
  | case4 => cases fit

namespace Extends

variable {a b : Arena}

theorem empty {size size' : Nat} (le : size ≤ size') : (Arena.empty size).Extends (Arena.empty size') where
  layout := .empty size
  room := by simpa [Arena.size, Arena.empty] using le
  slot i := by
    rw [slot_empty, slot_empty]
  blocks := rfl
  watermark := rfl
  marks := by simp [Arena.size, Arena.empty]
  marks' := by simp [Arena.size, Arena.empty]
  freed i := by
    simp only [Arena.empty, Array.getD_eq_getD_getElem?, Array.getElem?_replicate]
    split <;> split <;> rfl

variable (h : a.Extends b)

include h

theorem isAllocated (i : Nat) : b.isAllocated i = a.isAllocated i := by
  rw [← isAllocated_slot, h.slot, isAllocated_slot]

/-- A block goes to the same place, unless the smaller arena has none. -/
theorem place (size : Nat) : a.place size = .error (.outOfMemory size) ∨ b.place size = a.place size := by
  unfold Arena.place
  split
  · exact .inr rfl
  · cases fit : firstFit? a.allocated size a.watermark with
    | none => exact .inl rfl
    | some start =>
      right
      have room : a.allocated.size ≤ b.allocated.size := by
        rw [a.sized, b.sized]
        exact h.room
      rw [h.watermark, firstFit?_of_le room h.isAllocated fit]

/-- An address may be used in the same way, unless it is too large for the smaller arena. -/
theorem access (address : Nat) :
    a.access address = .error (.outOfBounds address a.size) ∨ b.access address = a.access address := by
  unfold Arena.access
  split
  · exact .inr rfl
  · split
    · exact .inl rfl
    · rename_i inside
      right
      have := h.room
      rw [if_neg (by omega), h.slot]

theorem read (address : Nat) :
    a.read address = .error (.outOfBounds address a.size) ∨ b.read address = a.read address := by
  unfold Arena.read
  rcases h.access address with outside | same
  · rw [outside]
    exact .inl rfl
  · rw [same]
    exact .inr rfl

theorem freeable (address : Nat) : b.freeable address = a.freeable address := by
  unfold Arena.freeable
  rw [h.blocks, h.freed]

theorem occupy {size start : Nat} (placed : a.place size = .ok start) (tag : String) :
    (a.occupy start size tag).Extends (b.occupy start size tag) := by
  obtain ⟨positive, -, inside, -⟩ := place_ok placed
  have room := h.room
  constructor
  · exact h.layout.occupy placed tag
  · simpa using room
  · intro i
    rw [slot_occupy, slot_occupy, h.slot]
    by_cases within : start ≤ i ∧ i < start + size
    · rw [if_pos (by omega), if_pos (by omega)]
    · rw [if_neg (by omega), if_neg (by omega)]
  · show _ :: b.blocks = _ :: a.blocks
    rw [h.blocks]
  · show max b.watermark _ = max a.watermark _
    rw [h.watermark]
  · rw [size_occupy]
    exact Array.size_setIfInBounds.trans h.marks
  · rw [size_occupy]
    exact Array.size_setIfInBounds.trans h.marks'
  · intro i
    have marks := h.marks
    have marks' := h.marks'
    simp only [Arena.occupy, getD_setIfInBounds, h.freed]
    by_cases here : i = start
    · rw [if_pos (by omega), if_pos (by omega)]
    · rw [if_neg (by omega), if_neg (by omega)]

theorem vacate {block : Block} (member : block ∈ a.blocks) : (a.vacate block).Extends (b.vacate block) := by
  have high := h.layout.high block member
  have nonempty := h.layout.nonempty block member
  have room := h.room
  unfold Block.stop at high
  constructor
  · exact h.layout.vacate member
  · simpa using room
  · intro i
    rw [slot_vacate, slot_vacate, h.slot]
  · show b.blocks.eraseP _ = a.blocks.eraseP _
    rw [h.blocks]
  · simp only [Arena.vacate, h.blocks, h.watermark]
  · rw [size_vacate]
    exact Array.size_setIfInBounds.trans h.marks
  · rw [size_vacate]
    exact Array.size_setIfInBounds.trans h.marks'
  · intro i
    have marks := h.marks
    have marks' := h.marks'
    simp only [Arena.vacate, getD_setIfInBounds, h.freed]
    by_cases here : i = block.start
    · rw [if_pos (by omega), if_pos (by omega)]
    · rw [if_neg (by omega), if_neg (by omega)]

theorem put {address : Nat} {s : Slot} (granted : a.access address = .ok s) (v : Value) :
    (a.put address v).Extends (b.put address v) := by
  constructor
  · exact h.layout.put (access_ok granted).2.2.2 v
  · simpa using h.room
  · intro i
    rw [slot_put, slot_put, h.slot, h.isAllocated]
  · exact h.blocks
  · exact h.watermark
  · rw [size_put]
    exact h.marks
  · rw [size_put]
    exact h.marks'
  · exact h.freed

end Extends

end Pseudocode.Arena
