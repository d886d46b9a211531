import Pseudocode.Proofs.Arena.Representation

/-!
Where new blocks go. The scan for a place starts at the watermark, and no slot from there on is taken,
whatever was allocated and freed before in whatever order. So it never has to skip a slot: a new block
starts at the watermark, or there is none (`allocate_bumps_watermark`).
-/

namespace Pseudocode.Arena

/-- Nothing stands in the way where all slots are free. -/
theorem obstacle?_eq_none {flags : Array Bool} {start count : Nat}
    (free : ∀ i, start ≤ i → i < start + count → flags.getD i false = false) :
    obstacle? flags start count = none := by
  induction count generalizing start with
  | zero => rfl
  | succ count ih =>
    have first := free start (by omega) (by omega)
    have rest : obstacle? flags (start + 1) count = none := by
      apply ih
      intro i low high
      exact free i (by omega) (by omega)
    rw [obstacle?, first, rest]
    rfl

namespace Layout

variable {a : Arena} (layout : a.Layout)
include layout

theorem reserved_le_watermark : 1024 ≤ a.watermark := by
  rw [layout.watermark]
  exact reserved_le_top a.blocks

theorem stop_le_watermark {b : Block} (member : b ∈ a.blocks) : b.stop ≤ a.watermark := by
  rw [layout.watermark]
  exact stop_le_top member

/-- No slot from the watermark on is taken. -/
theorem free_above_watermark {i : Nat} (above : a.watermark ≤ i) : a.isAllocated i = false := by
  cases taken : a.isAllocated i with
  | false => rfl
  | true =>
    obtain ⟨b, member, inside⟩ := (layout.taken i).mp taken
    have reach := layout.stop_le_watermark member
    have within := Block.contains_iff.mp inside
    omega

theorem obstacle?_watermark (count : Nat) : obstacle? a.allocated a.watermark count = none := by
  apply obstacle?_eq_none
  intro i low high
  exact layout.free_above_watermark low

/-- The scan ends where it starts. -/
theorem firstFit?_watermark (count : Nat) :
    firstFit? a.allocated count a.watermark =
      if a.watermark + count ≤ a.size then some a.watermark else none := by
  rw [firstFit?, Arena.size, ← a.sized]
  by_cases room : a.watermark + count ≤ a.allocated.size
  · rw [if_pos room, if_pos room]
    split
    · rfl
    · rename_i blocked
      rw [layout.obstacle?_watermark] at blocked
      cases blocked
  · rw [if_neg room, if_neg room]

theorem allocate_eq (count : Nat) (tag : String) :
    a.allocate count tag =
      if count = 0 then .error (.invalidSize 0)
      else if a.watermark + count ≤ a.size then .ok (a.watermark, a.occupy a.watermark count tag)
      else .error (.outOfMemory count) := by
  unfold allocate place
  rw [layout.firstFit?_watermark]
  by_cases empty : count = 0
  · simp [empty, bind, Except.bind]
  · by_cases room : a.watermark + count ≤ a.size
    · simp [empty, room, bind, Except.bind, pure, Except.pure]
    · simp [empty, room, bind, Except.bind]

end Layout

/-- The watermark stays in the arena, if that has any slots to hand out. -/
theorem Layout.watermark_le {a : Arena} (layout : a.Layout) : a.watermark ≤ max 1024 a.size := by
  rw [layout.watermark]
  rcases top_attained a.blocks with none | ⟨b, member, attained⟩
  · have reserved : reservedAddresses = 1024 := rfl
    omega
  · have high := layout.high b member
    omega

/-- A sum of words that is one as a number is the sum as words. -/
theorem toNat_add_of_le {x y : UInt64} (small : x.toNat + y.toNat ≤ wordMax) :
    (x + y).toNat = x.toNat + y.toNat := by
  have largest : wordMax = 18446744073709551615 := by decide
  rw [UInt64.toNat_add]
  omega

/-- A sum of words that is too large for one wraps around. -/
theorem wordMax_lt_of_add_lt {x y : UInt64} (wrapped : x + y < x) : wordMax < x.toNat + y.toNat := by
  rw [UInt64.lt_iff_toNat_lt] at wrapped
  rcases Nat.lt_or_ge wordMax (x.toNat + y.toNat) with large | small
  · exact large
  · rw [toNat_add_of_le small] at wrapped
    omega

/-- The words that an allocation of `count` slots calculates with: the watermark, the addresses of the new
block, and its end. -/
structure Words (a : Arena) (count : Nat) (tag : String) (mark length : UInt64) : Prop where
  mark_eq : mark.toNat = a.watermark
  length_eq : length.toNat = count
  /-- No address up to the end of a block that has a place wraps around. -/
  addresses : a.watermark + count ≤ a.size → ∀ k ≤ length, (mark + k).toNat = a.watermark + k.toNat
  /-- A block whose end would wrap around has no place. -/
  refused : mark + length < mark → a.allocate count tag = .error (.outOfMemory count)

theorem Layout.words {a : Arena} (layout : a.Layout) (arena : a.size ≤ wordMax) {count : Nat}
    (request : count ≤ wordMax) (tag : String) :
    a.Words count tag (UInt64.ofNat a.watermark) (UInt64.ofNat count) := by
  have largest : wordMax = 18446744073709551615 := by decide
  have below := layout.watermark_le
  have mark : (UInt64.ofNat a.watermark).toNat = a.watermark := by
    rw [UInt64.toNat_ofNat']
    omega
  have length : (UInt64.ofNat count).toNat = count := by
    rw [UInt64.toNat_ofNat']
    omega
  refine ⟨mark, length, fun room k upTo => ?_, fun wrapped => ?_⟩
  · rw [UInt64.le_iff_toNat_le, length] at upTo
    rw [toNat_add_of_le (by omega), mark]
  · have large := wordMax_lt_of_add_lt wrapped
    rw [mark, length] at large
    rw [layout.allocate_eq, if_neg (by omega), if_neg (by omega)]

/-- Behind every sequence of calls on a new arena, a block of no slots is refused, and any other starts at
the watermark, which moves to the end of the block, exactly if the block ends in the arena. The scan for
a place meets no taken slot, as no live block reaches beyond the watermark; so holes below it are not
used, and neither are the reserved addresses. Addresses do not overflow in an arena that can be
addressed, however large the request. -/
theorem allocate_bumps_watermark (size : Nat) (calls : List Call) (count : Nat) (tag : String) :
    let a := (empty size).after calls
    (a.allocate count tag =
      if count = 0 then .error (.invalidSize 0)
      else if a.watermark + count ≤ size then .ok (a.watermark, a.occupy a.watermark count tag)
      else .error (.outOfMemory count)) ∧
    (a.occupy a.watermark count tag).watermark = a.watermark + count ∧
    obstacle? a.allocated a.watermark count = none ∧
    (∀ b ∈ a.blocks, b.stop ≤ a.watermark) ∧ 1024 ≤ a.watermark ∧
    (size ≤ wordMax → count ≤ wordMax →
      a.Words count tag (UInt64.ofNat a.watermark) (UInt64.ofNat count)) := by
  intro a
  have layout : a.Layout := (Layout.empty size).after calls
  have fixed : a.size = size := by
    rw [size_after, Arena.size, empty, Array.size_replicate]
  refine ⟨?_, ?_, ?_, ?_, ?_, ?_⟩
  · rw [layout.allocate_eq, fixed]
  · show max a.watermark (a.watermark + count) = a.watermark + count
    omega
  · exact layout.obstacle?_watermark count
  · intro b member
    exact layout.stop_le_watermark member
  · exact layout.reserved_le_watermark
  · intro arena request
    exact layout.words (by omega) request tag

/-- A hole is not used again. -/
example :
    (((empty 1027).after [.allocate 1 "A", .allocate 1 "B", .free 1024]).allocate 1 "C").toOption.map (·.1) =
      some 1026 := by
  decide +kernel

end Pseudocode.Arena
