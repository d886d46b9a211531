import Mathlib.Order.Bounds.Defs
import Mathlib.Logic.ExistsUnique
import Pseudocode.Proofs.Arena.Layout

/-!
Arenas under calls from outside. Whatever is allocated, freed, read and written in whatever order,
the bitmap, the table of live blocks and the watermark stay three views of one allocation, and the
watermark is exact: it goes back when the highest block is freed and only then.
-/

namespace Pseudocode.Arena

inductive Call where
  | allocate (size : Nat) (tag : String)
  | free (address : Nat)
  | read (address : Nat)
  | write (address : Nat) (value : Value)

/-- The arena behind a call. A call that is refused leaves it as it was. -/
def call (a : Arena) : Call → Arena
  | .allocate size tag =>
    match a.allocate size tag with
    | .ok (_, after) => after
    | .error _ => a
  | .free address =>
    match a.free address with
    | .ok (_, after) => after
    | .error _ => a
  | .read _ => a
  | .write address value =>
    match a.write address value with
    | .ok (_, after) => after
    | .error _ => a

def after (a : Arena) (calls : List Call) : Arena := calls.foldl call a

/-- A call that was not refused and has changed the arena. -/
inductive Event where
  | took (block : Block)
  | gaveBack (address : Nat)
  | wrote (address : Nat) (value : Value)

/-- What a call adds to the history. -/
def event? (a : Arena) : Call → Option Event
  | .allocate size tag =>
    match a.allocate size tag with
    | .ok (start, _) => some (.took ⟨start, size, tag⟩)
    | .error _ => none
  | .free address =>
    match a.free address with
    | .ok _ => some (.gaveBack address)
    | .error _ => none
  | .read _ => none
  | .write address value =>
    match a.write address value with
    | .ok _ => some (.wrote address value)
    | .error _ => none

/-- The events of some calls, in order. -/
def history (a : Arena) : List Call → List Event
  | [] => []
  | c :: rest => (a.event? c).toList ++ (a.call c).history rest

/-- What a call can do, with what it has checked before, and what it adds to the history. -/
theorem call_event_cases (a : Arena) (c : Call) :
    (a.event? c = none ∧ a.call c = a) ∨
    (∃ size tag start, a.place size = .ok start ∧ a.event? c = some (.took ⟨start, size, tag⟩) ∧
      a.call c = a.occupy start size tag) ∨
    (∃ address block, a.freeable address = .ok block ∧ a.event? c = some (.gaveBack address) ∧
      a.call c = a.vacate block) ∨
    (∃ address value s, a.access address = .ok s ∧ a.event? c = some (.wrote address value) ∧
      a.call c = a.put address value) := by
  cases c with
  | allocate size tag =>
    cases placed : a.place size with
    | error fault => exact .inl (by simp [event?, call, allocate, placed, bind, Except.bind])
    | ok start =>
      refine .inr (.inl ⟨size, tag, start, placed, ?_⟩)
      simp [event?, call, allocate, placed, bind, Except.bind, pure, Except.pure]
  | free address =>
    cases found : a.freeable address with
    | error fault => exact .inl (by simp [event?, call, free, found, bind, Except.bind])
    | ok block =>
      refine .inr (.inr (.inl ⟨address, block, found, ?_⟩))
      simp [event?, call, free, found, bind, Except.bind, pure, Except.pure]
  | read address => exact .inl ⟨rfl, rfl⟩
  | write address value =>
    cases granted : a.access address with
    | error fault => exact .inl (by simp [event?, call, write, granted, bind, Except.bind])
    | ok s =>
      refine .inr (.inr (.inr ⟨address, value, s, granted, ?_⟩))
      simp [event?, call, write, granted, bind, Except.bind, pure, Except.pure]

theorem size_call (a : Arena) (c : Call) : (a.call c).size = a.size := by
  rcases a.call_event_cases c with ⟨-, same⟩ | ⟨size, tag, start, -, -, same⟩ | ⟨address, block, -, -, same⟩ |
      ⟨address, value, s, -, -, same⟩ <;>
    simp [same]

theorem size_after (a : Arena) (calls : List Call) : (a.after calls).size = a.size := by
  induction calls generalizing a with
  | nil => rfl
  | cons c rest ih => exact (ih (a.call c)).trans (a.size_call c)

theorem isAllocated_empty (size i : Nat) : (empty size).isAllocated i = false := by
  by_cases inside : i < size <;> simp [isAllocated, empty, inside]

theorem slot_empty (size i : Nat) : (empty size).slot i = .unallocated := slot_of_free (isAllocated_empty size i)

theorem Layout.empty (size : Nat) : (Arena.empty size).Layout := by
  refine ⟨?_, ?_, ?_, .nil, ?_, rfl, ?_, fun i _ => ?_⟩
  · intro b member
    cases member
  · intro b member
    cases member
  · intro b member
    cases member
  · intro i
    rw [isAllocated_empty]
    simp [Arena.empty]
  · simp [Arena.used, Arena.empty, Array.count_replicate]
  · by_cases inside : i < size <;> simp [peek?, Arena.empty, inside]

theorem Layout.call {a : Arena} (layout : a.Layout) (c : Call) : (a.call c).Layout := by
  rcases a.call_event_cases c with ⟨-, same⟩ | ⟨size, tag, start, placed, -, same⟩ | ⟨address, block, found, -, same⟩ |
      ⟨address, value, s, granted, -, same⟩
  · rw [same]
    exact layout
  · rw [same]
    exact layout.occupy placed tag
  · rw [same]
    exact layout.vacate (freeable_ok found).1
  · rw [same]
    exact layout.put (access_ok granted).2.2.2 value

theorem Layout.after {a : Arena} (layout : a.Layout) (calls : List Call) : (a.after calls).Layout := by
  induction calls generalizing a with
  | nil => exact layout
  | cons c rest ih => exact ih (layout.call c)

/-- The bitmap, the table of live blocks, the count of used slots and the watermark of an arena of
`size` slots, each told by the others. -/
structure Represents (size : Nat) (a : Arena) : Prop where
  size_eq : a.size = size
  /-- A flagged slot lies in exactly one live block. -/
  covered : ∀ i, a.isAllocated i = true → ∃! b, b ∈ a.blocks ∧ b.contains i = true
  /-- Every slot of a live block is flagged. -/
  flagged : ∀ b ∈ a.blocks, ∀ i, b.contains i = true → a.isAllocated i = true
  disjoint : a.blocks.Pairwise Block.Apart
  nonempty : ∀ b ∈ a.blocks, 0 < b.size
  /-- The table finds a live block under its own start. -/
  keyed : ∀ b ∈ a.blocks, a.freeable b.start = .ok b
  bounded : ∀ b ∈ a.blocks, reservedAddresses ≤ b.start ∧ b.stop ≤ size
  vacant : ∀ i, a.isAllocated i = false → a.peek? i = none
  used : a.used = a.allocated.count true
  /-- The watermark is the largest end of a live block, or the first address that is not reserved. -/
  watermark : IsGreatest (insert reservedAddresses {stop | ∃ b ∈ a.blocks, b.stop = stop}) a.watermark

theorem Layout.represents {a : Arena} (layout : a.Layout) : Represents a.size a where
  size_eq := rfl
  covered i flag := by
    obtain ⟨b, member, inside⟩ := (layout.taken i).mp flag
    refine ⟨b, ⟨member, inside⟩, ?_⟩
    rintro c ⟨other, inside'⟩
    exact layout.eq_of_contains other member inside' inside
  flagged b member i inside := (layout.taken i).mpr ⟨b, member, inside⟩
  disjoint := layout.apart
  nonempty := layout.nonempty
  keyed _ member := layout.freeable_start member
  bounded b member := ⟨layout.low b member, layout.high b member⟩
  vacant := layout.vacant
  used := layout.used
  watermark := by
    rw [layout.watermark]
    constructor
    · rcases top_attained a.blocks with none | some
      · exact .inl none
      · exact .inr some
    · rintro stop (rfl | ⟨b, member, rfl⟩)
      · exact reserved_le_top a.blocks
      · exact stop_le_top member

/-- The representation holds behind every sequence of calls on a new arena of any size. -/
theorem represents_after_calls (size : Nat) (calls : List Call) :
    Represents size ((empty size).after calls) := by
  have represents := ((Layout.empty size).after calls).represents
  have fixed : ((empty size).after calls).size = size := by
    rw [size_after, Arena.size, empty, Array.size_replicate]
  rwa [fixed] at represents

end Pseudocode.Arena
