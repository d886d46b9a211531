import Pseudocode.Value

/-!
The simulated memory: a row of slots, some of which belong to live blocks. The first addresses are
reserved, and address zero is no slot at all. New blocks are placed from the watermark on. Freeing
the highest block takes the watermark back to the end of the highest one left; any other free leaves
a hole that is not used again.
-/

namespace Pseudocode

/-- Addresses below this one are never handed out. -/
def reservedAddresses : Nat := 1024

inductive MemoryFault where
  | outOfBounds (address : Nat) (size : Nat)
  | notAllocated (address : Nat)
  | uninitialized (address : Nat)
  | invalidFree (address : Nat)
  | doubleFree (address : Nat)
  | outOfMemory (requested : Nat)
  | nullDereference
  | invalidSize (size : Int)
deriving DecidableEq, Repr

def MemoryFault.message : MemoryFault → String
  | .outOfBounds a size => s!"address {addressText a} is out of bounds (arena size {size})"
  | .notAllocated a => s!"address {addressText a} is not allocated"
  | .uninitialized a => s!"read of uninitialized memory at {addressText a}"
  | .invalidFree a => s!"invalid free: {addressText a} is not the start of an allocated block"
  | .doubleFree a => s!"double free of {addressText a}"
  | .outOfMemory requested => s!"out of memory: no run of {requested} free slots available"
  | .nullDereference => "null pointer dereference"
  | .invalidSize size => s!"invalid allocation size {size}"

/-- A run of slots that was allocated and not freed. -/
structure Block where
  start : Nat
  size : Nat
  tag : String
deriving DecidableEq, Repr

namespace Block

/-- The first address behind the block. -/
def stop (b : Block) : Nat := b.start + b.size

def contains (b : Block) (a : Nat) : Bool := b.start ≤ a && a < b.stop

end Block

/-- What an address shows of an arena. -/
inductive Slot where
  | unallocated
  | unwritten
  | holding (v : Value)

def Slot.isAllocated : Slot → Bool
  | .unallocated => false
  | _ => true

def Slot.value? : Slot → Option Value
  | .holding v => some v
  | _ => none

/-- `slots` holds the values, and `allocated` flags the addresses in live blocks. `blocks` are the live
blocks, newest first. `freed` tells of each address whether a block that started there was freed and
none has started there since. -/
structure Arena where
  slots : Array (Option Value)
  allocated : Array Bool
  blocks : List Block
  freed : Array Bool
  watermark : Nat
  sized : allocated.size = slots.size

namespace Arena

def empty (size : Nat) : Arena :=
  ⟨Array.replicate size none, Array.replicate size false, [], Array.replicate size false, reservedAddresses,
    by simp⟩

def size (a : Arena) : Nat := a.slots.size

/-- What an address holds, whether or not it may be used. -/
def peek? (a : Arena) (address : Nat) : Option Value := a.slots.getD address none

def isAllocated (a : Arena) (address : Nat) : Bool := a.allocated.getD address false

def slot (a : Arena) (address : Nat) : Slot :=
  if a.isAllocated address then
    match a.peek? address with
    | some v => .holding v
    | none => .unwritten
  else .unallocated

/-- Puts the same entry at `count` places from `start` on. -/
def fill {α : Type} (entries : Array α) (x : α) (start : Nat) : Nat → Array α
  | 0 => entries
  | count + 1 => fill (entries.setIfInBounds start x) x (start + 1) count

@[simp] theorem size_fill {α : Type} (entries : Array α) (x : α) (start count : Nat) :
    (fill entries x start count).size = entries.size := by
  induction count generalizing entries start with
  | zero => rfl
  | succ count ih => rw [fill, ih, Array.size_setIfInBounds]

/-- The first address taken among the `count` addresses from `start` on. -/
def obstacle? (allocated : Array Bool) (start : Nat) : Nat → Option Nat
  | 0 => none
  | count + 1 =>
    if allocated.getD start false then some start
    else obstacle? allocated (start + 1) count

theorem le_of_obstacle? {allocated : Array Bool} {start count a : Nat}
    (h : obstacle? allocated start count = some a) : start ≤ a := by
  induction count generalizing start with
  | zero => simp [obstacle?] at h
  | succ count ih =>
    rw [obstacle?] at h
    split at h
    · simp only [Option.some.injEq] at h
      omega
    · have := ih h
      omega

/-- The first address from `start` on where a run of `count` free slots begins. -/
def firstFit? (allocated : Array Bool) (count : Nat) (start : Nat) : Option Nat :=
  if start + count ≤ allocated.size then
    match h : obstacle? allocated start count with
    | none => some start
    | some a => if a < allocated.size then firstFit? allocated count (a + 1) else none
  else none
termination_by allocated.size - start
decreasing_by
  have := le_of_obstacle? h
  omega

/-- Where a new block of `size` slots goes. -/
def place (a : Arena) (size : Nat) : Except MemoryFault Nat :=
  if size = 0 then .error (.invalidSize 0)
  else
    match firstFit? a.allocated size a.watermark with
    | none => .error (.outOfMemory size)
    | some start => .ok start

/-- Makes the block that starts at an address and has `size` slots a live one. -/
def occupy (a : Arena) (start size : Nat) (tag : String) : Arena where
  slots := fill a.slots none start size
  allocated := fill a.allocated true start size
  blocks := ⟨start, size, tag⟩ :: a.blocks
  freed := a.freed.setIfInBounds start false
  watermark := max a.watermark (start + size)
  sized := by simp [a.sized]

/-- Takes a block of `size` slots for data of a kind that `tag` names. -/
def allocate (a : Arena) (size : Nat) (tag : String) : Except MemoryFault (Nat × Arena) := do
  let start ← a.place size
  pure (start, a.occupy start size tag)

/-- The end of the highest of some blocks. -/
def top (blocks : List Block) : Nat := blocks.foldl (fun high b => max high b.stop) reservedAddresses

/-- The live block that starts at an address, if a program may free it. -/
def freeable (a : Arena) (address : Nat) : Except MemoryFault Block :=
  match a.blocks.find? (·.start == address) with
  | some block => .ok block
  | none => .error (if a.freed.getD address false then .doubleFree address else .invalidFree address)

/-- Takes a live block away. -/
def vacate (a : Arena) (block : Block) : Arena :=
  let blocks := a.blocks.eraseP (·.start == block.start)
  { slots := fill a.slots none block.start block.size
    allocated := fill a.allocated false block.start block.size
    blocks
    freed := a.freed.setIfInBounds block.start true
    watermark := if blocks.all (·.start < block.start) then top blocks else a.watermark
    sized := by simp [a.sized] }

/-- Gives back the block that starts at an address. -/
def free (a : Arena) (address : Nat) : Except MemoryFault (Block × Arena) := do
  let block ← a.freeable address
  pure (block, a.vacate block)

/-- The slot of an address that a program may use. -/
def access (a : Arena) (address : Nat) : Except MemoryFault Slot :=
  if address = 0 then .error .nullDereference
  else if a.size ≤ address then .error (.outOfBounds address a.size)
  else
    match a.slot address with
    | .unallocated => .error (.notAllocated address)
    | s => .ok s

def read (a : Arena) (address : Nat) : Except MemoryFault Value := do
  match ← a.access address with
  | .holding v => pure v
  | _ => throw (.uninitialized address)

/-- Puts a value into a slot, without a look at what the slot is. -/
def put (a : Arena) (address : Nat) (v : Value) : Arena :=
  { a with slots := a.slots.setIfInBounds address (some v), sized := by simp [a.sized] }

/-- Stores a value, and gives the one stored before. -/
def write (a : Arena) (address : Nat) (v : Value) : Except MemoryFault (Option Value × Arena) := do
  let s ← a.access address
  pure (s.value?, a.put address v)

/-- The live block that an address lies in. -/
def block? (a : Arena) (address : Nat) : Option Block :=
  if a.isAllocated address then a.blocks.find? (·.contains address) else none

/-- The live blocks by their start. -/
def blocksInOrder (a : Arena) : List Block := a.blocks.mergeSort fun b c => b.start ≤ c.start

/-- The number of slots in live blocks. -/
def used (a : Arena) : Nat := (a.blocks.map (·.size)).foldr (· + ·) 0

/-- The number of slots from the watermark on. -/
def freeTail (a : Arena) : Nat := a.size - a.watermark

end Arena

end Pseudocode
