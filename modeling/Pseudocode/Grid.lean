import Pseudocode.DataType

/-!
Grids: the cells of an array in row-major order, under one or more dimensions. A cell that was never
assigned is empty.
-/

namespace Pseudocode

structure Grid (α : Type) where
  dims : List Bounds
  element : DataType
  cells : Array (Option α)

/-- The largest number of cells of a grid. -/
def maxCells : Nat := 1000000

/-- An index outside its dimension. -/
structure IndexFault where
  index : Int
  bounds : Bounds
deriving DecidableEq, Repr

namespace Grid

/-- A grid of empty cells, unless it would be too large. -/
def blank? (dims : List Bounds) (element : DataType) : Option (Grid α) :=
  match Bounds.cellCount? dims with
  | some count => if count ≤ maxCells then some ⟨dims, element, Array.replicate count none⟩ else none
  | none => none

def size (g : Grid α) : Nat := g.cells.size

/-- The row-major position of an index tuple behind the position `start` of the tuple read so far.
Surplus indices or dimensions are left out of account. -/
def positionFrom (start : Nat) : List Int → List Bounds → Except IndexFault Nat
  | index :: indices, b :: dims =>
    if b.contains index then positionFrom (start * b.length + (index - b.lower).toNat) indices dims
    else .error ⟨index, b⟩
  | _, _ => .ok start

def position (g : Grid α) (indices : List Int) : Except IndexFault Nat := positionFrom 0 indices g.dims

/-- The cell at a position; also none outside the grid. -/
def get? (g : Grid α) (i : Nat) : Option α := (g.cells[i]?).join

/-- Assigns the cell at a position. Outside the grid nothing changes. -/
def set (g : Grid α) (i : Nat) (a : α) : Grid α := { g with cells := g.cells.setIfInBounds i (some a) }

/-- The number of assigned cells. -/
def assigned (g : Grid α) : Nat := g.cells.countP Option.isSome

end Grid

end Pseudocode
