import Pseudocode.Proofs.Memory.Addressing

/-!
The sizes of types. Products that stop at the largest word come to the same as the true product, stopped there
once, because a factor of zero brings a stopped product back to zero (`saturatingMul_min`). So the size of a type
is the product of the slots of its innermost elements and of all its widths, or the largest word
(`sizes_saturate_exactly`).
-/

namespace Pseudocode

variable {α : Type}

namespace DataType

/-- The slots of an innermost element. -/
def unit : DataType → Nat
  | .integer | .pointer _ => 4
  | .real => 8
  | .char | .boolean => 1
  | .string => 256
  | .array _ element => unit element

/-- The dimensions of an array and of the arrays in it. -/
def extents : DataType → List Bounds
  | .array dims element => dims ++ extents element
  | _ => []

theorem saturatingMul_min (a b : Nat) : saturatingMul (min wordMax a) (min wordMax b) = min wordMax (a * b) := by
  unfold saturatingMul
  rcases Nat.eq_zero_or_pos a with rfl | pos
  · simp
  rcases Nat.eq_zero_or_pos b with rfl | pos'
  · simp
  -- Both factors count at least once, so a product with a factor that was stopped is stopped too.
  have first : a ≤ a * b := Nat.le_mul_of_pos_right a pos'
  have second : b ≤ a * b := Nat.le_mul_of_pos_left b pos
  by_cases large : wordMax ≤ a
  · have stopped : wordMax ≤ wordMax * min wordMax b := Nat.le_mul_of_pos_right _ (Nat.lt_min.2 ⟨by decide, pos'⟩)
    rw [Nat.min_eq_left large, Nat.min_eq_left stopped, Nat.min_eq_left (Nat.le_trans large first)]
  rw [Nat.min_eq_right (Nat.le_of_not_le large)]
  by_cases large' : wordMax ≤ b
  · have stopped : wordMax ≤ a * wordMax := Nat.le_mul_of_pos_left _ pos
    rw [Nat.min_eq_left large', Nat.min_eq_left stopped, Nat.min_eq_left (Nat.le_trans large' second)]
  · rw [Nat.min_eq_right (Nat.le_of_not_le large')]

theorem foldl_saturatingMul (dims : List Bounds) (n : Nat) :
    dims.foldl (fun total b => saturatingMul total b.length) (min wordMax n) =
      min wordMax (n * (dims.map Bounds.width).prod) := by
  induction dims generalizing n with
  | nil => simp
  | cons b dims ih =>
    rw [List.foldl_cons, Bounds.length, saturatingMul_min, ih, List.map_cons, List.prod_cons, Nat.mul_assoc]

theorem size_eq (t : DataType) : t.size = min wordMax (t.unit * (t.extents.map Bounds.width).prod) := by
  induction t with
  | array dims element ih =>
    rw [size, ih, foldl_saturatingMul, extents, List.map_append, List.prod_append, unit, Nat.mul_assoc,
      Nat.mul_comm (List.prod _)]
  | integer | real | string | char | boolean | pointer => rfl

end DataType

/-- The size of a type is the true product of the slots of its innermost elements and of all its widths, where
crossed bounds have none, as long as this is a 64-bit word, and the largest word otherwise. Neither the order of
the dimensions nor how they are spread over arrays in arrays makes a difference. If no dimension is empty, there is
an array of these dimensions if and only if the true product of the widths is at most a million; it has that many
cells, and none is assigned. -/
theorem sizes_saturate_exactly (t : DataType) (dims : List Bounds) :
    t.size = min (2 ^ 64 - 1) (t.unit * (t.extents.map fun b => (b.upper - b.lower + 1).toNat).prod) ∧
    (∀ t' : DataType, t'.unit = t.unit → t'.extents.Perm t.extents → t'.size = t.size) ∧
    ((∀ b ∈ dims, b.lower ≤ b.upper) →
      (Grid.blank? dims t : Option (Grid α)) =
        if (dims.map fun b => (b.upper - b.lower + 1).toNat).prod ≤ 1000000 then
          some ⟨dims, t, Array.replicate (dims.map fun b => (b.upper - b.lower + 1).toNat).prod none⟩
        else none) := by
  refine ⟨t.size_eq, fun t' unit perm => ?_, fun wide => Grid.blank?_eq wide t⟩
  rw [t'.size_eq, t.size_eq, unit, (perm.map Bounds.width).prod_eq]

/-- An empty dimension behind one that fills the words, and a square that is just not too large. -/
theorem sizes_of_wide_and_empty :
    (DataType.array [⟨-2 ^ 63, 2 ^ 63 - 1⟩, ⟨1, 2 ^ 40⟩] .string).size = 2 ^ 64 - 1 ∧
      (DataType.array [⟨-2 ^ 63, 2 ^ 63 - 1⟩, ⟨1, 0⟩] .string).size = 0 ∧
      (DataType.array [⟨1, 0⟩] (.array [⟨-2 ^ 63, 2 ^ 63 - 1⟩] .string)).size = 0 ∧
      (Grid.blank? [⟨-500, 499⟩, ⟨1, 1000⟩] .char : Option (Grid Value)) =
        some ⟨[⟨-500, 499⟩, ⟨1, 1000⟩], .char, Array.replicate 1000000 none⟩ ∧
      (Grid.blank? [⟨-500, 500⟩, ⟨1, 1000⟩] .char : Option (Grid Value)) = none := by
  obtain ⟨full, -, -⟩ :=
    sizes_saturate_exactly (α := Value) (.array [⟨-2 ^ 63, 2 ^ 63 - 1⟩, ⟨1, 2 ^ 40⟩] .string) []
  obtain ⟨none, spread, -⟩ :=
    sizes_saturate_exactly (α := Value) (.array [⟨-2 ^ 63, 2 ^ 63 - 1⟩, ⟨1, 0⟩] .string) []
  have swapped := spread (.array [⟨1, 0⟩] (.array [⟨-2 ^ 63, 2 ^ 63 - 1⟩] .string)) rfl (.swap ..)
  obtain ⟨-, -, square⟩ := sizes_saturate_exactly (α := Value) .char [⟨-500, 499⟩, ⟨1, 1000⟩]
  obtain ⟨-, -, larger⟩ := sizes_saturate_exactly (α := Value) .char [⟨-500, 500⟩, ⟨1, 1000⟩]
  exact ⟨full, none, swapped.trans none, square (by decide), larger (by decide)⟩

end Pseudocode
