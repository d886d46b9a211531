import Pseudocode.Proofs.Memory.Steps

/-!
Values and the types that take them. `Fits` says in plain words which values a declared type takes, and
the check that the machine makes decides it (`conforms_iff_fits`). A value is sound if every array in it
has as many cells as there are index tuples and holds only elements that fit its element type (`Sound`).
No operator, built-in function or input makes an array, so all that they give is sound.
-/

namespace Pseudocode

/-- A finite number without a fraction: its magnitude `mantissa * 2 ^ exponent` is a natural number. -/
def Number.Whole (x : Float) : Prop :=
  ∃ p n, Number.parts? x = some p ∧ p.mantissa * 2 ^ p.exponent.toNat = n * 2 ^ (-p.exponent).toNat

theorem Number.isWhole_iff (x : Float) : Number.isWhole x = true ↔ Number.Whole x := by
  unfold isWhole whole? Whole
  cases parts? x with
  | none => simp
  | some p =>
    have split : (if p.isWhole = true then some p.truncated else none).isSome = p.isWhole := by
      split <;> simp [*]
    have divides : p.isWhole = true ↔ 2 ^ (-p.exponent).toNat ∣ p.mantissa := by
      simp [Parts.isWhole, Parts.denominator, Nat.dvd_iff_mod_eq_zero, Nat.pow_eq]
    rw [split, divides]
    -- One of the two powers is one: the exponent is either not negative or not positive.
    rcases Int.le_total 0 p.exponent with high | low
    · have one : (-p.exponent).toNat = 0 := by omega
      simp [one]
    · have one : p.exponent.toNat = 0 := by omega
      simp only [one, Nat.pow_zero, Nat.mul_one, Option.some.injEq, exists_and_left, exists_eq_left']
      exact exists_congr fun n => by rw [Nat.mul_comm]

namespace Value

/-- The values that something declared with a type may hold. An array that is declared with bounds has
exactly these. -/
def Fits : DataType → Value → Prop
  | .integer, v => ∃ x, v = .number x ∧ Number.Whole x
  | .real, v => ∃ x, v = .number x
  | .string, v => ∃ s, v = .text s
  | .char, v => ∃ c, v = .text (String.singleton c)
  | .boolean, v => ∃ b, v = .boolean b
  | .pointer _, v => ∃ a, v = .address a
  | .array dims _, v => ∃ g, v = .array g ∧ (dims ≠ [] → g.dims = dims)

end Value

theorem length_eq_one_iff_singleton (s : String) : s.length = 1 ↔ ∃ c, s = String.singleton c := by
  constructor
  · intro one
    obtain ⟨c, list⟩ := List.length_eq_one_iff.1 (String.length_toList.trans one)
    exact ⟨c, String.toList_inj.1 (by simp [list])⟩
  · rintro ⟨c, rfl⟩
    simp

theorem Value.conforms_iff_fits (type : DataType) (v : Value) : v.conforms type = true ↔ v.Fits type := by
  cases type <;> cases v <;>
    simp [Value.conforms, Value.Fits, Number.isWhole_iff, length_eq_one_iff_singleton,
      Decidable.or_iff_not_imp_left]

theorem Grid.get?_set {g : Grid α} {i j : Nat} {a b : α} (held : (g.set i a).get? j = some b) :
    b = a ∨ g.get? j = some b := by
  simp only [Grid.get?, Grid.set, Array.getElem?_setIfInBounds] at held ⊢
  split at held
  · split at held
    · exact .inl (by simpa using held.symm)
    · simp at held
  · exact .inr held

namespace Value

/-- Every array in a value has as many cells as index tuples, and its elements fit its element type. `D`
holds of the dimensions and the element type of every array. -/
inductive Sound (D : List Bounds → DataType → Prop) : Value → Prop where
  | scalar {v : Value} : v.isArray = false → Sound D v
  | array {g : Grid Value} : D g.dims g.element → g.cells.size = (g.dims.map Bounds.length).prod →
      (∀ i x, g.get? i = some x → x.conforms g.element = true) → (∀ i x, g.get? i = some x → Sound D x) →
      Sound D (.array g)

namespace Sound

variable {D D' : List Bounds → DataType → Prop}

theorem mono {v : Value} (h : v.Sound D) (more : ∀ dims element, D dims element → D' dims element) :
    v.Sound D' := by
  induction h with
  | scalar plain => exact .scalar plain
  | array declared size fits _ deep => exact .array (more _ _ declared) size fits deep

theorem grid {g : Grid Value} (h : (Value.array g).Sound D) :
    D g.dims g.element ∧ g.cells.size = (g.dims.map Bounds.length).prod ∧
      (∀ i x, g.get? i = some x → x.conforms g.element = true) ∧ ∀ i x, g.get? i = some x → x.Sound D := by
  cases h with
  | scalar plain => cases plain
  | array declared size fits deep => exact ⟨declared, size, fits, deep⟩

theorem set {g : Grid Value} (h : (Value.array g).Sound D) {x : Value} (fits : x.conforms g.element = true)
    (sound : x.Sound D) (i : Nat) : (Value.array (g.set i x)).Sound D := by
  obtain ⟨declared, size, conforming, deep⟩ := h.grid
  refine .array declared (by simpa [Grid.set] using size) (fun j y held => ?_) fun j y held => ?_
  · rcases Grid.get?_set held with rfl | old
    · exact fits
    · exact conforming j y old
  · rcases Grid.get?_set held with rfl | old
    · exact sound
    · exact deep j y old

/-- An array of empty cells. -/
theorem blank {dims : List Bounds} {element : DataType} {g : Grid Value}
    (blank : Grid.blank? dims element = some g) (declared : D dims element) : (Value.array g).Sound D := by
  obtain ⟨rfl, rfl, size, empty⟩ := Grid.blank?_eq_some blank
  exact .array declared size (fun i x held => by simp [empty] at held) fun i x held => by simp [empty] at held

end Sound

theorem isArray_offsetAddress {a : Nat} {offset : Float} {v : Value}
    (moved : offsetAddress a offset = .ok v) :
    v.isArray = false := by
  unfold offsetAddress at moved
  split at moved
  · cases moved
  · split at moved <;> cases moved
    rfl

end Value

theorem BinaryOperator.isArray_arithmetic {op : BinaryOperator} {f : Float → Float → Except Cause Float}
    {l r v : Value} (applied : op.arithmetic f l r = .ok v) : v.isArray = false := by
  unfold arithmetic at applied
  split at applied
  · rename_i x y
    cases result : f x y <;> rw [result] at applied <;> cases applied
    rfl
  · cases applied

theorem BinaryOperator.isArray_comparison {op : BinaryOperator} {test : Ordering → Bool} {l r v : Value}
    (applied : op.comparison test l r = .ok v) : v.isArray = false := by
  unfold comparison at applied
  split at applied <;> cases applied
  rfl

/-- Operators make no arrays. -/
theorem BinaryOperator.isArray_apply {op : BinaryOperator} {l r v : Value} (applied : op.apply l r = .ok v) :
    v.isArray = false := by
  cases op with
  | add | sub =>
    unfold apply at applied
    dsimp only at applied
    split at applied
    all_goals first
      | exact Value.isArray_offsetAddress applied
      | (cases applied; rfl)
      | cases applied
  | mul | div | intDiv | mod => exact isArray_arithmetic applied
  | lt | le | gt | ge => exact isArray_comparison applied
  | eq | ne =>
    cases applied
    rfl
  | concat | and | or =>
    unfold apply at applied
    dsimp only at applied
    split at applied <;> cases applied
    rfl

theorem UnaryOperator.isArray_apply {op : UnaryOperator} {a v : Value} (applied : op.apply a = .ok v) :
    v.isArray = false := by
  unfold UnaryOperator.apply at applied
  split at applied <;> cases applied <;> rfl

theorem Value.isArray_ofInput? {type : DataType} {raw : String} {v : Value}
    (read : Value.ofInput? type raw = some v) : v.isArray = false := by
  unfold Value.ofInput? at read
  split at read
  · obtain ⟨x, -, rfl⟩ := Option.map_eq_some_iff.1 read
    rfl
  · obtain ⟨x, -, rfl⟩ := Option.map_eq_some_iff.1 read
    rfl
  · cases read
    rfl
  · split at read <;> cases read
    rfl
  · split at read <;> cases read <;> rfl
  · cases read
  · cases read

/-- What follows on a result makes no arrays, so the whole makes none. -/
theorem isArray_bind {x : Except Cause α} {f : α → Except Cause Value} {v : Value}
    (next : ∀ a, f a = .ok v → v.isArray = false) (ended : (x >>= f) = .ok v) : v.isArray = false := by
  cases x with
  | error cause => cases ended
  | ok a => exact next a ended

namespace Builtin

variable {b : Builtin} {v : Value}

theorem isArray_midOf {s start n : Value} (applied : b.midOf s start n = .ok v) : v.isArray = false := by
  refine isArray_bind (fun s applied => isArray_bind (fun start applied => ?_) applied) applied
  dsimp only at applied
  split at applied
  · cases applied
  · refine isArray_bind (fun n applied => ?_) applied
    cases applied
    rfl

theorem isArray_roundOf {x places : Value} (applied : b.roundOf x places = .ok v) : v.isArray = false := by
  refine isArray_bind (fun x applied => isArray_bind (fun places applied => ?_) applied) applied
  dsimp only at applied
  split at applied <;> cases applied
  rfl

/-- Built-in functions make no arrays. -/
theorem isArray_apply {draw : Float} {args : List Value} (applied : b.apply draw args = .ok v) :
    v.isArray = false := by
  unfold apply at applied
  split at applied
  case h_2 | h_3 =>
    refine isArray_bind (fun s applied => isArray_bind (fun n applied => ?_) applied) applied
    cases applied
    rfl
  case h_4 => exact isArray_midOf applied
  case h_8 => exact isArray_roundOf applied
  case h_10 | h_12 | h_13 | h_14 =>
    refine isArray_bind (fun a applied => ?_) applied
    split at applied <;> cases applied
    rfl
  case h_15 =>
    cases applied
    rfl
  case h_16 => cases applied
  all_goals
    refine isArray_bind (fun a applied => ?_) applied
    cases applied
    rfl

end Builtin

theorem Value.Sound.closed (D : List Bounds → DataType → Prop) : Value.Closed (Value.Sound D) where
  literal l := .scalar (by cases l <;> rfl)
  number _ := .scalar rfl
  boolean _ := .scalar rfl
  address _ := .scalar rfl
  binary _ _ applied := .scalar (BinaryOperator.isArray_apply applied)
  unary _ applied := .scalar (UnaryOperator.isArray_apply applied)
  builtin _ applied := .scalar (Builtin.isArray_apply applied)
  input read := .scalar (Value.isArray_ofInput? read)

end Pseudocode
