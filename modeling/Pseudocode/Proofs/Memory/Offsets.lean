import Pseudocode.Operator
import Pseudocode.Proofs.Numbers.Whole

/-!
Addresses plus and minus numbers. The sum is one of 128-bit integers, to which an offset is converted with a stop at
both ends. Neither shows: a sum that fails its check is no word (`checkedSum_bind_toWord?`), and an offset that is
stopped leads out of the words from every one of them (`toWord?_stopped`). So an address moves by exactly the integer
that the offset is, or not at all (`addresses_move_exactly`).
-/

namespace Pseudocode

namespace Value

/-- The address exactly `k` slots from `a`, if it is one of the 64-bit words. The message about one that is not shows
the offset as a number. -/
def moved (a : Nat) (k : ℤ) (offset : Float) : Except Cause Value :=
  if 0 ≤ a + k ∧ a + k < 2 ^ 64 then .ok (.address (a + k).toNat)
  else .error (.invalidArgument (.outsideAddressSpace a offset))

variable {a : Nat} {k : ℤ} {x : Float}

section Words

theorem toWord?_eq (i : ℤ) : toWord? i = if 0 ≤ i ∧ i < 2 ^ 64 then some i.toNat else none := by
  have last : (wordMax : ℤ) = 2 ^ 64 - 1 := rfl
  rw [toWord?, last]
  simp only [Int.le_sub_one_iff]

theorem toWord?_of_outside {i : ℤ} (outside : i < 0 ∨ 2 ^ 64 ≤ i) : toWord? i = none := by
  rw [toWord?_eq, if_neg (by omega)]

/-- All words are 128-bit integers. -/
theorem checkedSum_bind_toWord? (i j : ℤ) : (checkedSum i j).bind toWord? = toWord? (i + j) := by
  have ends : Int.pow 2 127 = 2 ^ 127 := rfl
  rw [checkedSum, ends]
  split
  · rfl
  · rw [Option.bind_none, toWord?_of_outside (by omega)]

/-- Both ends of the 128-bit integers are further from a word than the words are from each other. -/
theorem toWord?_stopped (word : a < 2 ^ 64) (k : ℤ) :
    toWord? (a + max (-2 ^ 127) (min (2 ^ 127 - 1) k)) = toWord? (a + k) := by
  rcases Int.lt_or_le k (-2 ^ 127) with low | low
  · rw [toWord?_of_outside (.inl (by omega)), toWord?_of_outside (.inl (by omega))]
  rcases Int.lt_or_le (2 ^ 127 - 1) k with high | high
  · rw [toWord?_of_outside (.inr (by omega)), toWord?_of_outside (.inr (by omega))]
  · rw [min_eq_right high, max_eq_right low]

end Words

section Offsets

theorem offsetAddress_of_whole? (word : a < 2 ^ 64) (whole : Number.whole? x = some k) :
    offsetAddress a x = moved a k x := by
  have stopped : Number.toInt128 x = max (-2 ^ 127) (min (2 ^ 127 - 1) k) := Number.clamp_of_whole? whole _ _
  rw [offsetAddress, Number.isWhole_of_whole? whole, stopped, checkedSum_bind_toWord?, toWord?_stopped word, toWord?_eq,
    moved]
  by_cases inside : 0 ≤ a + k ∧ a + k < 2 ^ 64
  · rw [if_pos inside, if_pos inside]
    rfl
  · rw [if_neg inside, if_neg inside]
    rfl

theorem offsetAddress_of_fraction (fraction : Number.whole? x = none) :
    offsetAddress a x = .error (.typeMismatch (.fractionalOffset x)) := by
  rw [offsetAddress, Number.isWhole, fraction]
  rfl

theorem moved_eq_ok {v : Value} (forth : moved a k x = .ok v) :
    ∃ b : Nat, v = .address b ∧ (b : ℤ) = a + k ∧ b < 2 ^ 64 := by
  unfold moved at forth
  split at forth
  · cases forth
    exact ⟨_, rfl, by omega, by omega⟩
  · cases forth

/-- The way back from where an offset leads. -/
theorem offsetAddress_back {v : Value} (word : a < 2 ^ 64) (forth : offsetAddress a x = .ok v) :
    ∃ b, v = .address b ∧ offsetAddress b (-x) = .ok (.address a) := by
  cases whole : Number.whole? x with
  | none =>
    rw [offsetAddress_of_fraction whole] at forth
    cases forth
  | some k =>
    rw [offsetAddress_of_whole? word whole] at forth
    obtain ⟨b, rfl, sum, word'⟩ := moved_eq_ok forth
    have negated : Number.whole? (-x) = some (-k) := by rw [Number.whole?_neg, whole, Option.map_some]
    have back : (b : ℤ) + -k = a := by omega
    refine ⟨b, rfl, ?_⟩
    rw [offsetAddress_of_whole? word' negated, moved, back, if_pos (by omega), Int.toNat_natCast]

end Offsets

end Value

open BinaryOperator in
/-- Pointer arithmetic never wraps. An offset that is no integer, as the infinities and NaN are none, is a type error.
One that is the integer `k` moves a word by exactly `k` slots when it is added, on either side, and by `-k` when it is
subtracted, if that leads to a word, and is an invalid argument otherwise. What leads away leads back. -/
theorem addresses_move_exactly (a : Nat) (word : a < 2 ^ 64) (x : Float) :
    (x.isNaN ∨ x.isInf ↔ Number.value? x = none) ∧
    ((∀ k : ℤ, Number.value? x ≠ some (k : ℚ)) →
      add.apply (.address a) (.number x) = .error (.typeMismatch (.fractionalOffset x)) ∧
      add.apply (.number x) (.address a) = .error (.typeMismatch (.fractionalOffset x)) ∧
      sub.apply (.address a) (.number x) = .error (.typeMismatch (.fractionalOffset (-x)))) ∧
    (∀ k : ℤ, Number.value? x = some (k : ℚ) →
      add.apply (.address a) (.number x) = Value.moved a k x ∧
      add.apply (.number x) (.address a) = Value.moved a k x ∧
      sub.apply (.address a) (.number x) = Value.moved a (-k) (-x)) ∧
    ∀ v, add.apply (.address a) (.number x) = .ok v → sub.apply v (.number x) = .ok (.address a) := by
  refine ⟨Number.value?_eq_none_iff.symm, fun fractional => ?_, fun k value => ?_, fun v forth => ?_⟩
  · have fraction := Number.whole?_eq_none_iff.2 fractional
    have negated : Number.whole? (-x) = none := by rw [Number.whole?_neg, fraction, Option.map_none]
    have plus := Value.offsetAddress_of_fraction (a := a) fraction
    exact ⟨plus, plus, Value.offsetAddress_of_fraction negated⟩
  · have whole := Number.whole?_eq_some_iff.2 value
    have negated : Number.whole? (-x) = some (-k) := by rw [Number.whole?_neg, whole, Option.map_some]
    have plus := Value.offsetAddress_of_whole? word whole
    exact ⟨plus, plus, Value.offsetAddress_of_whole? word negated⟩
  · obtain ⟨b, rfl, back⟩ := Value.offsetAddress_back word forth
    exact back

open BinaryOperator in
/-- Steps at either end of the words, a power of two beyond the 128-bit integers, and one half. -/
theorem addresses_at_the_ends :
    add.apply (.address (2 ^ 64 - 2)) (.number 1) = .ok (.address (2 ^ 64 - 1)) ∧
    sub.apply (.address (2 ^ 64 - 1)) (.number 1) = .ok (.address (2 ^ 64 - 2)) ∧
    add.apply (.number 1) (.address (2 ^ 64 - 1)) = .error (.invalidArgument (.outsideAddressSpace (2 ^ 64 - 1) 1)) ∧
    sub.apply (.address 4) (.number 5) = .error (.invalidArgument (.outsideAddressSpace 4 (-5))) ∧
    add.apply (.address 0) (.number (Number.ofParts ⟨false, 1, 200⟩)) =
      .error (.invalidArgument (.outsideAddressSpace 0 (Number.ofParts ⟨false, 1, 200⟩))) ∧
    sub.apply (.address 0) (.number (Number.ofParts ⟨false, 1, 200⟩)) =
      .error (.invalidArgument (.outsideAddressSpace 0 (-Number.ofParts ⟨false, 1, 200⟩))) ∧
    add.apply (.address 1024) (.number 0.5) = .error (.typeMismatch (.fractionalOffset 0.5)) := by
  obtain ⟨-, -, up, back⟩ := addresses_move_exactly (2 ^ 64 - 2) (by decide) 1
  obtain ⟨-, -, above, -⟩ := addresses_move_exactly (2 ^ 64 - 1) (by decide) 1
  obtain ⟨-, -, below, -⟩ := addresses_move_exactly 4 (by decide) 5
  obtain ⟨-, -, far, -⟩ := addresses_move_exactly 0 (by decide) (Number.ofParts ⟨false, 1, 200⟩)
  obtain ⟨-, half, -, -⟩ := addresses_move_exactly 1024 (by decide) 0.5
  have one : Number.value? 1 = some ((1 : ℤ) : ℚ) := Number.whole?_eq_some_iff.1 (by decide +kernel)
  have five : Number.value? 5 = some ((5 : ℤ) : ℚ) := Number.whole?_eq_some_iff.1 (by decide +kernel)
  have power : Number.value? (Number.ofParts ⟨false, 1, 200⟩) = some ((2 ^ 200 : ℤ) : ℚ) :=
    Number.whole?_eq_some_iff.1 (by decide +kernel)
  have forth := (up 1 one).1
  refine ⟨forth, back _ forth, (above 1 one).2.1, (below 5 five).2.2, (far _ power).1, (far _ power).2.2,
    (half ?_).1⟩
  exact Number.whole?_eq_none_iff.1 (by decide +kernel)

end Pseudocode
