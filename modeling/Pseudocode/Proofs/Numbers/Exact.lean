import Mathlib
import Pseudocode.Number

/-!
The exact values of numbers. The parts of a number are its sign, mantissa and exponent as the binary format has them
(`parts?_eq`), and its value is the rational number that they make. So `whole?` finds the integer that a number is
exactly (`whole?_eq_some_iff`), and a minus sign turns this integer round (`whole?_neg`).
-/

namespace Pseudocode.Number

open Float.Model (Format UnpackedFloat)
open Float.Model.UnpackedFloat

/-- The number that the parts make. -/
def Parts.value (p : Parts) : ℚ := (if p.negative then -(p.mantissa : ℚ) else p.mantissa) * 2 ^ p.exponent

/-- The exact value of a number; infinities and NaN have none. -/
def value? (x : Float) : Option ℚ := (parts? x).map Parts.value

section Integers

variable {x : Float} {k : ℤ}

/-- A magnitude is an integer if no fraction bit is set, and then it is what stands before the fraction. -/
theorem Parts.magnitude_eq_iff {p : Parts} :
    (p.mantissa : ℚ) * 2 ^ p.exponent = k ↔ p.isWhole = true ∧ (p.wholeMagnitude : ℤ) = k := by
  rw [isWhole, wholeMagnitude, denominator, beq_iff_eq, Nat.pow_eq, Nat.pow_eq]
  rcases Int.le_total 0 p.exponent with up | down
  · obtain ⟨n, shift⟩ := Int.eq_ofNat_of_zero_le up
    rw [shift, zpow_natCast, show (-(n : ℤ)).toNat = 0 by omega, Int.toNat_natCast, pow_zero, Nat.mod_one, Nat.div_one]
    norm_cast
    exact (and_iff_right rfl).symm
  · obtain ⟨n, shift⟩ : ∃ n : Nat, p.exponent = -n := ⟨_, (Int.eq_neg_comm.1 (Int.toNat_of_nonneg (by omega)))⟩
    rw [shift, zpow_neg, zpow_natCast, ← div_eq_mul_inv, div_eq_iff (by positivity), neg_neg, Int.toNat_natCast,
      show (-(n : ℤ)).toNat = 0 by omega, pow_zero, mul_one]
    norm_cast
    constructor
    · intro same
      have divides : 2 ^ n ∣ p.mantissa := by exact_mod_cast Dvd.intro_left k same.symm
      refine ⟨Nat.mod_eq_zero_of_dvd divides, ?_⟩
      rw [Int.natCast_div, same, Int.mul_ediv_cancel _ (by positivity)]
    · rintro ⟨whole, rfl⟩
      exact_mod_cast (Nat.div_mul_cancel (Nat.dvd_of_mod_eq_zero whole)).symm

theorem Parts.value_eq_iff {p : Parts} : p.value = k ↔ p.isWhole = true ∧ p.truncated = k := by
  rw [value, truncated]
  split
  · rw [neg_mul, neg_eq_iff_eq_neg, ← Int.cast_neg, magnitude_eq_iff, neg_eq_iff_eq_neg]
  · exact magnitude_eq_iff

/-- A number denotes an integer if this is its value. -/
theorem whole?_eq_some_iff : whole? x = some k ↔ value? x = some (k : ℚ) := by
  rw [value?, whole?]
  cases parts? x with
  | none => simp
  | some p => simp [Parts.value_eq_iff]

theorem whole?_eq_none_iff : whole? x = none ↔ ∀ k : ℤ, value? x ≠ some (k : ℚ) := by
  simp only [Option.eq_none_iff_forall_ne_some, ne_eq, whole?_eq_some_iff]

end Integers

section Fields

/-- The fields of the format, as division finds them. -/
theorem toNat_fields (bits : BitVec Format.binary64.numBits) :
    (unpackSign bits).toNat = bits.toNat / 2 ^ 63 ∧ (unpackExponent bits).toNat = bits.toNat / 2 ^ 52 % 2 ^ 11 ∧
      (unpackMantissa bits).toNat = bits.toNat % 2 ^ 52 := by
  have size : bits.toNat < 2 ^ 64 := bits.isLt
  simp only [unpackSign_def, unpackExponent_def, unpackMantissa_def, BitVec.extractLsb'_toNat,
    Nat.shiftRight_eq_div_pow]
  refine ⟨?_, trivial, ?_⟩
  · show bits.toNat / 2 ^ 63 % 2 ^ 1 = _
    omega
  · show bits.toNat / 2 ^ 0 % 2 ^ 52 = _
    omega

/-- The sign bit is set in the upper half of the words. -/
theorem decide_negative (bits : BitVec Format.binary64.numBits) :
    decide (2 ^ 63 ≤ bits.toNat) = (Sign.ofBitVec (unpackSign bits) == .negative) := by
  obtain ⟨sign, -, -⟩ := toNat_fields bits
  have size : bits.toNat < 2 ^ 64 := bits.isLt
  rcases Nat.lt_or_ge bits.toNat (2 ^ 63) with low | high
  · have clear : unpackSign bits = 0#1 := BitVec.eq_of_toNat_eq (sign.trans (Nat.div_eq_of_lt low))
    rw [clear, decide_eq_false (Nat.not_le.2 low)]
    rfl
  · have set : unpackSign bits = 1#1 := BitVec.eq_of_toNat_eq (sign.trans (by show _ = 1; omega))
    rw [set, decide_eq_true high]
    rfl

/-- The first bit of a mantissa is not stored. -/
theorem toNat_hidden (fraction : BitVec 52) : (1#1 ++ fraction).toNat = fraction.toNat + 2 ^ 52 := by
  rw [BitVec.toNat_append, ← Nat.shiftLeft_add_eq_or_of_lt fraction.isLt, Nat.add_comm]
  rfl

/-- The parts of a number in the fields of its format. -/
def unpackedParts? : UnpackedFloat → Option Parts
  | .notANumber | .infinity _ => none
  | .zero sign => some ⟨sign == .negative, 0, -1074⟩
  | .finite sign mantissa exponent _ => some ⟨sign == .negative, mantissa, exponent⟩

theorem parts?_eq (x : Float) : parts? x = unpackedParts? x.toModel.unpack := by
  obtain ⟨⟨⟨bits⟩, valid⟩⟩ := x
  change BitVec Format.binary64.numBits at bits
  obtain ⟨-, field, fraction⟩ := toNat_fields bits
  have last : (unpackExponent bits).toNat = 2 ^ 11 - 1 ↔ unpackExponent bits = -1#11 := BitVec.toNat_inj (y := -1#11)
  have first : (unpackExponent bits).toNat = 0 ↔ unpackExponent bits = 0#11 := BitVec.toNat_inj (y := 0#11)
  have bias : Format.binary64.exponentBias = 1023 := rfl
  show (if bits.toNat / 2 ^ 52 % 2 ^ 11 = 2 ^ 11 - 1 then none
    else if bits.toNat / 2 ^ 52 % 2 ^ 11 = 0 then some ⟨decide (2 ^ 63 ≤ bits.toNat), bits.toNat % 2 ^ 52, -1074⟩
    else some ⟨decide (2 ^ 63 ≤ bits.toNat), bits.toNat % 2 ^ 52 + 2 ^ 52,
      (bits.toNat / 2 ^ 52 % 2 ^ 11 : Nat) - 1075⟩) =
      unpackedParts? (unpack .binary64 bits)
  rw [← field, ← fraction, decide_negative, ← toNat_hidden]
  simp only [unpack, last, first, bias]
  split
  · split <;> rfl
  split
  next zero =>
    rw [zero]
    split
    next empty =>
      rw [empty]
      rfl
    next => rfl
  next => rfl

theorem value?_eq_none_iff {x : Float} : value? x = none ↔ x.isNaN ∨ x.isInf := by
  have nan : x.isNaN = x.toModel.unpack.isNaN := rfl
  have inf : x.isInf = x.toModel.unpack.isInf := rfl
  rw [value?, Option.map_eq_none_iff, parts?_eq, nan, inf]
  cases x.toModel.unpack <;> simp [unpackedParts?, UnpackedFloat.isNaN, UnpackedFloat.isInf]

end Fields

section Negation

/-- A number with the other sign bit is the negative one, or NaN still. -/
theorem unpack_packComponents_neg {spec : Format} (sign : Sign) (field : BitVec spec.exponentBits)
    (fraction : BitVec spec.mantissaBitsWithoutImplicit) :
    unpack spec (packComponents spec (-sign) field fraction) =
      (unpack spec (packComponents spec sign field fraction)).neg := by
  simp only [unpack, unpackSign_packComponents, unpackExponent_packComponents, unpackMantissa_packComponents,
    Sign.ofBitVec_toBitVec]
  split
  · split <;> rfl
  · split
    · split <;> rfl
    · rfl

/-- The sign has a field of its own, which no other part of the number has a say in. -/
theorem exists_pack_finite (spec : Format) (mantissa : Nat) (exponent : ℤ) (pos : 0 < mantissa) :
    ∃ field fraction, ∀ sign,
      pack spec (.finite sign mantissa exponent pos) = packComponents spec sign field fraction := by
  simp only [pack, packedInfinity]
  split
  · exact ⟨_, _, fun _ => rfl⟩
  · split
    · exact ⟨_, _, fun _ => rfl⟩
    · exact ⟨_, _, fun _ => rfl⟩

theorem unpack_neg (x : Float) : (-x).toModel.unpack = x.toModel.unpack.neg := by
  have packed : pack .binary64 x.toModel.unpack = x.toModel.toBits.toBitVec := pack_unpack_of_valid x.toModel.valid
  have unpacked : x.toModel.unpack = unpack .binary64 x.toModel.toBits.toBitVec := rfl
  show unpack .binary64 (pack .binary64 x.toModel.unpack.neg) = _
  generalize x.toModel.toBits.toBitVec = bits at packed unpacked
  generalize x.toModel.unpack = number at packed unpacked ⊢
  subst packed
  -- `pack` could round, but not here: the fields it makes are those that the number came from.
  cases number with
  | notANumber => exact unpack_packedNaN
  | infinity sign =>
    conv => rhs; rw [unpacked]
    exact unpack_packComponents_neg sign _ _
  | zero sign => exact unpack_packedZero
  | finite sign mantissa exponent pos =>
    obtain ⟨field, fraction, fields⟩ := exists_pack_finite .binary64 mantissa exponent pos
    conv => rhs; rw [unpacked, fields]
    rw [UnpackedFloat.neg, fields]
    exact unpack_packComponents_neg sign field fraction

theorem parts?_neg (x : Float) : parts? (-x) = (parts? x).map fun p => { p with negative := !p.negative } := by
  rw [parts?_eq, parts?_eq, unpack_neg]
  cases x.toModel.unpack with
  | notANumber | infinity => rfl
  | zero sign | finite sign => cases sign <;> rfl

/-- A minus sign turns the integer round that a number denotes. -/
theorem whole?_neg (x : Float) : whole? (-x) = (whole? x).map (-·) := by
  rw [whole?, whole?, parts?_neg]
  cases parts? x with
  | none => rfl
  | some p =>
    have turned : Parts.truncated { p with negative := !p.negative } = -p.truncated := by
      obtain ⟨_ | _, mantissa, exponent⟩ := p
      · rfl
      · exact (neg_neg _).symm
    show (if p.isWhole then some (Parts.truncated { p with negative := !p.negative }) else none) =
      (if p.isWhole then some p.truncated else none).map _
    rw [turned]
    split <;> rfl

end Negation

end Pseudocode.Number
