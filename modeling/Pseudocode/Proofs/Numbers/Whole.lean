import Pseudocode.Number.Decimal
import Pseudocode.Proofs.Numbers.Exact

/-!
Whole numbers up to `2 ^ 53` are numbers of the language: their digits are read as exactly that number
(`whole?_ofDigits`). Such a number is a mantissa of 53 bits times a power of two, and no step of the
conversion drops a bit that is set.
-/

namespace Pseudocode.Number

open Float.Model Float.Model.UnpackedFloat

/-- A mantissa that fills its 53 bits. -/
structure Full (m : Nat) : Prop where
  low : 2 ^ 52 ≤ m
  high : m < 2 ^ 53

section Rounding

variable {m : Nat} {e : Int}

theorem Full.pos (full : Full m) : 0 < m := Nat.lt_of_lt_of_le (by decide) full.low

theorem Full.log2_shifted (full : Full m) (k : Nat) : (m * 2 ^ k).log2 = 52 + k := by
  have some : 0 < 2 ^ k := Nat.two_pow_pos k
  have positive : m * 2 ^ k ≠ 0 := Nat.ne_of_gt (Nat.mul_pos full.pos some)
  rw [Nat.log2_eq_iff positive, Nat.pow_add, Nat.add_right_comm, Nat.pow_add]
  exact ⟨Nat.mul_le_mul_right _ full.low, Nat.mul_lt_mul_of_pos_right full.high some⟩

/-- Shifting zeros out leaves no residue. -/
theorem shiftRight_zeros (m k : Nat) : ExtendedMantissa.mk (m * 2 ^ k) false false >>> k = ⟨m, false, false⟩ := by
  induction k generalizing m with
  | zero => rw [Nat.pow_zero, Nat.mul_one]; rfl
  | succ k ih =>
    have twice : m * 2 ^ (k + 1) = m * 2 * 2 ^ k := by rw [Nat.pow_succ, Nat.mul_comm _ 2, Nat.mul_assoc]
    show ExtendedMantissa.shiftRightOne (ExtendedMantissa.mk (m * 2 ^ (k + 1)) false false >>> k) = _
    rw [twice, ih]
    simp [ExtendedMantissa.shiftRightOne]

theorem Full.shiftToTargetExponent (full : Full m) (k : Nat) (normal : -1074 ≤ e + k) :
    shiftToTargetExponent .binary64 (m * 2 ^ k) e .exact = (⟨m, false, false⟩, e + k) := by
  have target : Format.binary64.targetExponent (totalExponent (m * 2 ^ k) e) = e + k := by
    simp only [Format.targetExponent, totalExponent, full.log2_shifted, Format.mantissaBits, Format.minExponent]
    omega
  have amount : (e + k - e).toNat = k := by omega
  simp only [UnpackedFloat.shiftToTargetExponent, shiftToExponent, target, amount]
  exact congrArg (·, _) (shiftRight_zeros m k)

/-- A number of 53 bits stays as it is, also when zeros follow its bits. -/
theorem Full.roundWithAccuracy (full : Full m) (sign : Sign) (k : Nat) (normal : -1074 ≤ e + k) :
    roundWithAccuracy .binary64 sign (m * 2 ^ k) e .exact = .finite sign m (e + k) full.pos := by
  have again := full.shiftToTargetExponent (e := e + k) 0 (by omega)
  simp only [Nat.pow_zero, Nat.mul_one, Int.natCast_zero, Int.add_zero] at again
  have rounded : (ExtendedMantissa.mk m false false).roundedMantissa = m := rfl
  simp only [UnpackedFloat.roundWithAccuracy, full.shiftToTargetExponent k normal, rounded, again]
  exact dif_neg (Nat.ne_of_gt full.pos)

/-- The leading bit of a full mantissa is not stored. -/
theorem Full.pack (full : Full m) (least : -1074 ≤ e) (most : e ≤ 971) :
    pack .binary64 (.finite .positive m e full.pos) =
      packComponents .binary64 .positive (.ofNat 11 (e + 1075).toNat) (.ofNat 52 m) := by
  have bias : Format.binary64.exponentBias = 1023 := rfl
  have bits : m.log2 + 1 = Format.binary64.mantissaBits := by
    simpa [Format.mantissaBits] using full.log2_shifted 0
  have field : (e + (1023 : Nat) + (52 : Nat)).toNat = (e + 1075).toNat := by omega
  have finite : ¬2 ^ 11 ≤ (e + 1075).toNat + 1 := by omega
  simp only [UnpackedFloat.pack, bias, field, if_neg finite, if_pos bits]

theorem Full.unpack_pack (full : Full m) (least : -1074 ≤ e) (most : e ≤ 971) :
    unpack .binary64 (UnpackedFloat.pack .binary64 (.finite .positive m e full.pos)) =
      .finite .positive m e full.pos := by
  have field : (BitVec.ofNat 11 (e + 1075).toNat).toNat = (e + 1075).toNat := by
    rw [BitVec.toNat_ofNat, Nat.mod_eq_of_lt (by omega)]
  have other (v : BitVec 11) (differs : (e + 1075).toNat ≠ v.toNat) : BitVec.ofNat 11 (e + 1075).toNat ≠ v :=
    fun same => differs (by rw [← same, field])
  have finite : BitVec.ofNat 11 (e + 1075).toNat ≠ -1#11 := other (-1#11) (by show _ ≠ 2047; omega)
  have normal : BitVec.ofNat 11 (e + 1075).toNat ≠ 0#11 := other 0#11 (by show _ ≠ 0; omega)
  have mantissa : (1#1 ++ BitVec.ofNat 52 m).toNat = m := by
    have bits := full.low
    have most := full.high
    rw [toNat_hidden, BitVec.toNat_ofNat]
    omega
  have bias : Format.binary64.exponentBias = 1023 := rfl
  have exponent : ((e + 1075).toNat : Int) - ((1023 : Nat) + (52 : Nat)) = e := by omega
  rw [full.pack least most]
  simp only [UnpackedFloat.unpack, unpackMantissa_packComponents, unpackExponent_packComponents,
    unpackSign_packComponents, Sign.ofBitVec_toBitVec, finite, normal, if_false, field, mantissa, bias, exponent]

theorem Full.parts? (full : Full m) (least : -1074 ≤ e) (most : e ≤ 971) :
    parts? (.ofModel (.pack (.finite .positive m e full.pos))) = some ⟨false, m, e⟩ := by
  rw [parts?_eq]
  exact congrArg unpackedParts? (full.unpack_pack least most)

end Rounding

section Conversion

variable {n : Nat}

/-- The bits of a whole number, followed by zeros. -/
def fullMantissa (n : Nat) : Nat := n * 2 ^ (52 - n.log2)

theorem log2_le_of_lt (small : n < 2 ^ 53) : n.log2 ≤ 52 := by
  by_cases zero : n = 0
  · simp [zero]
  · exact Nat.le_of_lt_succ ((Nat.log2_lt zero).2 small)

theorem Full.of_whole (positive : 0 < n) (small : n < 2 ^ 53) : Full (fullMantissa n) := by
  have short := log2_le_of_lt small
  constructor
  · calc 2 ^ 52 = 2 ^ n.log2 * 2 ^ (52 - n.log2) := by rw [← Nat.pow_add, Nat.add_sub_cancel' short]
      _ ≤ n * 2 ^ (52 - n.log2) := Nat.mul_le_mul_right _ (Nat.log2_self_le (Nat.ne_of_gt positive))
  · calc n * 2 ^ (52 - n.log2) < 2 ^ (n.log2 + 1) * 2 ^ (52 - n.log2) :=
          Nat.mul_lt_mul_of_pos_right Nat.lt_log2_self (Nat.two_pow_pos _)
      _ = 2 ^ 53 := by rw [← Nat.pow_add, Nat.add_right_comm, Nat.add_sub_cancel' short]

/-- A whole number below `2 ^ 53` as the model of numbers has it. -/
def wholeFloat (positive : 0 < n) (small : n < 2 ^ 53) : UnpackedFloat :=
  .finite .positive (fullMantissa n) (n.log2 - 52) (Full.of_whole positive small).pos

theorem ofNat_whole (positive : 0 < n) (small : n < 2 ^ 53) :
    UnpackedFloat.ofNat .binary64 n = wholeFloat positive small := by
  have short := log2_le_of_lt small
  have greater : compare (n : Int) 0 = .gt := by
    rw [Int.compare_eq_gt]
    omega
  have target : Format.binary64.targetExponent (totalExponent n 0) = n.log2 - 52 := by
    simp only [Format.targetExponent, totalExponent, Format.mantissaBits, Format.minExponent]
    omega
  have amount : (0 - ((n.log2 : Int) - 52)).toNat = 52 - n.log2 := by omega
  have exponent : (0 : Int) - (52 - n.log2 : Nat) = n.log2 - 52 := by omega
  have kept := (Full.of_whole positive small).roundWithAccuracy (e := n.log2 - 52) .positive 0 (by omega)
  simp only [Nat.pow_zero, Nat.mul_one, Int.natCast_zero, Int.add_zero] at kept
  simp only [UnpackedFloat.ofNat, UnpackedFloat.ofInt, UnpackedFloat.normalize, greater, Int.toNat_natCast,
    UnpackedFloat.round, target, decreaseExponent, amount, exponent, Nat.shiftLeft_eq]
  exact kept

theorem toFloat_whole (positive : 0 < n) (small : n < 2 ^ 53) :
    n.toUInt64.toFloat = .ofModel (.pack (wholeFloat positive small)) := by
  have fits : n.toUInt64.toNat = n := Nat.mod_eq_of_lt (by omega)
  show Float.ofModel (.pack (UnpackedFloat.ofNat .binary64 n.toUInt64.toNat)) = _
  rw [fits, ofNat_whole positive small]

/-- Multiplication by one is exact. -/
theorem ofScientific_whole (positive : 0 < n) (small : n < 2 ^ 53) :
    Float.ofScientific n false 0 = .ofModel (.pack (wholeFloat positive small)) := by
  have full := Full.of_whole positive small
  have short := log2_le_of_lt small
  have one : UnpackedFloat.unpack .binary64 (Float.ofBits 0x3FF0000000000000).toModel.toBits.toBitVec =
      .finite .positive (2 ^ 52) (-52) (by decide) := rfl
  have product := full.roundWithAccuracy (e := n.log2 - 52 + -52) .positive 52 (by omega)
  have exponent : (n.log2 : Int) - 52 + -52 + (52 : Nat) = n.log2 - 52 := by omega
  rw [Float.ofScientific, dif_pos ⟨small, by decide⟩]
  show n.toUInt64.toFloat * Float.ofBits 0x3FF0000000000000 = _
  rw [toFloat_whole positive small]
  show Float.ofModel (.pack (UnpackedFloat.mul .binary64
    (UnpackedFloat.unpack .binary64 (UnpackedFloat.pack .binary64 (.finite .positive (fullMantissa n) _ full.pos)))
    (UnpackedFloat.unpack .binary64 (Float.ofBits 0x3FF0000000000000).toModel.toBits.toBitVec))) = _
  rw [full.unpack_pack (by omega) (by omega), one]
  show Float.ofModel (.pack (UnpackedFloat.roundWithAccuracy .binary64 .positive _ _ .exact)) = _
  rw [product]
  simp only [exponent, wholeFloat]

theorem whole?_ofScientific (positive : 0 < n) (small : n < 2 ^ 53) :
    whole? (Float.ofScientific n false 0) = some (n : Int) := by
  have short := log2_le_of_lt small
  have exponent : (n.log2 : Int) - 52 = -(52 - n.log2 : Nat) := by omega
  rw [ofScientific_whole positive small, wholeFloat, whole?_eq_some_iff, value?,
    (Full.of_whole positive small).parts? (by omega) (by omega), exponent]
  simp [Parts.value, fullMantissa]

/-- A whole number up to `2 ^ 53` is the number nearest to it. -/
theorem whole?_nearest (small : n ≤ 2 ^ 53) : whole? (nearest n 0) = some (n : Int) := by
  rcases Nat.eq_zero_or_pos n with rfl | positive
  · decide +kernel
  rcases Nat.lt_or_eq_of_le small with small | rfl
  · have size : (Nat.toDigits 10 n).length ≤ 16 := by
      rw [Nat.length_toDigits_le_iff (by decide) (by decide)]
      exact Nat.lt_trans small (by decide)
    have direct : nearest n 0 = Float.ofScientific n false 0 := by
      rw [nearest, if_neg (by omega), if_neg (by omega), if_neg (by omega)]
      rfl
    rw [direct]
    exact whole?_ofScientific positive small
  · -- this one number is not converted by way of the 53 bits
    decide +kernel

end Conversion

section Digits

theorem digitsValue_dropZeros (digits : List Char) :
    digitsValue (digits.dropWhile (· == '0')) = digitsValue digits := by
  induction digits with
  | nil => rfl
  | cons c digits ih =>
    by_cases zero : c = '0'
    · subst zero
      exact ih
    · rw [List.dropWhile_cons_of_neg (by simpa using zero)]

theorem digitsValue_toDigits (n : Nat) : digitsValue (Nat.toDigits 10 n) = n := Nat.ofDigitChars_ten_toDigits

/-- A few digits are all read. -/
theorem ofDigits_short {digits : List Char} (short : digits.length ≤ digitsRead) :
    ofDigits digits 0 = nearest (digitsValue digits) 0 := by
  have fewer : (digits.dropWhile (· == '0')).length ≤ digitsRead :=
    Nat.le_trans (List.dropWhile_sublist _).length_le short
  simp only [ofDigits, List.take_of_length_le fewer, List.drop_of_length_le fewer, digitsValue_dropZeros]
  rfl

/-- The digits of a whole number up to `2 ^ 53` are read as that number. -/
theorem whole?_ofDigits {n : Nat} (small : n ≤ 2 ^ 53) :
    whole? (ofDigits (Nat.toDigits 10 n) 0) = some (n : Int) := by
  have short : (Nat.toDigits 10 n).length ≤ 16 := by
    rw [Nat.length_toDigits_le_iff (by decide) (by decide)]
    omega
  rw [ofDigits_short (Nat.le_trans short (by decide)), digitsValue_toDigits, whole?_nearest small]

end Digits

theorem isWhole_of_whole? {x : Float} {k : Int} (h : whole? x = some k) : isWhole x = true := by
  rw [isWhole, h]
  rfl

/-- A whole number is converted to the integer nearest to it between the ends. -/
theorem clamp_of_whole? {x : Float} {k : Int} (h : whole? x = some k) (low high : Int) :
    clamp low high x = max low (min high k) := by
  unfold whole? at h
  unfold clamp
  split at h
  · cases h
  next p parts =>
    split at h
    · cases h
      rw [parts]
    · cases h

theorem toInt64_eq_clamped {x : Float} {k : Int} (h : whole? x = some k) :
    toInt64 x = max (-2 ^ 63) (min (2 ^ 63 - 1) k) := clamp_of_whole? h _ _

/-- Whole numbers that are 64-bit integers are converted to themselves. -/
theorem toInt64_of_whole? {x : Float} {k : Int} (h : whole? x = some k) (low : -2 ^ 63 ≤ k) (high : k < 2 ^ 63) :
    toInt64 x = k := by
  rw [toInt64_eq_clamped h]
  omega

section Shifted

variable {m k n : Nat} {x : Float}

theorem parts?_bounded {p : Parts} (h : parts? x = some p) : p.mantissa < 2 ^ 53 ∧ p.exponent ≤ 971 := by
  have powers : Nat.pow 2 52 = 2 ^ 52 ∧ Nat.pow 2 63 = 2 ^ 63 ∧ Nat.pow 2 11 = 2 ^ 11 := ⟨rfl, rfl, rfl⟩
  simp only [parts?, powers] at h
  split at h
  · cases h
  · split at h <;> (cases h; dsimp only; omega)

/-- A whole number that is not negative has at most 53 bits before its last zeros. -/
theorem exists_shifted_of_whole? (h : whole? x = some (n : Int)) : ∃ m k, m < 2 ^ 53 ∧ k ≤ 971 ∧ n = m * 2 ^ k := by
  unfold whole? at h
  split at h
  · cases h
  next p parts =>
    obtain ⟨small, few⟩ := parts?_bounded parts
    split at h
    · have value : n = p.wholeMagnitude := by
        simp only [Parts.truncated, Option.some.injEq] at h
        split at h <;> omega
      rcases Int.le_total 0 p.exponent with whole | fraction
      · have one : (-p.exponent).toNat = 0 := by omega
        refine ⟨p.mantissa, p.exponent.toNat, small, by omega, ?_⟩
        rw [value, Parts.wholeMagnitude, Parts.denominator, one]
        exact Nat.div_one _
      · have none : p.exponent.toNat = 0 := by omega
        refine ⟨n, 0, ?_, by omega, (Nat.mul_one n).symm⟩
        rw [value, Parts.wholeMagnitude, none]
        exact Nat.lt_of_le_of_lt (Nat.div_le_self ..) (by simpa using small)
    · cases h

theorem Full.whole?_shifted (full : Full m) (most : k ≤ 971) :
    whole? (.ofModel (.pack (.finite .positive m k full.pos))) = some ((m * 2 ^ k : Nat) : Int) := by
  rw [whole?_eq_some_iff, value?, full.parts? (e := k) (by omega) (by omega)]
  simp [Parts.value]

theorem ofScientific_integral (some : n ≠ 0) :
    UnpackedFloat.ofScientific .binary64 n 0 = roundWithAccuracy .binary64 .positive (n * 2 ^ 53) (-53) .exact := by
  have range : (0 : Int) < 2 ^ Format.binary64.exponentBits := by decide
  have bits : Format.binary64.mantissaBits = 53 := rfl
  rw [UnpackedFloat.ofScientific, dif_neg some, if_neg (by omega), if_neg (by omega), if_pos (Int.le_refl 0)]
  simp only [UnpackedFloat.mul, bits, Nat.shiftLeft_eq, Int.toNat_zero, Nat.pow_zero, Nat.mul_one]
  rfl

/-- A whole number beyond `2 ^ 53` is rounded, which zeros at its end survive. -/
theorem Full.ofNat_shifted (full : Full m) (large : 2 ^ 53 ≤ m * 2 ^ k) :
    Float.ofNat (m * 2 ^ k) = .ofModel (.pack (.finite .positive m k full.pos)) := by
  have product := full.roundWithAccuracy (e := -53) .positive (k + 53) (by omega)
  have exponent : (-53 : Int) + (k + 53 : Nat) = k := by omega
  rw [Nat.pow_add, ← Nat.mul_assoc] at product
  show Float.ofScientific (m * 2 ^ k) false 0 = _
  rw [Float.ofScientific, dif_neg (fun small => by omega)]
  show Float.ofModel (.pack (UnpackedFloat.ofScientific .binary64 (m * 2 ^ k) 0)) = _
  rw [ofScientific_integral (by omega), product]
  simp only [exponent]

/-- A whole number that is a number of the language is converted to that number. -/
theorem whole?_ofNat (h : whole? x = some (n : Int)) : whole? (Float.ofNat n) = some (n : Int) := by
  rcases Nat.eq_zero_or_pos n with rfl | positive
  · decide +kernel
  rcases Nat.lt_or_ge n (2 ^ 53) with small | large
  · exact whole?_ofScientific positive small
  · obtain ⟨m, k, small, most, rfl⟩ := exists_shifted_of_whole? h
    have full := Full.of_whole (Nat.pos_of_mul_pos_right positive) small
    have short := log2_le_of_lt small
    -- The bits of the mantissa are moved up to the 53rd, which the zeros behind them allow.
    have zeros : 52 - m.log2 ≤ k := by
      by_contra few
      have high : m * 2 ^ k < 2 ^ (m.log2 + 1) * 2 ^ k :=
        Nat.mul_lt_mul_of_pos_right Nat.lt_log2_self (Nat.two_pow_pos k)
      rw [← Nat.pow_add] at high
      exact absurd (Nat.lt_of_le_of_lt large high) (Nat.not_lt.2 (Nat.pow_le_pow_right (by decide) (by omega)))
    have moved : m * 2 ^ k = fullMantissa m * 2 ^ (k - (52 - m.log2)) := by
      rw [fullMantissa, Nat.mul_assoc, ← Nat.pow_add, Nat.add_sub_cancel' zeros]
    rw [moved] at large ⊢
    rw [full.ofNat_shifted large, full.whole?_shifted (by omega)]

end Shifted

end Pseudocode.Number
