/-
Module: AbcBuild.Proofs.Numerals
Purpose: The numbers that constants stand for.  A double stands for a rational number, for an infinity or for
  no number; every integer of 32 bits has a double that stands for it.
Main exports: Numeral, Double.numeral, Double.numeral_ofNat, ConstantValue.numeral?
-/
import AbcBuild.Class.Member
import Mathlib.Algebra.Field.Rat
import Mathlib.Algebra.Order.Ring.Rat

namespace AbcBuild

/-- What a number constant stands for. -/
inductive Numeral where
  | finite (value : ℚ)
  | infinite (negative : Bool)
  | notANumber
deriving DecidableEq

namespace Double

/-- The number that a double stands for; both zeros stand for 0. -/
def numeral (d : Double) : Numeral :=
  if d.isNaN then .notANumber
  else if d.isInfinite then .infinite d.negative
  else .finite ((if d.negative then -1 else 1) * d.mantissa * 2 ^ d.exponent)

/-- A normal double is told by its sign, its exponent and its fraction. -/
theorem numeral_of_fields {d : Double} {negative : Bool} {e f : Nat}
    (bits : d.bits.toNat = negative.toNat * signBit + e * leadingBit + f) (normal : 0 < e ∧ e < 2047)
    (small : f < leadingBit) :
    d.numeral = .finite ((if negative then -1 else 1) * ((leadingBit + f : Nat) : ℚ) * 2 ^
      ((e : ℤ) - 1075)) := by
  have sign : negative.toNat * signBit = negative.toNat * 2048 * leadingBit := by
    rw [Nat.mul_assoc]
    rfl
  have whole : d.bits.toNat = (negative.toNat * 2048 + e) * leadingBit + f := by
    rw [bits, sign, Nat.add_mul]
  have positive : 0 < leadingBit := by decide
  have hfraction : d.fraction = f := by
    rw [fraction, whole, Nat.mul_comm, Nat.mul_add_mod, Nat.mod_eq_of_lt small]
  have hbiased : d.biased = e := by
    rw [biased, whole, Nat.mul_comm, Nat.mul_add_div positive, Nat.div_eq_of_lt small, Nat.add_zero,
      Nat.mul_comm negative.toNat, Nat.mul_add_mod, Nat.mod_eq_of_lt (by omega)]
  have hnegative : d.negative = negative := by
    have bound : e * leadingBit + f < signBit := by
      have high : e * leadingBit + leadingBit ≤ 2047 * leadingBit := by
        rw [← Nat.succ_mul]
        exact Nat.mul_le_mul_right _ (by omega)
      have room : 2047 * leadingBit < signBit := by decide
      omega
    rw [Double.negative, bits]
    cases negative with
    | false => simpa using bound
    | true => simp [Nat.add_assoc]
  have mantissa : d.mantissa = leadingBit + f := by
    rw [Double.mantissa, hbiased, hfraction, if_neg (by omega)]
  have exponent : d.exponent = (e : ℤ) - 1075 := by
    rw [Double.exponent, hbiased, if_neg (by omega)]
  have regular : d.biased ≠ 2047 := by omega
  rw [numeral, mantissa, exponent, hnegative]
  simp [isNaN, isInfinite, regular]

/-- The digits of a number below 2^53, moved up until the leading one stands at its place. -/
theorem scaled_bounds {n : Nat} (positive : n ≠ 0) (bound : n < 2 ^ 53) :
    leadingBit ≤ n * 2 ^ (52 - n.log2) ∧ n * 2 ^ (52 - n.log2) < 2 * leadingBit := by
  have top : n.log2 ≤ 52 := by
    have := (Nat.log2_lt positive).2 bound
    omega
  have leading : leadingBit = 2 ^ n.log2 * 2 ^ (52 - n.log2) := by
    rw [← Nat.pow_add, Nat.add_sub_cancel' top]
    rfl
  have low := Nat.log2_self_le positive
  have high : n < 2 ^ n.log2 * 2 := Nat.pow_succ 2 n.log2 ▸ Nat.lt_log2_self
  rw [leading]
  constructor
  · exact Nat.mul_le_mul_right _ low
  · rw [← Nat.mul_assoc, Nat.mul_comm 2]
    exact Nat.mul_lt_mul_of_pos_right high (Nat.two_pow_pos _)

/-- The bits of a positive number below 2^53, and the number that they are read as. -/
theorem ofNat_fields {n : Nat} (positive : n ≠ 0) (bound : n < 2 ^ 53) :
    ∃ e f, (ofNat n).bits.toNat = e * leadingBit + f ∧ (0 < e ∧ e < 2047) ∧ f < leadingBit ∧
      ((leadingBit + f : Nat) : ℚ) * 2 ^ ((e : ℤ) - 1075) = n := by
  obtain ⟨low, high⟩ := scaled_bounds positive bound
  have top : n.log2 ≤ 52 := by
    have := (Nat.log2_lt positive).2 bound
    omega
  refine ⟨n.log2 + 1023, n * 2 ^ (52 - n.log2) - leadingBit, ?_, by omega, by omega, ?_⟩
  · have fits : (n.log2 + 1023) * leadingBit + (n * 2 ^ (52 - n.log2) - leadingBit) < UInt64.size := by
      have exponent : (n.log2 + 1023) * leadingBit ≤ 1075 * leadingBit := Nat.mul_le_mul_right _ (by omega)
      have room : 1076 * leadingBit < UInt64.size := by decide
      omega
    rw [ofNat, if_neg positive]
    exact UInt64.toNat_ofNat_of_lt' fits
  · have back : (((n.log2 + 1023 : Nat) : ℤ) - 1075) = -((52 - n.log2 : Nat) : ℤ) := by omega
    have whole : leadingBit + (n * 2 ^ (52 - n.log2) - leadingBit) = n * 2 ^ (52 - n.log2) := by omega
    rw [back, whole, Nat.cast_mul, Nat.cast_pow, Nat.cast_ofNat, zpow_neg, zpow_natCast, mul_assoc,
      mul_inv_cancel₀ (pow_ne_zero _ two_ne_zero), mul_one]

/-- Natural numbers below 2^53 have doubles that stand for them. -/
theorem numeral_ofNat {n : Nat} (bound : n < 2 ^ 53) : (ofNat n).numeral = .finite n := by
  by_cases zero : n = 0
  · subst zero
    simp [numeral, ofNat, isNaN, isInfinite, biased, mantissa, fraction]
  · obtain ⟨e, f, bits, normal, small, value⟩ := ofNat_fields zero bound
    have fields : (ofNat n).bits.toNat = false.toNat * signBit + e * leadingBit + f := by simpa using bits
    rw [numeral_of_fields fields normal small, mul_assoc, value]
    simp

/-- Integers of magnitude below 2^53 have doubles that stand for them. -/
theorem numeral_ofInt {v : Int} (bound : v.natAbs < 2 ^ 53) : (ofInt v).numeral = .finite v := by
  by_cases negative : v < 0
  · obtain ⟨e, f, bits, normal, small, value⟩ := ofNat_fields (Int.natAbs_ne_zero.2 negative.ne) bound
    have low : (ofNat v.natAbs).bits.toNat < signBit := by
      have high : (e + 1) * leadingBit ≤ 2047 * leadingBit := Nat.mul_le_mul_right _ (by omega)
      have room : 2047 * leadingBit < signBit := by decide
      rw [Nat.succ_mul] at high
      omega
    have fields : (ofInt v).bits.toNat = true.toNat * signBit + e * leadingBit + f := by
      have joined := Nat.two_pow_add_eq_or_of_lt (i := 63) low 1
      rw [ofInt, if_pos negative, UInt64.toNat_or, UInt64.toNat_ofNat_of_lt' (by decide)]
      rw [Nat.mul_one] at joined
      rw [Bool.toNat_true, Nat.one_mul, Nat.add_assoc, ← bits]
      exact joined.symm
    have magnitude : ((v.natAbs : Nat) : ℚ) = -(v : ℚ) := by
      rw [← Int.cast_natCast, Int.ofNat_natAbs_of_nonpos negative.le, Int.cast_neg]
    rw [numeral_of_fields fields normal small, mul_assoc, value, magnitude]
    simp
  · have nonneg : ((v.toNat : Nat) : ℚ) = (v : ℚ) := by
      rw [← Int.cast_natCast, Int.toNat_of_nonneg (not_lt.1 negative)]
    rw [ofInt, if_neg negative, numeral_ofNat (by omega), nonneg]

end Double

/-! ### Integers of 32 bits -/

theorem toNat_toUInt32 {v : Int32} (nonneg : 0 ≤ v.toInt) : ((v.toUInt32.toNat : Nat) : Int) = v.toInt := by
  have bits : v.toInt = if 2 * v.toUInt32.toNat < 2 ^ 32 then
      (v.toUInt32.toNat : Int) else v.toUInt32.toNat - 2 ^ 32 :=
    BitVec.toInt_eq_toNat_cond _
  have bound := v.toUInt32.toNat_lt
  split at bits <;> omega

/-- As a signed number an unsigned one from 2^31 on is negative. -/
theorem toInt_toInt32 (v : UInt32) :
    v.toInt32.toInt = if v.toNat < 2 ^ 31 then (v.toNat : Int) else v.toNat - 2 ^ 32 := by
  have bits : v.toInt32.toInt = if 2 * v.toNat < 2 ^ 32 then (v.toNat : Int) else v.toNat - 2 ^ 32 :=
    BitVec.toInt_eq_toNat_cond _
  rw [bits]
  split <;> split <;> omega

namespace ConstantValue

/-- The number that a constant stands for, if it is one of the three kinds of numbers. -/
def numeral? : ConstantValue → Option Numeral
  | .int value => some (.finite value.toInt)
  | .uint value => some (.finite value.toNat)
  | .number value => some value.numeral
  | _ => none

end ConstantValue

end AbcBuild
