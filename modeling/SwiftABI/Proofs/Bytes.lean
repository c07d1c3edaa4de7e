/-
  Integers and their bytes.

  `Bytes.ofNat` writes the lowest digits of a number to the base 256, and `Bytes.toNat` reads them
  (`toNat_ofNat`, `ofNat_toNat`). With a sign, an integer comes back if it fits (`toSigned_ofNat`),
  which is a matter of the range that it is in (`fitsSigned_iff`).
-/
import Mathlib.Algebra.Group.Int.Defs
import Mathlib.Algebra.Group.Nat.Defs
import SwiftABI.Bytes

namespace SwiftABI.Bytes

@[simp]
theorem length_ofNat (size n : Nat) : (ofNat size n).length = size := by
  induction size generalizing n with
  | zero => rfl
  | succ size ih => rw [ofNat, List.length_cons, ih]

/-- Of a number that is too large, the low bytes are kept. -/
theorem toNat_ofNat (size n : Nat) : (ofNat size n).toNat = n % 256 ^ size := by
  induction size generalizing n with
  | zero => rw [Nat.pow_zero, Nat.mod_one]; rfl
  | succ size ih =>
    have hbyte : (UInt8.ofNat (n % 256)).toNat = n % 256 := by
      rw [UInt8.toNat_ofNat']
      omega
    rw [ofNat, toNat, ih, hbyte, Nat.pow_succ', Nat.mod_mul]

/-- Bytes are the digits of the number that they stand for. -/
theorem ofNat_toNat (bs : Bytes) : ofNat bs.length bs.toNat = bs := by
  induction bs with
  | nil => rfl
  | cons b bs ih =>
    have hbyte := UInt8.toNat_lt b
    have hlow : (b.toNat + 256 * toNat bs) % 256 = b.toNat := by omega
    have hhigh : (b.toNat + 256 * toNat bs) / 256 = toNat bs := by omega
    rw [List.length_cons, ofNat, toNat, hlow, hhigh, ih, UInt8.ofNat_toNat]

/-- The bytes that come first are the low ones. -/
theorem toNat_append (bs bs' : Bytes) :
    (bs ++ bs').toNat = bs.toNat + 256 ^ bs.length * bs'.toNat := by
  induction bs with
  | nil => rw [List.nil_append, List.length_nil, Nat.pow_zero, Nat.one_mul, toNat, Nat.zero_add]
  | cons b bs ih =>
    rw [List.cons_append, toNat, ih, toNat, List.length_cons, Nat.pow_succ', Nat.mul_add,
      Nat.mul_assoc, Nat.add_assoc]

theorem toNat_lt (bs : Bytes) : bs.toNat < patterns bs.length := by
  unfold patterns
  induction bs with
  | nil => exact Nat.one_pos
  | cons b bs ih =>
    have hbyte := UInt8.toNat_lt b
    rw [toNat, List.length_cons, Nat.pow_succ']
    omega

/-- If some bytes are below the highest numbers, so are bytes in which they come last, -/
theorem toNat_append_add_lt {bs bs' : Bytes} {k : Nat} (h : bs'.toNat + k < patterns bs'.length) :
    (bs ++ bs').toNat + k < patterns (bs ++ bs').length := by
  have hlow := bs.toNat_lt
  rw [toNat_append, List.length_append]
  unfold patterns at *
  rw [Nat.pow_add]
  -- What the low bytes can add is less than the weight of the others.
  have hweight : k ≤ 256 ^ bs.length * k := Nat.le_mul_of_pos_left k (by omega)
  have hstep := Nat.mul_le_mul_left (256 ^ bs.length) (Nat.succ_le_of_lt h)
  rw [Nat.mul_succ, Nat.mul_add] at hstep
  omega

/-- and so are bytes in which they come first. -/
theorem toNat_append_add_lt' {bs bs' : Bytes} {k : Nat} (h : bs.toNat + k < patterns bs.length) :
    (bs ++ bs').toNat + k < patterns (bs ++ bs').length := by
  have hhigh := bs'.toNat_lt
  rw [toNat_append, List.length_append]
  unfold patterns at *
  rw [Nat.pow_add]
  have hstep := Nat.mul_le_mul_left (256 ^ bs.length) (Nat.succ_le_of_lt hhigh)
  rw [Nat.mul_succ] at hstep
  omega

/-- Bytes are below the highest numbers if some bytes anywhere in them are. -/
theorem toNat_add_lt_of_slice {bs : Bytes} {offset size k : Nat} (hsize : offset + size ≤ bs.length)
    (h : toNat ((bs.drop offset).take size) + k < patterns size) :
    bs.toNat + k < patterns bs.length := by
  have hslice : ((bs.drop offset).take size).length = size := by
    rw [List.length_take, List.length_drop]
    omega
  rw [← List.take_append_drop offset bs, ← List.take_append_drop size (bs.drop offset)]
  exact toNat_append_add_lt (toNat_append_add_lt' (by rwa [hslice]))

theorem patterns_mono {size size' : Nat} (h : size ≤ size') : patterns size ≤ patterns size' :=
  Nat.pow_le_pow_right (by decide) h

theorem patterns_eq (size : Nat) : patterns size = 2 ^ (8 * size) := by rw [patterns, Nat.pow_mul]

theorem natCast_patterns (size : Nat) : (patterns size : Int) = 2 ^ (8 * size) := by
  rw [patterns_eq]
  push_cast
  rfl

/-! ### Signs -/

/-- The bytes of an integer without a sign stand for its remainder. -/
theorem toNat_ofNat_emod (size : Nat) (value : Int) :
    ((ofNat size (value % (256 ^ size : Nat)).toNat).toNat : Int) = value % (256 ^ size : Nat) := by
  have hpos : (0 : Int) < (256 ^ size : Nat) := by exact_mod_cast Nat.pow_pos (by decide)
  have hnonneg := Int.emod_nonneg value (Int.ne_of_gt hpos)
  have hlt := Int.emod_lt_of_pos value hpos
  rw [toNat_ofNat, Nat.mod_eq_of_lt (by omega), Int.toNat_of_nonneg hnonneg]

/-- The integers that some bytes can hold with a sign. -/
theorem fitsSigned_iff {size : Nat} (hsize : size ≠ 0) {value : Int} :
    fitsSigned size value = true ↔ -(2 ^ (8 * size - 1)) ≤ value ∧ value < 2 ^ (8 * size - 1) := by
  have hpow : ((256 ^ size : Nat) : Int) = 2 * 2 ^ (8 * size - 1) := by
    have h := patterns_eq size
    rw [patterns, show 8 * size = (8 * size - 1) + 1 by omega, Nat.pow_succ'] at h
    rw [h]
    push_cast
    rfl
  rw [fitsSigned, if_neg hsize, hpow, Bool.and_eq_true, decide_eq_true_iff, decide_eq_true_iff]
  omega

/-- An integer that fits is read back with its sign. -/
theorem toSigned_ofNat {size : Nat} (hsize : size ≠ 0) {value : Int}
    (h : fitsSigned size value = true) :
    (ofNat size (value % (256 ^ size : Nat)).toNat).toSigned = value := by
  rw [fitsSigned, if_neg hsize, Bool.and_eq_true, decide_eq_true_iff, decide_eq_true_iff] at h
  have hmod := toNat_ofNat_emod size value
  unfold toSigned
  rw [length_ofNat]
  generalize (ofNat size _).toNat = n at hmod ⊢
  generalize 256 ^ size = k at h hmod ⊢
  by_cases hneg : value < 0
  · -- A negative value is one period below its remainder.
    have hremainder : value % k = value + k := by
      rw [← Int.add_emod_right, Int.emod_eq_of_lt (by omega) (by omega)]
    rw [if_neg (by omega)]
    omega
  · rw [Int.emod_eq_of_lt (by omega) (by omega)] at hmod
    rw [if_pos (by omega)]
    exact hmod

end SwiftABI.Bytes
