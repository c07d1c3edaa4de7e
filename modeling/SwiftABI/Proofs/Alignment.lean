/-
  Powers of two, and rounding up to their multiples.

  `isPowerOfTwo` decides what it says (`isPowerOfTwo_iff`), and of two powers one is a multiple of
  the other (`isPowerOfTwo.dvd`). `roundUp` gives a multiple that is not below the number
  (`dvd_roundUp`, `le_roundUp`), and the least one (`isLeast_roundUp`).
-/
import Mathlib.Algebra.Group.Int.Defs
import Mathlib.Algebra.Group.Nat.Defs
import Mathlib.Order.Bounds.Defs
import SwiftABI.Alignment

namespace SwiftABI

theorem isPowerOfTwo_iff {n : Int} : isPowerOfTwo n = true ↔ ∃ k : Nat, n = 2 ^ k := by
  unfold isPowerOfTwo
  rw [Bool.and_eq_true, decide_eq_true_iff, decide_eq_true_iff]
  constructor
  · rintro ⟨hpos, hpow⟩
    refine ⟨n.toNat.log2, ?_⟩
    have hcast : ((2 ^ n.toNat.log2 : Nat) : Int) = (n.toNat : Int) := congrArg _ hpow
    rw [Int.toNat_of_nonneg (Int.le_of_lt hpos), Int.natCast_pow] at hcast
    exact hcast.symm
  · rintro ⟨k, rfl⟩
    have htoNat : ((2 : Int) ^ k).toNat = 2 ^ k := by
      rw [show (2 : Int) ^ k =
        ((2 ^ k : Nat) : Int) by rw [Int.natCast_pow]; rfl, Int.toNat_natCast]
    exact ⟨Int.pow_pos (by decide), by rw [htoNat, Nat.log2_two_pow]⟩

theorem isPowerOfTwo.pos {n : Int} (h : isPowerOfTwo n = true) : 0 < n := by
  unfold isPowerOfTwo at h
  rw [Bool.and_eq_true, decide_eq_true_iff] at h
  exact h.1

/-- The smaller one of two powers divides the other one. -/
theorem isPowerOfTwo.dvd {a b : Nat} (ha : isPowerOfTwo a = true) (hb : isPowerOfTwo b = true)
    (hle : a ≤ b) :
    a ∣ b := by
  obtain ⟨i, hi⟩ := isPowerOfTwo_iff.mp ha
  obtain ⟨j, hj⟩ := isPowerOfTwo_iff.mp hb
  obtain rfl : a = 2 ^ i := by exact_mod_cast hi
  obtain rfl : b = 2 ^ j := by exact_mod_cast hj
  exact Nat.pow_dvd_pow 2 ((Nat.pow_le_pow_iff_right (by decide)).mp hle)

theorem dvd_roundUp (n alignment : Nat) : alignment ∣ roundUp n alignment := Nat.dvd_mul_left _ _

theorem le_roundUp {alignment : Nat} (h : 0 < alignment) (n : Nat) : n ≤ roundUp n alignment := by
  have hlt := Nat.lt_div_mul_add h (a := n + alignment - 1)
  unfold roundUp
  omega

theorem roundUp_le {n m alignment : Nat} (hpos : 0 < alignment) (hdvd : alignment ∣ m)
    (hle : n ≤ m) :
    roundUp n alignment ≤ m := by
  obtain ⟨k, rfl⟩ := hdvd
  unfold roundUp
  rw [Nat.mul_comm alignment k]
  refine Nat.mul_le_mul_right alignment (Nat.le_of_lt_succ ?_)
  rw [Nat.div_lt_iff_lt_mul hpos, Nat.succ_mul, Nat.mul_comm k alignment]
  omega

theorem isLeast_roundUp {alignment : Nat} (h : 0 < alignment) (n : Nat) :
    IsLeast {m | alignment ∣ m ∧ n ≤ m} (roundUp n alignment) :=
  ⟨⟨dvd_roundUp n alignment, le_roundUp h n⟩, fun _ hm => roundUp_le h hm.1 hm.2⟩

end SwiftABI
