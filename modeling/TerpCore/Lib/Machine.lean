/-
  Sums in 64-bit signed integers: they wrap around, and equal the exact sum while that stays in range.
-/
import Mathlib.Algebra.BigOperators.Group.List.Basic
import Mathlib.Algebra.Order.BigOperators.Group.List
import Mathlib.Algebra.Order.Ring.Int

namespace Lib

variable {α : Type}

theorem bmod_eq_self {n : ℤ} (h : -2 ^ 63 ≤ n) (h' : n < 2 ^ 63) : n.bmod (2 ^ 64) = n :=
  Int.bmod_eq_of_le (by omega) (by omega)

theorem toInt_foldl_add (f : α → Int64) : ∀ (l : List α) (a : Int64), (l.foldl (fun acc x => acc + f x) a).toInt =
      (a.toInt + (l.map fun x => (f x).toInt).sum).bmod (2 ^ 64)
  | [], a => by
    simp
  | x :: l, a => by
    rw [List.foldl_cons, toInt_foldl_add f l, Int64.toInt_add, List.map_cons, List.sum_cons,
      Int.bmod_add_bmod, add_assoc]

theorem toInt_foldl_add_zero (f : α → Int64) (l : List α) :
    (l.foldl (fun acc x => acc + f x) 0).toInt = ((l.map fun x => (f x).toInt).sum).bmod (2 ^ 64) := by
  rw [toInt_foldl_add, Int64.toInt_zero, zero_add]

theorem toInt_toInt64 {x : UInt64} (h : x.toNat < 2 ^ 63) : x.toInt64.toInt = x.toNat := by
  rw [← Int64.toInt_toBitVec, UInt64.toBitVec_toInt64, BitVec.toInt_eq_toNat_of_lt]
  · rfl
  · rw [UInt64.toNat_toBitVec]
    omega

theorem toInt_toInt64_ofNat {n : ℕ} (h : n < 2 ^ 63) : (UInt64.ofNat n).toInt64.toInt = n := by
  have hnat : (UInt64.ofNat n).toNat = n := by
    exact Nat.mod_eq_of_lt (by omega)
  rw [toInt_toInt64 (by omega), hnat]

theorem toNat_toUInt64_lt {x : Int64} (h : ¬ x < 0) : x.toUInt64.toNat < 2 ^ 63 := by
  have hnonneg : 0 ≤ x.toInt := by
    rw [Int64.lt_iff_toInt_lt, not_lt] at h
    exact h
  have hcast : x.toInt = if 2 * x.toUInt64.toNat < 2 ^ 64 then (x.toUInt64.toNat : ℤ)
      else (x.toUInt64.toNat : ℤ) - (2 ^ 64 : ℕ) := BitVec.toInt_eq_toNat_cond x.toBitVec
  have hlt := x.toUInt64.toNat_lt
  split_ifs at hcast <;> omega

theorem toNat_add_one {x : UInt64} (h : x.toNat + 1 < 2 ^ 64) : (x + 1).toNat = x.toNat + 1 := by
  exact Nat.mod_eq_of_lt h

end Lib
