/-
  Reads and writes of a slice at computed places, which panic if they are out of range; and buffers that are filled
  from their end.
-/
import Mathlib.Algebra.Order.Ring.Int

namespace Lib

open List

variable {α : Type}

/-- `l[lo:hi]`; `none` is a panic. -/
def slice (l : List α) (lo hi : ℤ) : Option (List α) :=
  if 0 ≤ lo ∧ lo ≤ hi ∧ hi ≤ l.length then some ((l.drop lo.toNat).take (hi - lo).toNat) else none

theorem slice_eq_some {l : List α} {lo hi : ℤ} (h : 0 ≤ lo ∧ lo ≤ hi ∧ hi ≤ l.length) :
    slice l lo hi = some ((l.drop lo.toNat).take (hi - lo).toNat) := if_pos h

theorem slice_zero {l : List α} {n : ℤ} (h : 0 ≤ n ∧ n ≤ l.length) : slice l 0 n = some (l.take n.toNat) := by
  rw [slice_eq_some ⟨le_rfl, h⟩, Int.sub_zero]
  rfl

theorem slice_length {l : List α} {n : ℤ} (h : 0 ≤ n ∧ n ≤ l.length) : slice l n l.length = some (l.drop n.toNat) := by
  rw [slice_eq_some ⟨h.1, h.2, le_rfl⟩, take_of_length_le]
  rw [length_drop]
  omega

/-- `l[i]` -/
def index (l : List α) (i : ℤ) : Option α := if 0 ≤ i then l[i.toNat]? else none

/-- `l[i] = a` -/
def assign (l : List α) (i : ℤ) (a : α) : Option (List α) :=
  if 0 ≤ i ∧ i < l.length then some (l.set i.toNat a) else none

/-- `copy(l[i:], src)`, which copies what there is room for. -/
def copyAt (l : List α) (i : ℤ) (src : List α) : Option (List α) :=
  if 0 ≤ i ∧ i ≤ l.length then
    let n := min src.length (l.length - i.toNat)
    some (l.take i.toNat ++ src.take n ++ l.drop (i.toNat + n))
  else none

theorem index_append (pre : List α) (a : α) (suf : List α) : index (pre ++ a :: suf) pre.length = some a := by
  rw [index]
  simp

theorem assign_append (pre : List α) (a b : α) (suf : List α) :
    assign (pre ++ a :: suf) pre.length b = some (pre ++ b :: suf) := by
  rw [assign]
  simp

theorem copyAt_append {pre hole suf src : List α} (h : hole.length = src.length) :
    copyAt (pre ++ (hole ++ suf)) pre.length src = some (pre ++ (src ++ suf)) := by
  have hroom : min src.length ((pre ++ (hole ++ suf)).length - pre.length) = src.length := by
    simp only [length_append]
    omega
  have hdrop : (pre ++ (hole ++ suf)).drop (pre.length + src.length) = suf := by
    rw [← h, ← length_append, ← append_assoc, drop_left]
  rw [copyAt, if_pos (by simp only [length_append]; omega)]
  dsimp only
  rw [Int.toNat_natCast, hroom, take_length, hdrop, take_left, append_assoc]

end Lib
