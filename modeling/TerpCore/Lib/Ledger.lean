/-
  Accounts that hold coins, transfers between them, and amounts shared out by weight.
-/
import TerpCore.Lib.Coins
import Mathlib.Algebra.Order.BigOperators.Group.List

namespace Lib

open List

variable {α : Type}

/-! ## Transfers -/

def total (book : List (α × List Coin)) (denom : Bytes) : ℤ :=
  (book.map fun e => amountOf e.2 denom).sum

@[simp] theorem total_nil (denom : Bytes) : total ([] : List (α × List Coin)) denom = 0 := rfl

@[simp] theorem total_append (book book' : List (α × List Coin)) (denom : Bytes) :
    total (book ++ book') denom = total book denom + total book' denom := by
  simp [total]

theorem total_singleton (a : α) (coins : List Coin) (denom : Bytes) :
    total [(a, coins)] denom = amountOf coins denom := by
  simp [total]

section accounts

variable [DecidableEq α]

def totalOf (book : List (α × List Coin)) (a : α) (denom : Bytes) : ℤ :=
  (book.map fun e => if a = e.1 then amountOf e.2 denom else 0).sum

@[simp] theorem totalOf_nil (a : α) (denom : Bytes) : totalOf [] a denom = 0 := rfl

@[simp] theorem totalOf_append (book book' : List (α × List Coin)) (a : α) (denom : Bytes) :
    totalOf (book ++ book') a denom = totalOf book a denom + totalOf book' a denom := by
  simp [totalOf]

theorem totalOf_singleton (a b : α) (coins : List Coin) (denom : Bytes) :
    totalOf [(b, coins)] a denom = if a = b then amountOf coins denom else 0 := by
  simp [totalOf]

theorem totalOf_of_not_mem {a : α} {denom : Bytes} {book : List (α × List Coin)}
    (h : ∀ e ∈ book, e.1 ≠ a) : totalOf book a denom = 0 := by
  refine sum_eq_zero fun n hn => ?_
  obtain ⟨e, he, rfl⟩ := mem_map.mp hn
  exact if_neg (h e he).symm

/-- The balances after some coins went from one account to another. -/
def Moved (before after : α → Bytes → ℤ) (sender recipient : α) (coins : List Coin) : Prop :=
  ∀ a denom, after a denom = before a denom + (if a = recipient then amountOf coins denom else 0) -
    (if a = sender then amountOf coins denom else 0)

theorem Moved.nil {balances : α → Bytes → ℤ} {sender recipient : α} : Moved balances balances sender recipient [] := by
  intro a denom
  simp

theorem Moved.eq_of_ne {before after : α → Bytes → ℤ} {sender recipient a : α} {coins : List Coin}
    (h : Moved before after sender recipient coins) (hsender : a ≠ sender) (hrecipient : a ≠ recipient)
    (denom : Bytes) : after a denom = before a denom := by
  rw [h a denom, if_neg hrecipient, if_neg hsender, add_zero, sub_zero]

end accounts

/-! ## Shares

  `n` is shared out by weight, each share rounded down. -/

section shares

variable (n whole : ℤ) (w : α → ℤ)

def share (x : α) : ℤ := n * w x / whole

variable {n whole w}

theorem mul_share_le (hwhole : 0 < whole) (x : α) : whole * share n whole w x ≤ n * w x :=
  Int.mul_ediv_self_le hwhole.ne'

theorem mul_le_mul_share (hwhole : 0 < whole) (x : α) : n * w x ≤ whole * share n whole w x + (whole - 1) := by
  have hmod := Int.emod_lt_of_pos (n * w x) hwhole
  have hdiv := Int.mul_ediv_add_emod (n * w x) whole
  simp only [share]
  omega

theorem mul_sum_share_le (hwhole : 0 < whole) : ∀ l : List α, whole * (l.map (share n whole w)).sum ≤ n * (l.map w).sum
  | [] => by simp
  | x :: l => by
    have hx := mul_share_le (n := n) (w := w) hwhole x
    have ih := mul_sum_share_le hwhole l
    simp only [map_cons, sum_cons, mul_add]
    omega

/-- Rounding loses less than one unit for each weight that counts. -/
theorem mul_sum_le_mul_sum_share (hwhole : 0 < whole) : ∀ l : List α, (∀ x ∈ l, 0 ≤ w x) →
    n * (l.map w).sum ≤ whole * (l.map (share n whole w)).sum + (whole - 1) * (l.filter fun x => 0 < w x).length
  | [], _ => by simp
  | x :: l, h => by
    have ih := mul_sum_le_mul_sum_share hwhole l fun x hx => h x (mem_cons_of_mem _ hx)
    rcases (h x (by simp)).eq_or_lt with hzero | hpos
    · simpa [share, ← hzero] using ih
    · have hx := mul_le_mul_share (n := n) (w := w) hwhole x
      rw [filter_cons_of_pos (by simpa using hpos)]
      simp only [map_cons, sum_cons, length_cons, Nat.cast_add, mul_add]
      omega

variable {l : List α}

theorem sum_share_le (hwhole : 0 < whole) (hsum : (l.map w).sum = whole) : (l.map (share n whole w)).sum ≤ n := by
  have hle := mul_sum_share_le (n := n) (w := w) hwhole l
  rw [hsum, mul_comm n] at hle
  exact le_of_mul_le_mul_left hle hwhole

theorem lt_sum_share_add (hwhole : 0 < whole) (hsum : (l.map w).sum = whole) (h : ∀ x ∈ l, 0 ≤ w x) :
    n < (l.map (share n whole w)).sum + (l.filter fun x => 0 < w x).length := by
  have hle := mul_sum_le_mul_sum_share (n := n) hwhole l h
  have hcount : 0 < (l.filter fun x => 0 < w x).length := by
    by_contra hzero
    have hnone : ∀ x ∈ l, w x = 0 := by
      intro x hx
      by_contra hne
      have hmem : x ∈ l.filter fun x => 0 < w x :=
        mem_filter.mpr ⟨hx, by simpa using lt_of_le_of_ne (h x hx) (Ne.symm hne)⟩
      exact hzero (length_pos_of_mem hmem)
    have hmap : (l.map w).sum = 0 := sum_eq_zero fun y hy => by
      obtain ⟨x, hx, rfl⟩ := mem_map.mp hy
      exact hnone x hx
    omega
  rw [hsum] at hle
  have hlt : whole * n < whole * ((l.map (share n whole w)).sum +
      (l.filter fun x => 0 < w x).length) := by
    rw [mul_add]
    rw [sub_mul] at hle
    rw [mul_comm whole n]
    omega
  exact lt_of_mul_lt_mul_left hlt hwhole.le

end shares

end Lib
