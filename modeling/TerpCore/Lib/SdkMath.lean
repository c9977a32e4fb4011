/-
  The checked arithmetic of the Cosmos SDK: `math.Int`, an integer of at most 256 bits, and
  `math.LegacyDec`, a decimal with eighteen places.  An operation that leaves its range panics (`none`).
-/
import Mathlib.Algebra.Order.Field.Basic
import Mathlib.Algebra.Order.Ring.Rat
import Mathlib.Data.Rat.Floor
import Mathlib.Data.Int.Order.Basic
import Mathlib.Tactic.Linarith

namespace Lib

/-- The magnitude of `n` has at most `k` bits. -/
def fitsBits (k : Nat) (n : ℤ) : Bool := n.natAbs.log2 < k

theorem fitsBits_iff {k : Nat} {n : ℤ} (hk : 0 < k) : fitsBits k n ↔ n.natAbs < 2 ^ k := by
  by_cases hn : n.natAbs = 0
  · simp [fitsBits, hn, hk]
  · simp [fitsBits, Nat.log2_lt hn]

theorem fitsBits_mono {k k' : Nat} {n : ℤ} (hk : k ≤ k') (h : fitsBits k n) : fitsBits k' n := by
  simp only [fitsBits, decide_eq_true_eq] at h ⊢
  omega

namespace SdkInt

def add (a b : ℤ) : Option ℤ := if fitsBits 256 (a + b) then some (a + b) else none

def mul (a b : ℤ) : Option ℤ := if fitsBits 256 (a * b) then some (a * b) else none

/-- Division truncates towards zero. -/
def quo (a b : ℤ) : Option ℤ := if b = 0 then none else some (a.tdiv b)

def int64 (n : ℤ) : Option Int64 :=
  if -2 ^ 63 ≤ n ∧ n < 2 ^ 63 then some (Int64.ofInt n) else none

def uint64 (n : ℤ) : Option UInt64 :=
  if 0 ≤ n ∧ n < 2 ^ 64 then some (UInt64.ofNat n.toNat) else none

end SdkInt

/-- A decimal: `num` counts units of `10⁻¹⁸`. -/
structure LegacyDec where
  num : ℤ
  deriving DecidableEq, Repr

namespace LegacyDec

/-- One, in units of the last place. -/
def unit : ℤ := 10 ^ 18

def mulInt64 (d : LegacyDec) (i : Int64) : Option LegacyDec :=
  if fitsBits 315 (d.num * i.toInt) then some ⟨d.num * i.toInt⟩ else none

/-- Truncation is towards zero. -/
def truncateInt (d : LegacyDec) : Option ℤ :=
  if fitsBits 256 (d.num.tdiv unit) then some (d.num.tdiv unit) else none

/-- The last eighteen places are cut off, and the rest is rounded to the nearest, half to even. -/
def chopNat (n : ℕ) : ℕ :=
  let quo := n / 10 ^ 18
  let rem := n % 10 ^ 18
  if rem < 5 * 10 ^ 17 then quo
  else if 5 * 10 ^ 17 < rem then quo + 1
  else if quo % 2 = 0 then quo else quo + 1

def chopPrecisionAndRound (n : ℤ) : ℤ := if n < 0 then -chopNat n.natAbs else chopNat n.natAbs

/-- `NewDec`. -/
def ofInt64 (i : Int64) : LegacyDec := ⟨i.toInt * unit⟩

def mul (d e : LegacyDec) : Option LegacyDec :=
  if fitsBits 315 (chopPrecisionAndRound (d.num * e.num)) then some ⟨chopPrecisionAndRound (d.num * e.num)⟩
  else none

def mulTruncate (d e : LegacyDec) : Option LegacyDec :=
  if fitsBits 315 ((d.num * e.num).tdiv unit) then some ⟨(d.num * e.num).tdiv unit⟩ else none

def add (d e : LegacyDec) : Option LegacyDec := if fitsBits 315 (d.num + e.num) then some ⟨d.num + e.num⟩ else none

def sub (d e : LegacyDec) : Option LegacyDec := if fitsBits 315 (d.num - e.num) then some ⟨d.num - e.num⟩ else none

def mulInt (d : LegacyDec) (i : ℤ) : Option LegacyDec :=
  if fitsBits 315 (d.num * i) then some ⟨d.num * i⟩ else none

/-- Division truncates towards zero. -/
def quoInt64 (d : LegacyDec) (i : Int64) : Option LegacyDec := if i = 0 then none else some ⟨d.num.tdiv i.toInt⟩

def ceil (d : LegacyDec) : LegacyDec :=
  if 0 < d.num.tmod unit then ⟨(d.num.tdiv unit + 1) * unit⟩ else ⟨d.num.tdiv unit * unit⟩

def roundInt (d : LegacyDec) : Option ℤ :=
  if fitsBits 256 (chopPrecisionAndRound d.num) then some (chopPrecisionAndRound d.num) else none

/-- The rational number a decimal stands for. -/
def toRat (d : LegacyDec) : ℚ := d.num / unit

theorem unit_pos : 0 < unit := by decide

theorem unit_pos_rat : (0 : ℚ) < unit := by exact_mod_cast unit_pos

/-! ## Rounding -/

theorem chopNat_mul (n : ℕ) : chopNat (n * 10 ^ 18) = n := by
  rw [chopNat, Nat.mul_div_cancel _ (by decide), Nat.mul_mod_left, if_pos (by decide)]

theorem chopPrecisionAndRound_mul_unit (n : ℤ) : chopPrecisionAndRound (n * unit) = n := by
  have habs : (n * unit).natAbs = n.natAbs * 10 ^ 18 := by rw [Int.natAbs_mul]; rfl
  have hsign : n * unit < 0 ↔ n < 0 :=
    ⟨fun h => neg_of_mul_neg_left h unit_pos.le, fun h => mul_neg_of_neg_of_pos h unit_pos⟩
  rw [chopPrecisionAndRound, habs, chopNat_mul]
  split_ifs with hn
  · omega
  · omega

/-- What is cut off is less than a half, or a half of an even number. -/
def RoundsDown (n : ℤ) : Prop := 2 * (n % unit) < unit ∨ 2 * (n % unit) = unit ∧ n / unit % 2 = 0

instance (n : ℤ) : Decidable (RoundsDown n) :=
  inferInstanceAs (Decidable (2 * (n % unit) < unit ∨ 2 * (n % unit) = unit ∧ n / unit % 2 = 0))

theorem chopPrecisionAndRound_of_nonneg {n : ℤ} (h : 0 ≤ n) :
    chopPrecisionAndRound n = if RoundsDown n then n / unit else n / unit + 1 := by
  obtain ⟨k, rfl⟩ := Int.eq_ofNat_of_zero_le h
  have hunit : unit = 10 ^ 18 := rfl
  simp only [chopPrecisionAndRound, if_neg h.not_gt, Int.natAbs_natCast, chopNat, RoundsDown, hunit]
  split_ifs <;> omega

theorem mul_ofInt64 (d : LegacyDec) (i : Int64) : d.mul (ofInt64 i) = d.mulInt i.toInt := by
  rw [mul, ofInt64, ← mul_assoc, chopPrecisionAndRound_mul_unit, mulInt]

theorem ceil_num (d : LegacyDec) : d.ceil.num = ⌈d.toRat⌉ * unit := by
  have hunit := unit_pos_rat
  have hdiv := Int.tmod_add_mul_tdiv d.num unit
  have hlt := Int.tmod_lt_of_pos d.num unit_pos
  have hneg := Int.lt_tmod_of_pos d.num unit_pos
  have hceil : ∀ q : ℤ, d.num ≤ q * unit → (q - 1) * unit < d.num → ⌈d.toRat⌉ = q := by
    intro q hle hgt
    rw [Int.ceil_eq_iff, toRat, lt_div_iff₀ hunit, div_le_iff₀ hunit]
    exact ⟨by exact_mod_cast hgt, by exact_mod_cast hle⟩
  rw [ceil]
  split_ifs with hrem
  · rw [hceil (d.num.tdiv unit + 1) (by linarith) (by linarith)]
  · rw [hceil (d.num.tdiv unit) (by linarith) (by linarith)]

theorem roundInt_ceil (d : LegacyDec) : d.ceil.roundInt = if fitsBits 256 ⌈d.toRat⌉ then some ⌈d.toRat⌉ else none := by
  rw [roundInt, ceil_num, chopPrecisionAndRound_mul_unit]

/-! ## A fraction of a 64-bit total -/

section fraction

variable {d : LegacyDec} (h0 : 0 ≤ d.num) (h1 : d.num ≤ unit)
include h0 h1

theorem fraction_tdiv_nonneg {t : ℤ} (ht : 0 ≤ t) : 0 ≤ (d.num * t).tdiv unit ∧ (d.num * t).tdiv unit ≤ t := by
  have hprod : 0 ≤ d.num * t := mul_nonneg h0 ht
  rw [Int.tdiv_eq_ediv_of_nonneg hprod]
  refine ⟨Int.ediv_nonneg hprod unit_pos.le, Int.ediv_le_of_le_mul unit_pos ?_⟩
  rw [mul_comm t]
  exact mul_le_mul_of_nonneg_right h1 ht

theorem fraction_tdiv_nonpos {t : ℤ} (ht : t ≤ 0) : t ≤ (d.num * t).tdiv unit ∧ (d.num * t).tdiv unit ≤ 0 := by
  have hneg := fraction_tdiv_nonneg h0 h1 (t := -t) (by omega)
  rw [mul_neg, Int.neg_tdiv] at hneg
  omega

theorem fraction_tdiv_range (t : Int64) :
    -2 ^ 63 ≤ (d.num * t.toInt).tdiv unit ∧ (d.num * t.toInt).tdiv unit < 2 ^ 63 := by
  have hlo := t.le_toInt
  have hhi := t.toInt_lt
  rcases le_total 0 t.toInt with ht | ht
  · have := fraction_tdiv_nonneg h0 h1 ht
    omega
  · have := fraction_tdiv_nonpos h0 h1 ht
    omega

theorem mulInt64_of_fraction (t : Int64) : d.mulInt64 t = some ⟨d.num * t.toInt⟩ := by
  have hfit : fitsBits 200 (d.num * t.toInt) := by
    rw [fitsBits_iff (by decide), Int.natAbs_mul]
    have hlo := t.le_toInt
    have hhi := t.toInt_lt
    have hd : d.num.natAbs ≤ 10 ^ 18 := by
      have : d.num ≤ 10 ^ 18 := h1
      omega
    have ht : t.toInt.natAbs ≤ 2 ^ 63 := by omega
    calc d.num.natAbs * t.toInt.natAbs ≤ 10 ^ 18 * 2 ^ 63 := Nat.mul_le_mul hd ht
      _ < 2 ^ 200 := by decide
  rw [mulInt64, if_pos (fitsBits_mono (by decide) hfit)]

theorem truncateInt_of_fraction (t : Int64) : truncateInt ⟨d.num * t.toInt⟩ = some ((d.num * t.toInt).tdiv unit) := by
  have hrange := fraction_tdiv_range h0 h1 t
  have hfit : fitsBits 256 ((d.num * t.toInt).tdiv unit) := by
    rw [fitsBits_iff (by decide)]
    have h63 : ((d.num * t.toInt).tdiv unit).natAbs ≤ 2 ^ 63 := by omega
    exact h63.trans_lt (by decide)
  rw [truncateInt, if_pos hfit]

theorem int64_of_fraction (t : Int64) :
    ∃ th : Int64, SdkInt.int64 ((d.num * t.toInt).tdiv unit) = some th ∧ th.toInt = (d.num * t.toInt).tdiv unit := by
  have hrange := fraction_tdiv_range h0 h1 t
  refine ⟨_, if_pos hrange, ?_⟩
  exact Int64.toInt_ofInt_of_le hrange.1 hrange.2

end fraction

/-! ## Comparisons as rational numbers -/

theorem toRat_mul_le_iff {d : LegacyDec} {t p : ℤ} : d.toRat * t ≤ p ↔ d.num * t ≤ p * unit := by
  rw [toRat, div_mul_eq_mul_div, div_le_iff₀ unit_pos_rat]
  exact_mod_cast Iff.rfl

theorem half_lt_toRat_iff {d : LegacyDec} : 1 / 2 < d.toRat ↔ unit < 2 * d.num := by
  rw [toRat, lt_div_iff₀ unit_pos_rat, div_mul_eq_mul_div, div_lt_iff₀ (by norm_num), one_mul, mul_comm]
  exact_mod_cast Iff.rfl

end LegacyDec

end Lib
