/-
  The coins of the Cosmos SDK, with the checks of its constructors.
-/
import TerpCore.Lib.Bytes
import TerpCore.Lib.SdkMath
import Mathlib.Algebra.BigOperators.Group.List.Basic

namespace Lib

open List

structure Coin where
  denom : Bytes
  amount : ℤ
  deriving DecidableEq

def Coin.isPositive (c : Coin) : Bool := 0 < c.amount

/-- `[a-zA-Z][a-zA-Z0-9/:._-]{2,127}`. -/
def validDenom (denom : Bytes) : Bool :=
  (match denom with
    | [] => false
    | c :: cs => letter c && cs.all rest) && 3 ≤ denom.length && denom.length ≤ 128
where
  letter (c : UInt8) : Bool := (0x41 ≤ c && c ≤ 0x5a) || (0x61 ≤ c && c ≤ 0x7a)
  rest (c : UInt8) : Bool := letter c || (0x30 ≤ c && c ≤ 0x39) || c ∈ ascii "/:._-"

/-- `sdk.NewCoin`, which panics on an invalid denomination or a negative amount. -/
def newCoin (denom : Bytes) (amount : ℤ) : Option Coin :=
  if validDenom denom ∧ 0 ≤ amount then some ⟨denom, amount⟩ else none

/-- A price in some denomination. -/
structure DecCoin where
  denom : Bytes
  amount : LegacyDec
  deriving DecidableEq

/-- `sdk.NewCoins` of one coin: a zero coin is dropped, an invalid one panics. -/
def newCoins (c : Coin) : Option (List Coin) :=
  if c.amount = 0 then some []
  else if 0 < c.amount ∧ validDenom c.denom then some [c] else none

/-- `Coins.Validate() == nil`: positive coins of valid denominations, in strictly increasing order. -/
def validCoins : List Coin → Bool
  | [] => true
  | [c] => validDenom c.denom && c.isPositive
  | c :: c' :: cs => validDenom c.denom && c.isPositive && Bytes.lt c.denom c'.denom && validCoins (c' :: cs)

/-- `Coin.Add`, which panics on two denominations. -/
def Coin.add (a b : Coin) : Option Coin :=
  if a.denom = b.denom then (SdkInt.add a.amount b.amount).map fun n => ⟨a.denom, n⟩ else none

def Coin.of (c : Coin) (denom : Bytes) : ℤ := if c.denom = denom then c.amount else 0

/-! ## Amounts of lists of coins -/

def amountOf (coins : List Coin) (denom : Bytes) : ℤ := (coins.map fun c => c.of denom).sum

@[simp] theorem amountOf_nil (denom : Bytes) : amountOf [] denom = 0 := rfl

@[simp] theorem amountOf_cons (c : Coin) (coins : List Coin) (denom : Bytes) :
    amountOf (c :: coins) denom = c.of denom + amountOf coins denom := by
  rw [amountOf, map_cons, sum_cons, amountOf]

theorem amountOf_perm {coins coins' : List Coin} (h : coins.Perm coins') (denom : Bytes) :
    amountOf coins denom = amountOf coins' denom :=
  (h.map fun c : Coin => c.of denom).sum_eq

theorem amountOf_newCoins {c : Coin} {coins : List Coin} (h : newCoins c = some coins) (denom : Bytes) :
    amountOf coins denom = c.of denom := by
  unfold newCoins at h
  split_ifs at h with hzero
  · cases h
    rw [amountOf_nil, Coin.of, hzero, ite_self]
  · cases h
    rw [amountOf_cons, amountOf_nil, add_zero]

theorem amountOf_of_not_mem {denom : Bytes} : ∀ {coins : List Coin},
    denom ∉ coins.map Coin.denom → amountOf coins denom = 0
  | [], _ => rfl
  | c :: coins, h => by
    rw [map_cons, mem_cons, not_or] at h
    rw [amountOf_cons, amountOf_of_not_mem h.2, Coin.of, if_neg (Ne.symm h.1), add_zero]

theorem amountOf_filter_isPositive (denom : Bytes) : ∀ {coins : List Coin},
    (∀ c ∈ coins, 0 ≤ c.amount) → amountOf (coins.filter Coin.isPositive) denom = amountOf coins denom
  | [], _ => rfl
  | c :: coins, h => by
    have ih := amountOf_filter_isPositive denom fun c hc => h c (mem_cons_of_mem _ hc)
    by_cases hpos : c.isPositive = true
    · rw [filter_cons_of_pos hpos, amountOf_cons, amountOf_cons, ih]
    · have hzero : c.of denom = 0 := by
        have hle : ¬ 0 < c.amount := by simpa [Coin.isPositive] using hpos
        have hge := h c (by simp)
        simp only [Coin.of]
        omega
      rw [filter_cons_of_neg hpos, amountOf_cons, ih, hzero, zero_add]

theorem amountOf_map {f : ℤ → ℤ} (hf : f 0 = 0) (denom : Bytes) : ∀ {coins : List Coin}, (coins.map Coin.denom).Nodup →
      amountOf (coins.map fun c => ⟨c.denom, f c.amount⟩) denom = f (amountOf coins denom)
  | [], _ => hf.symm
  | c :: coins, h => by
    rw [map_cons, nodup_cons] at h
    rw [map_cons, amountOf_cons, amountOf_cons, amountOf_map hf denom h.2]
    by_cases hc : c.denom = denom
    · rw [amountOf_of_not_mem (hc ▸ h.1), hf, Coin.of, Coin.of, if_pos hc, if_pos hc, add_zero, add_zero]
    · rw [Coin.of, Coin.of, if_neg hc, if_neg hc, zero_add, zero_add]

end Lib
