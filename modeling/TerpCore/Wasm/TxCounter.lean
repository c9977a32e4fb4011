/-
  The position of a transaction in its block, which contracts can read.

  The row it is counted in is written in the cache of the ante handlers, so it counts the transactions whose cache is
  written: those that all handlers accept, and those that are refused after the smart accounts have flushed it with
  the fee.
-/
import TerpCore.Lib.Bytes
import TerpCore.Lib.Run

namespace Wasm.CountTX

open Lib List

/-- The row: the height and the counter, big-endian. -/
def encodeHeightCounter (height : Int64) (counter : UInt32) : Bytes :=
  be64 height.toUInt64 ++ beBytes 4 counter.toNat

/-- Too few bytes panic. -/
def decodeHeightCounter (bz : Bytes) : Option (Int64 × UInt32) := do
  let height ← getBE64 (bz.take 8)
  if bz.length < 12 then none else some (height.toInt64, UInt32.ofNat (ofLE ((bz.drop 8).take 4).reverse))

theorem decodeHeightCounter_encodeHeightCounter (height : Int64) (counter : UInt32) :
    decodeHeightCounter (encodeHeightCounter height counter) = some (height, counter) := by
  have hcounter : (beBytes 4 counter.toNat).take 4 = (leBytes 4 counter.toNat).reverse :=
    take_of_length_le (by simp [beBytes])
  have hlength : (beBytes 4 counter.toNat).length = 4 := by simp [beBytes]
  simp [decodeHeightCounter, encodeHeightCounter, hlength, hcounter, ofLE_leBytes]

/-- The counter of the next transaction at a height. -/
def txCounter (row : Option Bytes) (currentHeight : Int64) : Option UInt32 :=
  row.elim (some 0) fun bz => do
    let (lastHeight, val) ← decodeHeightCounter bz
    return if currentHeight = lastHeight then val else 0

/-- The counter that is passed on with the context, and the row. -/
def anteHandle (row : Option Bytes) (currentHeight : Int64) (simulate : Bool) : Option (Option UInt32 × Option Bytes) :=
  if simulate then some (none, row)
  else do
    let counter ← txCounter row currentHeight
    return (some counter, some (encodeHeightCounter currentHeight (counter + 1)))

/-- How the handlers behind end.  Once the payer is authenticated, the smart accounts deduct the fee and write the
cache to the block, and may still refuse. -/
inductive Ending where
  | accepted
  | refused
  | refusedAfterFee
  deriving DecidableEq

/-- A transaction, as far as the counter is concerned. -/
structure Tx where
  height : Int64
  simulate : Bool
  ending : Ending

/-- The row that was written for the transaction is kept. -/
def Tx.counts (tx : Tx) : Bool := tx.ending != .refused && !tx.simulate

/-- The row after a transaction: what one wrote that is refused before its fee is paid is dropped. -/
def deliver (row : Option Bytes) (tx : Tx) : Option Bytes :=
  if tx.ending = .refused then row else (anteHandle row tx.height tx.simulate).elim row Prod.snd

/-- The transactions of a block that are kept. -/
def counted (txs : List Tx) (height : Int64) : ℕ := txs.countP fun tx => tx.counts && tx.height == height

theorem deliver_of_counts {row : Option Bytes} {tx : Tx} {n : UInt32} (htx : tx.counts = true)
    (hn : txCounter row tx.height = some n) : deliver row tx = some (encodeHeightCounter tx.height (n + 1)) := by
  simp only [Tx.counts, Bool.and_eq_true, Bool.not_eq_true', bne_iff_ne] at htx
  simp [deliver, anteHandle, htx, hn]

theorem deliver_of_not_counts {row : Option Bytes} {tx : Tx} (htx : tx.counts = false) : deliver row tx = row := by
  simp only [Tx.counts, Bool.and_eq_false_iff, Bool.not_eq_false', bne_eq_false_iff_eq] at htx
  rcases htx with htx | htx <;> simp [deliver, anteHandle, htx]

theorem txCounter_run {txs : List Tx} (hordered : txs.Pairwise fun a b => a.height ≤ b.height) :
    ∀ height, (∀ tx ∈ txs, tx.height ≤ height) →
      txCounter (run deliver none txs) height = some (UInt32.ofNat (counted txs height)) := by
  induction txs using List.reverseRecOn with
  | nil => exact fun _ _ => rfl
  | append_singleton txs tx ih =>
    intro height hheight
    obtain ⟨hordered, -, hlast⟩ := pairwise_append.mp hordered
    obtain ⟨hbefore, htx⟩ := forall_mem_append.mp hheight
    have hsucc : counted (txs ++ [tx]) height =
        counted txs height + if tx.counts && tx.height == height then 1 else 0 := by
      rw [counted, countP_append, countP_singleton, counted]
    rw [run_append, run_cons, hsucc]
    cases hcounts : tx.counts with
    | false => simpa [deliver_of_not_counts hcounts] using ih hordered height hbefore
    | true =>
      rw [deliver_of_counts hcounts (ih hordered tx.height fun t ht => hlast t ht tx mem_cons_self)]
      by_cases hsame : height = tx.height
      · simp [txCounter, decodeHeightCounter_encodeHeightCounter, hsame]
      · -- a new block: nothing is counted for its height yet
        have hnone : counted txs height = 0 := by
          refine countP_eq_zero.mpr fun t ht hcounted => hsame ?_
          have hlt := hlast t ht tx mem_cons_self
          rw [Bool.and_eq_true, beq_iff_eq] at hcounted
          exact Int64.le_antisymm (hcounted.2 ▸ hlt) (htx tx mem_cons_self)
        simp [txCounter, decodeHeightCounter_encodeHeightCounter, hsame, Ne.symm hsame, hnone]

/-- **Positions**: on a chain whose heights do not fall, every transaction is told how many of its block were accepted
or had paid before it, whatever was simulated or refused. -/
theorem anteHandle_position (txs : List Tx) (tx : Tx)
    (hordered : (txs ++ [tx]).Pairwise fun a b => a.height ≤ b.height) (hsimulate : tx.simulate = false) :
    (anteHandle (run deliver none txs) tx.height tx.simulate).map Prod.fst =
      some (some (UInt32.ofNat
        (txs.countP fun t => t.ending != .refused && !t.simulate && t.height == tx.height))) := by
  obtain ⟨htxs, -, hlast⟩ := pairwise_append.mp hordered
  have hcounter := txCounter_run htxs tx.height fun t ht => hlast t ht tx mem_cons_self
  rw [hsimulate, anteHandle, hcounter]
  rfl

/-- A block of one transaction; then one accepted, one refused, one refused after its fee, and one simulated. -/
theorem third_of_block :
    let txs : List Tx := [⟨4, false, .accepted⟩, ⟨5, false, .accepted⟩, ⟨5, false, .refused⟩,
      ⟨5, false, .refusedAfterFee⟩, ⟨5, true, .accepted⟩]
    (anteHandle (run deliver none txs) 5 false).map Prod.fst = some (some 2) :=
  anteHandle_position [⟨4, false, .accepted⟩, ⟨5, false, .accepted⟩, ⟨5, false, .refused⟩,
    ⟨5, false, .refusedAfterFee⟩, ⟨5, true, .accepted⟩] ⟨5, false, .accepted⟩ (by decide) rfl

end Wasm.CountTX
