/-
  The withdrawal of delegation rewards that the v520 upgrade makes for delegations whose recorded stake is a little
  above their stake in x/staking.

  Whole coins are paid out of the distribution account and the fractions go to the community pool.
-/
import Mathlib.Data.DFinsupp.BigOperators
import Mathlib.Data.DFinsupp.Order
import TerpCore.Lib.Bytes
import TerpCore.Lib.Outcome
import TerpCore.Lib.SdkMath

namespace V520

open Lib Outcome

/-- An amount for each denomination, none for all but finitely many. -/
abbrev Coins := Π₀ _ : Bytes, ℕ

/-- Amounts that count units of `10⁻¹⁸`. -/
abbrev DecCoins := Coins

inductive Error where
  | invalidAddress
  | emptyDelegationDistInfo
  | bank
  | feePoolNotFound
  deriving DecidableEq, Repr

/-- A sum or product of decimal coins panics if an amount leaves the range of a decimal. -/
def DecCoins.checked (coins : DecCoins) : Outcome Error DecCoins :=
  if ∀ denom ∈ coins.support, fitsBits 315 (coins denom) then .ok coins else .panicked

def DecCoins.intersect (coins coinsB : DecCoins) : DecCoins := coins.zipWith (fun _ => min) (fun _ => rfl) coinsB

/-- `TruncateDecimal`: the whole coins and what is left of them. -/
def DecCoins.truncateDecimal (coins : DecCoins) : Coins × DecCoins :=
  (coins.mapRange (fun _ amount => amount / 10 ^ 18) (fun _ => rfl),
    coins.mapRange (fun _ amount => amount % 10 ^ 18) (fun _ => rfl))

def DecCoins.mulDecTruncate (coins : DecCoins) (d : ℕ) : Outcome Error DecCoins :=
  DecCoins.checked (coins.mapRange (fun _ amount => amount * d / 10 ^ 18) (fun _ => by simp))

/-! ## The stores of x/distribution -/

structure DelegatorStartingInfo where
  previousPeriod : UInt64
  stake : LegacyDec
  height : UInt64

/-- The rewards per unit of stake from the first period to the end of this one, and how many records refer to them. -/
structure ValidatorHistoricalRewards where
  cumulativeRewardRatio : DecCoins
  referenceCount : UInt32

structure ValidatorSlashEvent where
  height : UInt64
  validatorPeriod : UInt64
  fraction : LegacyDec

structure State (β : Type) where
  blockHeight : UInt64
  /-- by validator and delegator -/
  startingInfo : Bytes × Bytes → Option DelegatorStartingInfo
  /-- by validator and period -/
  historicalRewards : Bytes × UInt64 → Option ValidatorHistoricalRewards
  /-- by validator, in the order of their keys -/
  slashEvents : Bytes → List ValidatorSlashEvent
  outstanding : Π₀ _ : Bytes, DecCoins
  communityPool : Option DecCoins
  withdrawAddr : Bytes → Option Bytes
  bank : β

structure Delegation where
  delegatorAddr : Bytes
  validatorAddr : Bytes
  shares : LegacyDec

/-- `ValidatorI`, of x/staking. -/
structure Validator where
  operator : Bytes
  tokensFromShares : LegacyDec → Option LegacyDec

structure Keeper (β : Type) where
  accountAddress : Bytes → Option Bytes
  validatorAddress : Bytes → Option Bytes
  /-- from the distribution account -/
  sendCoinsFromModuleToAccount : β → Bytes → Coins → Outcome Error β
  /-- the base denomination, or else the default bond denomination -/
  baseDenom : Bytes

/-- What a withdrawal returns: the coins, or a single coin of amount zero. -/
inductive Withdrawn where
  | coins (coins : Coins)
  | zero (denom : Bytes)

def Withdrawn.amountOf (denom : Bytes) : Withdrawn → ℕ
  | coins c => c denom
  | zero _ => 0

variable {β : Type}

namespace State

/-- A row that is not there reads as empty. -/
def getHistoricalRewards (s : State β) (valAddr : Bytes) (period : UInt64) : ValidatorHistoricalRewards :=
  (s.historicalRewards (valAddr, period)).getD ⟨0, 0⟩

def customDecrementReferenceCount (s : State β) (valAddr : Bytes) (period : UInt64) : Outcome Error (State β) :=
  let historical := s.getHistoricalRewards valAddr period
  let count := historical.referenceCount - 1
  let row := if count = 0 then none else some { historical with referenceCount := count }
  if historical.referenceCount = 0 then .panicked
  else .ok { s with historicalRewards := Function.update s.historicalRewards (valAddr, period) row }

def getDelegatorWithdrawAddr (s : State β) (delAddr : Bytes) : Bytes := (s.withdrawAddr delAddr).getD delAddr

end State

/-- What the walk over the slash events carries. -/
structure Walk where
  rewards : DecCoins
  startingPeriod : UInt64
  stake : LegacyDec

namespace Keeper

variable (k : Keeper β) (s : State β) (val : Validator) (del : Delegation)

def customCalculateDelegationRewardsBetween (startingPeriod endingPeriod : UInt64) (stake : LegacyDec) :
    Outcome Error DecCoins :=
  if startingPeriod > endingPeriod ∨ stake.num < 0 then .panicked
  else do
    let valBz ← ofOption (k.validatorAddress val.operator)
    let starting := s.getHistoricalRewards valBz startingPeriod
    let ending := s.getHistoricalRewards valBz endingPeriod
    if starting.cumulativeRewardRatio ≤ ending.cumulativeRewardRatio then
      DecCoins.mulDecTruncate (ending.cumulativeRewardRatio - starting.cumulativeRewardRatio) stake.num.toNat
    else .panicked

/-- The rewards up to a slash event, and the stake that it leaves. -/
def slash (w : Walk) (event : ValidatorSlashEvent) : Outcome Error Walk :=
  if event.validatorPeriod > w.startingPeriod then do
    let between ← k.customCalculateDelegationRewardsBetween s val w.startingPeriod event.validatorPeriod w.stake
    let rewards ← DecCoins.checked (w.rewards + between)
    let kept ← ofOption (LegacyDec.sub ⟨LegacyDec.unit⟩ event.fraction)
    let stake ← ofOption (w.stake.mulTruncate kept)
    pure ⟨rewards, event.validatorPeriod, stake⟩
  else pure w

/-- The stake that the last period is paid for, and whether it had to be lowered to the stake of x/staking. -/
def finalStake (stake currentStake : LegacyDec) : Outcome Error (LegacyDec × Bool) :=
  if currentStake.num < stake.num then do
    let marginOfErr ← ofOption (currentStake.mul ⟨95 * 10 ^ 15⟩)
    let limit ← ofOption (currentStake.add marginOfErr)
    if stake.num ≤ limit.num then pure (currentStake, true) else .panicked
  else pure (stake, false)

def customCalculateDelegationRewards (endingPeriod : UInt64) : Outcome Error (DecCoins × Bool) := do
  let delAddr ← ofOption (k.accountAddress del.delegatorAddr)
  let valAddr ← ofOption (k.validatorAddress del.validatorAddr)
  let row := s.startingInfo (valAddr, delAddr)
  if row.elim 0 DelegatorStartingInfo.height = s.blockHeight then pure (0, false)
  else
    -- the stake of a row that is not there is nil, and every use of it panics
    let startingInfo ← ofOption row
    let events := (s.slashEvents valAddr).filter fun event =>
      startingInfo.height < s.blockHeight ∧ startingInfo.height ≤ event.height ∧ event.height ≤ s.blockHeight
    let w ← events.foldlM (k.slash s val) ⟨0, startingInfo.previousPeriod, startingInfo.stake⟩
    let currentStake ← ofOption (val.tokensFromShares del.shares)
    let (stake, patched) ← finalStake w.stake currentStake
    let between ← k.customCalculateDelegationRewardsBetween s val w.startingPeriod endingPeriod stake
    let rewards ← DecCoins.checked (w.rewards + between)
    pure (rewards, patched)

/-- The coins are sent to the delegator's withdraw address, if there are any. -/
def pay (delAddr : Bytes) (finalRewards : Coins) : Outcome Error β :=
  if finalRewards = 0 then .ok s.bank
  else k.sendCoinsFromModuleToAccount s.bank (s.getDelegatorWithdrawAddr delAddr) finalRewards

/-- What a withdrawal does once the rewards are known. -/
def payOut (valAddr delAddr : Bytes) (startingInfo : DelegatorStartingInfo) (rewards : DecCoins) :
    Outcome Error (State β × Withdrawn) := do
  let (finalRewards, remainder) := DecCoins.truncateDecimal rewards
  let bank ← k.pay s delAddr finalRewards
  let outstanding := s.outstanding.update valAddr (s.outstanding valAddr - rewards)
  let communityPool ← demand s.communityPool .feePoolNotFound
  let communityPool ← DecCoins.checked (communityPool + remainder)
  let t ← State.customDecrementReferenceCount { s with bank, outstanding, communityPool } valAddr
    startingInfo.previousPeriod
  pure ({ t with startingInfo := Function.update t.startingInfo (valAddr, delAddr) none },
    if finalRewards = 0 then .zero k.baseDenom else .coins finalRewards)

def customWithdrawDelegationRewards (endingPeriod : UInt64) : Outcome Error (State β × Withdrawn) := do
  let delAddr ← demand (k.accountAddress del.delegatorAddr) .invalidAddress
  let valAddr ← demand (k.validatorAddress del.validatorAddr) .invalidAddress
  let startingInfo ← demand (s.startingInfo (valAddr, delAddr)) .emptyDelegationDistInfo
  let (calculated, patched) ← k.customCalculateDelegationRewards s val del endingPeriod
  if patched then k.payOut s valAddr delAddr startingInfo (DecCoins.intersect calculated (s.outstanding valAddr))
  else .panicked

end Keeper

/-! ## What a withdrawal settles -/

/-- What the distribution account holds above the outstanding rewards and the community pool, in units of `10⁻¹⁸`. -/
def State.surplus (s : State β) (balance : Coins) (denom : Bytes) : ℤ :=
  10 ^ 18 * balance denom - (s.outstanding.sum fun _ coins => coins denom : ℕ) - s.communityPool.getD 0 denom

/-- One record less refers to the rewards of a period, and they are dropped with the last. -/
structure Released (s t : State β) (valAddr : Bytes) (period : UInt64) : Prop where
  count : (t.getHistoricalRewards valAddr period).referenceCount.toNat + 1 =
    (s.getHistoricalRewards valAddr period).referenceCount.toNat
  deleted : t.historicalRewards (valAddr, period) = none ↔
    (t.getHistoricalRewards valAddr period).referenceCount = 0
  others : ∀ key ≠ (valAddr, period), t.historicalRewards key = s.historicalRewards key

theorem State.customDecrementReferenceCount_eq_ok {s t : State β} {valAddr : Bytes} {period : UInt64}
    (h : s.customDecrementReferenceCount valAddr period = .ok t) :
    Released s t valAddr period ∧ t = { s with historicalRewards := t.historicalRewards } := by
  simp only [State.customDecrementReferenceCount] at h
  generalize hrow : s.getHistoricalRewards valAddr period = historical at h
  split at h
  · cases h
  · rename_i hcount
    cases h
    refine ⟨⟨?_, ?_, fun key hkey => Function.update_of_ne hkey _ _⟩, rfl⟩
    · have hpred : (historical.referenceCount - 1).toNat + 1 = historical.referenceCount.toNat := by
        have hpos : historical.referenceCount.toNat ≠ 0 := fun hzero => hcount (UInt32.toNat.inj hzero)
        rw [UInt32.toNat_sub_of_le _ _ (by rw [UInt32.le_iff_toNat_le]; exact Nat.one_le_iff_ne_zero.2 hpos)]
        exact Nat.succ_pred hpos
      rw [hrow, ← hpred]
      by_cases hlast : historical.referenceCount - 1 = 0
      · simp [State.getHistoricalRewards, hlast]
      · simp [State.getHistoricalRewards, hlast]
    · by_cases hlast : historical.referenceCount - 1 = 0
      · simp [State.getHistoricalRewards, hlast]
      · simp [State.getHistoricalRewards, hlast]

/-- What x/bank does with the account of x/distribution, which is blocked and so is never the recipient. -/
def Keeper.Transfers (k : Keeper β) (distribution : Bytes) (balance : β → Bytes → Coins) : Prop :=
  ∀ {bank recipient coins bank'}, k.sendCoinsFromModuleToAccount bank recipient coins = .ok bank' →
    balance bank distribution = balance bank' distribution + coins ∧
      balance bank' recipient = balance bank recipient + coins

/-- How rewards of `r` units of a denomination are withdrawn from a validator. -/
structure Settled (distribution : Bytes) (balance : β → Bytes → Coins) (s t : State β) (valAddr delAddr denom : Bytes)
    (r paid : ℕ) : Prop where
  paid_eq : paid = r / 10 ^ 18
  received : balance t.bank (s.getDelegatorWithdrawAddr delAddr) denom =
    balance s.bank (s.getDelegatorWithdrawAddr delAddr) denom + paid
  outstanding : t.outstanding valAddr denom + r = s.outstanding valAddr denom
  others : ∀ v ≠ valAddr, t.outstanding v denom = s.outstanding v denom
  communityPool : t.communityPool.getD 0 denom = s.communityPool.getD 0 denom + r % 10 ^ 18
  surplus : t.surplus (balance t.bank distribution) denom = s.surplus (balance s.bank distribution) denom

theorem sum_outstanding {outstanding : Π₀ _ : Bytes, DecCoins} {valAddr : Bytes} {rewards : DecCoins}
    (h : rewards ≤ outstanding valAddr) (denom : Bytes) :
    (outstanding.sum fun _ coins => coins denom) = rewards denom +
      (outstanding.update valAddr (outstanding valAddr - rewards)).sum fun _ coins => coins denom := by
  have hsplit : outstanding =
      outstanding.update valAddr (outstanding valAddr - rewards) + DFinsupp.single valAddr rewards := by
    ext v d
    rcases eq_or_ne v valAddr with rfl | hv
    · simp [Nat.sub_add_cancel (h d)]
    · simp [Function.update_of_ne hv, DFinsupp.single_eq_of_ne hv]
  conv_lhs => rw [hsplit]
  rw [DFinsupp.sum_add_index (fun _ => rfl) (fun _ _ _ => rfl), DFinsupp.sum_single_index rfl, add_comm]

namespace Keeper

variable {k : Keeper β} {s t : State β} {valAddr delAddr distribution : Bytes} {balance : β → Bytes → Coins}

theorem pay_eq_ok (hbank : k.Transfers distribution balance) {coins : Coins} {bank : β}
    (h : k.pay s delAddr coins = .ok bank) :
    balance s.bank distribution = balance bank distribution + coins ∧
      balance bank (s.getDelegatorWithdrawAddr delAddr) =
        balance s.bank (s.getDelegatorWithdrawAddr delAddr) + coins := by
  rw [pay] at h
  split at h
  · rename_i hzero
    cases h
    simp [hzero]
  · exact hbank h

theorem payOut_eq_ok {info : DelegatorStartingInfo} {rewards : DecCoins} {paid : Withdrawn}
    (h : k.payOut s valAddr delAddr info rewards = .ok (t, paid)) :
    k.pay s delAddr (DecCoins.truncateDecimal rewards).1 = .ok t.bank ∧
      t.outstanding = s.outstanding.update valAddr (s.outstanding valAddr - rewards) ∧
      t.communityPool.getD 0 = s.communityPool.getD 0 + (DecCoins.truncateDecimal rewards).2 ∧
      (∀ denom, paid.amountOf denom = rewards denom / 10 ^ 18) ∧
      Released s t valAddr info.previousPeriod := by
  simp only [payOut, bind_eq_ok, demand_eq_ok] at h
  obtain ⟨bank, hpay, pool, hpool, pool', hchecked, u, hcount, hret⟩ := h
  rw [DecCoins.checked] at hchecked
  split at hchecked
  · cases hchecked
    obtain ⟨hreleased, hu⟩ := State.customDecrementReferenceCount_eq_ok hcount
    cases hret
    rw [hu]
    refine ⟨hpay, rfl, by simp [hpool], fun denom => ?_, ⟨hreleased.count, hreleased.deleted, hreleased.others⟩⟩
    split
    · rename_i hzero
      exact (DFunLike.congr_fun hzero denom).symm
    · rfl
  · cases hchecked

theorem settled_of_payOut (hbank : k.Transfers distribution balance) {info : DelegatorStartingInfo}
    {rewards : DecCoins} {paid : Withdrawn} (hle : rewards ≤ s.outstanding valAddr)
    (h : k.payOut s valAddr delAddr info rewards = .ok (t, paid)) (denom : Bytes) :
    Settled distribution balance s t valAddr delAddr denom (rewards denom) (paid.amountOf denom) := by
  obtain ⟨hpay, hout, hpool, hpaid, -⟩ := payOut_eq_ok h
  obtain ⟨hdebit, hcredit⟩ := pay_eq_ok hbank hpay
  have hwhole : (DecCoins.truncateDecimal rewards).1 denom = rewards denom / 10 ^ 18 := rfl
  have hrest : (DecCoins.truncateDecimal rewards).2 denom = rewards denom % 10 ^ 18 := rfl
  refine ⟨hpaid denom, ?_, ?_, ?_, ?_, ?_⟩
  · rw [hcredit, DFinsupp.add_apply, hwhole, hpaid]
  · rw [hout]
    simp [Nat.sub_add_cancel (hle denom)]
  · intro v hv
    rw [hout]
    simp [Function.update_of_ne hv]
  · rw [hpool, DFinsupp.add_apply, hrest]
  · rw [State.surplus, State.surplus, hdebit, hpool, sum_outstanding hle, hout, DFinsupp.add_apply, DFinsupp.add_apply]
    omega

end Keeper

/-- A withdrawal that returns pays the whole coins of the smaller of the rewards calculated and outstanding, and
leaves what the distribution account holds above what it owes. -/
theorem withdrawal_conserves {k : Keeper β} {distribution : Bytes} {balance : β → Bytes → Coins}
    (hbank : k.Transfers distribution balance) {s t : State β} {val : Validator} {del : Delegation}
    {endingPeriod : UInt64} {paid : Withdrawn}
    (h : k.customWithdrawDelegationRewards s val del endingPeriod = .ok (t, paid)) :
    ∃ delAddr valAddr info calculated, k.accountAddress del.delegatorAddr = some delAddr ∧
      k.validatorAddress del.validatorAddr = some valAddr ∧ s.startingInfo (valAddr, delAddr) = some info ∧
      k.customCalculateDelegationRewards s val del endingPeriod = .ok (calculated, true) ∧
      (∀ denom, Settled distribution balance s t valAddr delAddr denom
        (min (calculated denom) (s.outstanding valAddr denom)) (paid.amountOf denom)) ∧
      Released s t valAddr info.previousPeriod := by
  simp only [Keeper.customWithdrawDelegationRewards, bind_eq_ok, demand_eq_ok] at h
  obtain ⟨delAddr, hdel, valAddr, hval, info, hinfo, ⟨calculated, patched⟩, hcalculated, h⟩ := h
  cases patched with
  | false => cases h
  | true =>
    have hle : DecCoins.intersect calculated (s.outstanding valAddr) ≤ s.outstanding valAddr :=
      fun denom => min_le_right _ _
    obtain ⟨-, -, -, -, hreleased⟩ := Keeper.payOut_eq_ok h
    exact ⟨delAddr, valAddr, info, calculated, hdel, hval, hinfo, hcalculated, Keeper.settled_of_payOut hbank hle h,
      hreleased⟩

/-! ## A delegation of 95 that is recorded as one of 100 -/

/-- The distribution account is `[3]`. -/
def paying : Keeper (Bytes → Coins) where
  accountAddress := some
  validatorAddress := some
  sendCoinsFromModuleToAccount bank recipient coins :=
    if recipient ≠ [3] ∧ coins ≤ bank [3] then
      .ok (Function.update (Function.update bank [3] (bank [3] - coins)) recipient (bank recipient + coins))
    else .error .bank
  baseDenom := ascii "uterp"

theorem paying_transfers : paying.Transfers [3] id := by
  intro bank recipient coins bank' h
  simp only [paying] at h
  split at h
  · rename_i hsend
    cases h
    simp [Function.update_of_ne hsend.1.symm, tsub_add_cancel_of_le hsend.2]
  · cases h

def recorded : State (Bytes → Coins) where
  blockHeight := 10
  startingInfo _ := some ⟨1, ⟨100 * 10 ^ 18⟩, 5⟩
  historicalRewards key := some ⟨if key.2 = 1 then 0 else DFinsupp.single (ascii "uterp") (25 * 10 ^ 15), 1⟩
  slashEvents _ := []
  outstanding := DFinsupp.single [1] (DFinsupp.single (ascii "uterp") (3 * 10 ^ 18))
  communityPool := some 0
  withdrawAddr _ := none
  bank _ := DFinsupp.single (ascii "uterp") 3

def validator : Validator := ⟨[1], fun _ => some ⟨95 * 10 ^ 18⟩⟩

def delegation : Delegation := ⟨[2], [1], ⟨95 * 10 ^ 18⟩⟩

/-- Two coins of 2.375 are paid, and the record of the first period goes with its last reference. -/
theorem ninety_five_withdrawn : ∃ t paid,
    paying.customWithdrawDelegationRewards recorded validator delegation 2 = .ok (t, paid) ∧
      paid.amountOf (ascii "uterp") = 2 ∧ t.communityPool.getD 0 (ascii "uterp") = 375 * 10 ^ 15 ∧
      t.historicalRewards ([1], 1) = none ∧
      t.surplus (t.bank [3]) (ascii "uterp") = recorded.surplus (recorded.bank [3]) (ascii "uterp") := by
  have hreturns : (paying.customWithdrawDelegationRewards recorded validator delegation 2).isOk := by decide +kernel
  obtain ⟨⟨t, paid⟩, h⟩ := isOk_iff.1 hreturns
  obtain ⟨delAddr, valAddr, info, calculated, hdel, hval, hinfo, hcalculated, hsettled, hreleased⟩ :=
    withdrawal_conserves paying_transfers h
  cases hval
  cases hinfo
  have hamount : ((paying.customCalculateDelegationRewards recorded validator delegation 2).orElse (0, false)).1
      (ascii "uterp") = 2375 * 10 ^ 15 := by decide +kernel
  rw [hcalculated] at hamount
  have hr := hsettled (ascii "uterp")
  rw [show calculated (ascii "uterp") = _ from hamount] at hr
  refine ⟨t, paid, h, hr.paid_eq, hr.communityPool, ?_, hr.surplus⟩
  exact hreleased.deleted.2 (UInt32.toNat.inj (Nat.succ.inj hreleased.count))

end V520
