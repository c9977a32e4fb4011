/-
  How much of a fee the developers get.
-/
import TerpCore.FeeShare.Ante
import TerpCore.Lib.Fold
import Mathlib.Algebra.BigOperators.Ring.List

namespace Feeshare

open Lib Outcome List LegacyDec Coins

/-! ## The coins of one developer -/

/-- The part of an amount that each of `numPairs` developers gets. -/
def reward (share : LegacyDec) (numPairs : ℕ) (amount : ℤ) : ℤ :=
  chopPrecisionAndRound ((share.num * amount).tdiv numPairs)

theorem reward_zero (share : LegacyDec) (numPairs : ℕ) : reward share numPairs 0 = 0 := by
  rw [reward, mul_zero, Int.zero_tdiv]
  rfl

/-- How often a denomination is counted. -/
def allowance (allowedDenoms : List Bytes) (denom : Bytes) : ℕ :=
  if allowedDenoms = [] then 1 else allowedDenoms.count denom

section coins

variable {sliceSort : SliceSort} {denom : Bytes}

variable {share : LegacyDec} {numPairs : ℕ} {coins fees : List Coin}

theorem payStep_eq_some (hn : numPairs < 2 ^ 63) {splitFees : List Coin} {c : Coin} (h : (do
      let part ← share.mulInt c.amount
      let part ← part.quoInt64 (Int64.ofNat numPairs)
      let rewardAmount ← part.roundInt
      if rewardAmount = 0 then some splitFees
      else
        let coin ← newCoin c.denom rewardAmount
        add splitFees coin) = some coins) :
    amountOf coins denom = amountOf splitFees denom + (⟨c.denom, reward share numPairs c.amount⟩ : Coin).of denom := by
  simp only [Option.bind_eq_bind, Option.bind_eq_some_iff] at h
  obtain ⟨part, hpart, part', hpart', rewardAmount, hreward, h⟩ := h
  have hint : (Int64.ofNat numPairs).toInt = numPairs := Int64.toInt_ofNat_of_lt hn
  have hamount : rewardAmount = reward share numPairs c.amount := by
    unfold mulInt at hpart
    unfold quoInt64 at hpart'
    unfold roundInt at hreward
    split_ifs at hpart hpart' hreward
    cases hpart
    cases hpart'
    rw [← Option.some.inj hreward, reward, hint]
  subst hamount
  split_ifs at h with hzero
  · rw [← Option.some.inj h, hzero, Coin.of, ite_self, add_zero]
  · obtain ⟨coin, hcoin, h⟩ := Option.bind_eq_some_iff.mp h
    unfold newCoin at hcoin
    split_ifs at hcoin
    cases hcoin
    exact amountOf_add denom h

theorem amountOf_feePayLogic (hn : numPairs < 2 ^ 63) (hnodup : (fees.map Coin.denom).Nodup)
    (h : feePayLogic sliceSort fees share numPairs = some coins) :
    amountOf coins denom = reward share numPairs (amountOf fees denom) := by
  have hperm := sort_perm sliceSort fees
  have hsum := foldlM_sum (g := fun coins => amountOf coins denom)
    (fun _ _ _ hstep => payStep_eq_some hn hstep) h
  rw [amountOf_nil, zero_add] at hsum
  rw [hsum, ← amountOf_perm hperm,
    ← amountOf_map (reward_zero share numPairs) denom ((hperm.map Coin.denom).nodup_iff.mpr hnodup), amountOf,
    map_map]
  rfl

theorem allowStep_sum {fee : Coin} {allowedDenoms : List Bytes} {fees' : List Coin}
    (h : allowedDenoms.foldlM (fun fees allowed => if fee.denom = allowed then add fees fee else some fees) fees =
      some fees') :
    amountOf fees' denom = amountOf fees denom + allowedDenoms.count denom * fee.of denom := by
  have hsum := foldlM_sum
    (w := fun allowed => if fee.denom = allowed then fee.of denom else 0) (fun fees allowed fees' hstep => by
      split_ifs at hstep ⊢
      · exact amountOf_add denom hstep
      · rw [Option.some.inj hstep, add_zero]) h
  have hcount : (allowedDenoms.map fun allowed => if fee.denom = allowed then fee.of denom else 0).sum =
      allowedDenoms.count denom * fee.of denom := by
    by_cases hdenom : fee.denom = denom
    · subst hdenom
      clear h hsum
      induction allowedDenoms with
      | nil => simp
      | cons allowed rest ih =>
        rw [map_cons, sum_cons, ih, count_cons]
        by_cases heq : fee.denom = allowed
        · rw [if_pos heq, if_pos (by simp [heq])]
          push_cast
          ring
        · rw [if_neg heq, if_neg (by simpa using Ne.symm heq), zero_add, add_zero]
    · simp [Coin.of, hdenom]
  rw [hsum, hcount]

theorem amountOf_allowedFees {totalFees : List Coin} {allowedDenoms : List Bytes}
    (hordered : Coins.Ordered totalFees) (h : allowedFees sliceSort totalFees allowedDenoms = some fees) :
    (fees.map Coin.denom).Nodup ∧
      ∀ denom, amountOf fees denom = allowance allowedDenoms denom * amountOf totalFees denom := by
  unfold allowedFees at h
  unfold allowance
  split_ifs at h ⊢ with hnil
  · rw [← Option.some.inj h]
    exact ⟨hordered.nodup, fun denom => by rw [Nat.cast_one, one_mul]⟩
  · constructor
    · refine Coins.Ordered.nodup (foldlM_invariant (fun fees fee fees' hstep hfees => ?_) h .nil)
      refine foldlM_invariant (fun fees allowed fees' hadd hfees => ?_) hstep hfees
      split_ifs at hadd
      · exact (ordered_add hfees hadd).1
      · exact Option.some.inj hadd ▸ hfees
    · intro denom
      have hsum := foldlM_sum
        (w := fun fee => allowedDenoms.count denom * fee.of denom) (fun _ _ _ hstep => allowStep_sum hstep) h
      rw [hsum, amountOf_nil, zero_add, sum_map_mul_left,
        ← amountOf_perm (sort_perm sliceSort totalFees) denom, amountOf]

theorem amountOf_developerCoins {params : Params} (hshare : params.developerShares = some share)
    {totalFees : List Coin} (hordered : Coins.Ordered totalFees) (hn : numPairs < 2 ^ 63)
    (h : developerCoins sliceSort params totalFees numPairs = some coins) :
    amountOf coins denom = reward share numPairs (allowance params.allowedDenoms denom * amountOf totalFees denom) := by
  simp only [developerCoins, hshare, Option.bind_eq_bind, Option.bind_some, Option.bind_eq_some_iff] at h
  obtain ⟨fees, hfees, h⟩ := h
  obtain ⟨hnodup, hamount⟩ := amountOf_allowedFees hordered hfees
  rw [amountOf_feePayLogic hn hnodup h, hamount]

end coins

/-! ## What the fee collector pays -/

section payout

variable {β : Type} {fsd : FeeSharePayoutDecorator β} {s : Store} {msgs : List SmartAccount.Msg}

/-- `collected` is what the bank keeps for the fee collector: a payment takes its coins from there. -/
def FeeSharePayoutDecorator.Collects (fsd : FeeSharePayoutDecorator β) (collected : β → Bytes → ℤ) : Prop :=
  ∀ {bank addr coins bank'}, fsd.sendCoins bank addr coins = .ok bank' →
    ∀ d, collected bank' d = collected bank d - amountOf coins d

theorem pay_eq_ok {splitFees : List Coin} {bank bank' : β} {addr : AccAddress}
    (h : fsd.pay splitFees bank addr = .ok bank') : fsd.sendCoins bank addr splitFees = .ok bank' := by
  unfold FeeSharePayoutDecorator.pay at h
  rcases hsend : fsd.sendCoins bank addr splitFees with t | e | _ <;> rw [hsend] at h
  · exact h
  · cases h
  · cases h

theorem forEach_pay {collected : β → Bytes → ℤ} (hbank : fsd.Collects collected) {splitFees : List Coin} (d : Bytes) :
    ∀ {toPay : List AccAddress} {i : ℕ} {bank bank' : β},
      forEach (fun _ bank addr => fsd.pay splitFees bank addr) i bank toPay = .ok bank' →
        collected bank d - collected bank' d = toPay.length * amountOf splitFees d
  | [], _, bank, bank', h => by
    rw [ok.inj h, sub_self, length_nil, Nat.cast_zero, zero_mul]
  | addr :: toPay, i, bank, bank', h => by
    obtain ⟨t, ht, h⟩ := bind_eq_ok.mp h
    have hpaid := hbank (pay_eq_ok ht) d
    have hrest := forEach_pay hbank d h
    rw [length_cons, Nat.cast_succ]
    linarith

theorem readable_of_forEach {toPay : List AccAddress} (h : forEach (fun _ toPay msg => do
      let withdrawAddr ← fsd.withdrawer s msg
      return toPay ++ withdrawAddr.toList) 0 [] msgs = .ok toPay) : Readable fsd msgs := by
  have hall := (forEach_eq_ok
    (fun _ _ msg _ hbody _ => ⟨trivial, (bind_eq_ok.mp hbody).imp fun _ hw => hw.1⟩) msgs 0 [] toPay h trivial).2
  intro msg hmsg contract hcontract
  obtain ⟨w, hw⟩ := hall msg hmsg
  rw [FeeSharePayoutDecorator.withdrawer, hcontract] at hw
  obtain ⟨addr, haddr, -⟩ := bind_eq_ok.mp hw
  rw [demand_eq_ok.mp haddr]
  rfl

theorem feeSharePayout_takes {collected : β → Bytes → ℤ} (hbank : fsd.Collects collected) {share : LegacyDec}
    (hshare : (getParams s).developerShares = some share) {fee : List Coin} (hordered : Coins.Ordered fee)
    (hmsgs : msgs.length < 2 ^ 63) {bank bank' : β} (h : fsd.feeSharePayout s fee msgs bank = .ok bank') (d : Bytes) :
    collected bank d - collected bank' d = if (getParams s).enableFeeShare then
      (withdrawersOf fsd s msgs).length * reward share (withdrawersOf fsd s msgs).length
        (allowance (getParams s).allowedDenoms d * amountOf fee d) else 0 := by
  unfold FeeSharePayoutDecorator.feeSharePayout at h
  cases henabled : (getParams s).enableFeeShare with
  | false =>
    rw [henabled] at h
    rw [ok.inj h, sub_self]
    rfl
  | true =>
    rw [henabled] at h
    obtain ⟨toPay, htoPay, h⟩ := bind_eq_ok.mp h
    have hwithdrawers := forEach_withdrawers (s := s) (readable_of_forEach htoPay) msgs 0 [] fun _ hm => hm
    rw [htoPay, nil_append] at hwithdrawers
    cases hwithdrawers
    have hlength : (withdrawersOf fsd s msgs).length < 2 ^ 63 := (length_filterMap_le _ _).trans_lt hmsgs
    rw [if_pos rfl]
    split_ifs at h with hnil
    · rw [ok.inj h, sub_self, hnil, Nat.cast_zero, zero_mul]
    · obtain ⟨coins, hcoins, h⟩ := bind_eq_ok.mp h
      rw [forEach_pay hbank d h, amountOf_developerCoins hshare hordered hlength (ofOption_eq_ok.mp hcoins)]

end payout

/-! ## Rounding -/

/-- The part of each developer before it is rounded, in units of the last place. -/
def unrounded (params : Params) (numPairs : ℕ) (share : LegacyDec) (c : Coin) : ℤ :=
  share.num * (allowance params.allowedDenoms c.denom * c.amount) / numPairs

/-- A coin is shared fairly: it counts once and its part is not rounded up, or its part is zero. -/
def Fair (params : Params) (numPairs : ℕ) (c : Coin) : Prop :=
  ∀ share, params.developerShares = some share →
    (allowance params.allowedDenoms c.denom ≤ 1 ∧ LegacyDec.RoundsDown (unrounded params numPairs share c)) ∨
      2 * unrounded params numPairs share c ≤ unit

theorem roundsDown_of_le_half {x : ℤ} (h0 : 0 ≤ x) (h : 2 * x ≤ unit) : LegacyDec.RoundsDown x ∧ x / unit = 0 := by
  have hunit : unit = 10 ^ 18 := rfl
  rw [LegacyDec.RoundsDown, hunit]
  omega

/-- A part that is rounded to one or more is at most one and a half times as much before. -/
theorem rounded_bounds {x p : ℤ} (h0 : 0 ≤ x) (hp : chopPrecisionAndRound x = p) :
    2 * x ≤ 2 * (p * unit) + unit ∧ 0 ≤ p ∧ (p = 0 ↔ 2 * x ≤ unit) := by
  have hunit : unit = 10 ^ 18 := rfl
  rw [chopPrecisionAndRound_of_nonneg h0] at hp
  simp only [LegacyDec.RoundsDown, hunit] at hp ⊢
  split_ifs at hp <;> omega

section rounding

variable {y x : ℤ} {n m : ℕ}

/-- The parts of a coin that counts once add up to at most the share if they are not rounded up. -/
theorem once_within_iff (hy : 0 ≤ y) (hn : 0 < n) :
    n * chopPrecisionAndRound (y / n) * unit ≤ y ↔ LegacyDec.RoundsDown (y / n) := by
  have hunit := unit_pos
  have hn' : (0 : ℤ) < n := by exact_mod_cast hn
  have hx : 0 ≤ y / n := Int.ediv_nonneg hy hn'.le
  have hle : n * chopPrecisionAndRound (y / n) * unit ≤ y ↔ chopPrecisionAndRound (y / n) * unit ≤ y / n := by
    rw [Int.le_ediv_iff_mul_le hn']
    ring_nf
  rw [hle, chopPrecisionAndRound_of_nonneg hx, ← Int.le_ediv_iff_mul_le hunit]
  split_ifs with hdown
  · exact iff_of_true le_rfl hdown
  · exact iff_of_false (by omega) hdown

/-- The parts of a coin that counts more than once exceed the share, unless they are zero. -/
theorem often_within_iff (hy : 0 ≤ y) (hn : 0 < n) (hm : 2 ≤ m) (hx : x = m * y / n) :
    n * chopPrecisionAndRound x * unit ≤ y ↔ 2 * x ≤ unit := by
  have hn' : (0 : ℤ) < n := by exact_mod_cast hn
  have hm' : (2 : ℤ) ≤ m := by exact_mod_cast hm
  have hx0 : 0 ≤ x := hx ▸ Int.ediv_nonneg (mul_nonneg (by omega) hy) hn'.le
  have hlt : m * y < n * (x + 1) := by
    rw [hx, mul_comm (n : ℤ)]
    exact Int.lt_ediv_add_one_mul_self _ hn'
  obtain ⟨hupper, hp0, hzero⟩ := rounded_bounds hx0 rfl
  have hunit : unit = 10 ^ 18 := rfl
  rw [← hzero]
  constructor
  · intro hle
    by_contra hne
    -- a part before rounding is less than twice the rounded one
    have hdouble : x + 1 ≤ 2 * (chopPrecisionAndRound x * unit) := by
      rw [hunit] at hupper ⊢
      omega
    have hall : (n : ℤ) * (x + 1) ≤ n * (2 * (chopPrecisionAndRound x * unit)) :=
      mul_le_mul_of_nonneg_left hdouble hn'.le
    have htwo : 2 * y ≤ m * y := mul_le_mul_of_nonneg_right hm' hy
    linarith
  · intro hp
    rw [hp, mul_zero]
    exact hy

end rounding

theorem reward_within_iff {params : Params} {share : LegacyDec} (hshare : params.developerShares = some share)
    (h0 : 0 ≤ share.num) {c : Coin} (hc : 0 ≤ c.amount) (n : ℕ) :
    n * reward share n (allowance params.allowedDenoms c.denom * c.amount) * unit ≤ share.num * c.amount ↔
      Fair params n c := by
  have hy : 0 ≤ share.num * c.amount := mul_nonneg h0 hc
  have hfair : Fair params n c ↔ (allowance params.allowedDenoms c.denom ≤ 1 ∧
      LegacyDec.RoundsDown (unrounded params n share c)) ∨ 2 * unrounded params n share c ≤ unit := by
    simp [Fair, hshare]
  rw [hfair]
  rcases Nat.eq_zero_or_pos n with rfl | hn
  · have hx : unrounded params 0 share c = 0 := Int.ediv_zero _
    rw [Nat.cast_zero, zero_mul, hx]
    exact iff_of_true hy (.inr unit_pos.le)
  · have hx : unrounded params n share c = allowance params.allowedDenoms c.denom * (share.num * c.amount) / n := by
      rw [unrounded, mul_left_comm]
    have hreward : reward share n (allowance params.allowedDenoms c.denom * c.amount) =
        chopPrecisionAndRound (unrounded params n share c) := by
      have hnonneg : 0 ≤ share.num * (allowance params.allowedDenoms c.denom * c.amount) :=
        mul_nonneg h0 (mul_nonneg (Int.natCast_nonneg _) hc)
      rw [reward, Int.tdiv_eq_ediv_of_nonneg hnonneg, unrounded]
    rw [hreward]
    rcases Nat.lt_or_ge 1 (allowance params.allowedDenoms c.denom) with htwice | honce
    · rw [often_within_iff hy hn htwice hx]
      exact (or_iff_right fun h => absurd h.1 (by omega)).symm
    · have hx0 : 0 ≤ unrounded params n share c := by
        rw [hx]
        exact Int.ediv_nonneg (mul_nonneg (Int.natCast_nonneg _) hy) (Int.natCast_nonneg _)
      have hdown : (allowance params.allowedDenoms c.denom ≤ 1 ∧ LegacyDec.RoundsDown (unrounded params n share c)) ∨
          2 * unrounded params n share c ≤ unit ↔ LegacyDec.RoundsDown (unrounded params n share c) := by
        constructor
        · rintro (h | h)
          · exact h.2
          · exact (roundsDown_of_le_half hx0 h).1
        · exact fun h => .inl ⟨honce, h⟩
      rw [hdown]
      rcases Nat.le_one_iff_eq_zero_or_eq_one.mp honce with hcount | hcount
      · rw [hcount, Nat.cast_zero, zero_mul, Int.zero_ediv] at hx
        rw [hx]
        exact iff_of_true (by simpa [chopPrecisionAndRound, chopNat] using hy) (by decide)
      · rw [hcount, Nat.cast_one, one_mul] at hx
        rw [hx]
        exact once_within_iff hy hn

/-! ## The share of the developers -/

/-- A payout takes at most the developers' share of each denomination, and nothing of one that is not allowed. -/
def WithinShare {β : Type} (collected : β → Bytes → ℤ) (params : Params) (fee : List Coin) (bank bank' : β) : Prop :=
  ∀ d, ((collected bank d - collected bank' d : ℤ) : ℚ) ≤
      ((params.developerShares.map toRat).getD 0) * amountOf fee d ∧
    (params.allowedDenoms ≠ [] → d ∉ params.allowedDenoms → collected bank' d = collected bank d)

theorem share_of_validate {params : Params} (h : params.validate = .ok ()) :
    ∃ share, params.developerShares = some share ∧ 0 ≤ share.num := by
  obtain ⟨_, hshares, -⟩ := bind_eq_ok.mp h
  cases hshare : params.developerShares with
  | none =>
    rw [hshare] at hshares
    cases hshares
  | some share =>
    rw [hshare] at hshares
    obtain ⟨_, h0, -⟩ := bind_eq_ok.mp hshares
    exact ⟨share, rfl, by simpa using h0⟩

theorem le_share_iff {share : LegacyDec} {taken amount : ℤ} :
    (taken : ℚ) ≤ share.toRat * amount ↔ taken * unit ≤ share.num * amount := by
  have hunit := unit_pos_rat
  rw [toRat, div_mul_eq_mul_div, le_div_iff₀ hunit]
  exact_mod_cast Iff.rfl

theorem amountOf_of_mem {fee : List Coin} (h : Coins.Ordered fee) {c : Coin} (hc : c ∈ fee) :
    amountOf fee c.denom = c.amount := by
  induction fee with
  | nil => cases hc
  | cons a fee ih =>
    have hnodup := h.nodup
    rw [map_cons, nodup_cons] at hnodup
    rcases mem_cons.mp hc with rfl | hc
    · rw [amountOf_cons, amountOf_of_not_mem hnodup.1, Coin.of, if_pos rfl, add_zero]
    · have hne : a.denom ≠ c.denom := fun heq => hnodup.1 (heq ▸ mem_map_of_mem hc)
      rw [amountOf_cons, Coin.of, if_neg hne, zero_add, ih (pairwise_cons.mp h).2 hc]

/-- **The share of the developers**: for valid parameters and fee coins, a payout is within the share if and only if
sharing is disabled or every coin of the fee is shared fairly among the withdrawers of the messages. -/
theorem within_share_iff {β : Type} (fsd : FeeSharePayoutDecorator β) (collected : β → Bytes → ℤ)
    (hbank : fsd.Collects collected) (s : Store) (hparams : (getParams s).validate = .ok ()) (fee : List Coin)
    (hfee : validCoins fee = true) (msgs : List SmartAccount.Msg) (hmsgs : msgs.length < 2 ^ 63) (bank bank' : β)
    (h : fsd.feeSharePayout s fee msgs bank = .ok bank') :
    WithinShare collected (getParams s) fee bank bank' ↔
      ((getParams s).enableFeeShare = true → ∀ c ∈ fee, Fair (getParams s) (withdrawersOf fsd s msgs).length c) := by
  obtain ⟨share, hshare, h0⟩ := share_of_validate hparams
  obtain ⟨hordered, hvalid⟩ := ordered_of_validCoins hfee
  have htakes := feeSharePayout_takes hbank hshare hordered hmsgs h
  have hzero : ∀ d, allowance (getParams s).allowedDenoms d * amountOf fee d = 0 →
      collected bank' d = collected bank d := by
    intro d hd
    have htaken := htakes d
    rw [hd, reward_zero] at htaken
    omega
  have houtside : ∀ d, (getParams s).allowedDenoms ≠ [] → d ∉ (getParams s).allowedDenoms →
      collected bank' d = collected bank d := by
    intro d hne hd
    refine hzero d ?_
    rw [allowance, if_neg hne, count_eq_zero_of_not_mem hd, Nat.cast_zero, zero_mul]
  simp only [WithinShare, hshare, Option.map_some, Option.getD_some, le_share_iff]
  constructor
  · intro hwithin henabled c hc
    have hbound := (hwithin c.denom).1
    rw [htakes c.denom, if_pos henabled, amountOf_of_mem hordered hc] at hbound
    exact (reward_within_iff hshare h0 (hvalid c hc).2.le _).mp hbound
  · intro hfair d
    refine ⟨?_, houtside d⟩
    by_cases hd : d ∈ fee.map Coin.denom
    · obtain ⟨c, hc, rfl⟩ := mem_map.mp hd
      rw [htakes c.denom, amountOf_of_mem hordered hc]
      split_ifs with henabled
      · exact (reward_within_iff hshare h0 (hvalid c hc).2.le _).mpr (hfair henabled c hc)
      · exact mul_nonneg h0 (hvalid c hc).2.le
    · rw [hzero d (by rw [amountOf_of_not_mem hd, mul_zero]), sub_self, zero_mul, amountOf_of_not_mem hd, mul_zero]

namespace Sample

/-- What the payments of a log have taken. -/
def collectedIn (log : List Payment) (d : Bytes) : ℤ := - (log.map fun p => amountOf p.coins d).sum

theorem collects : fsd.Collects collectedIn := by
  intro log addr coins log' h d
  cases h
  simp only [collectedIn, map_append, sum_append, map_singleton, sum_singleton]
  ring

/-- All of the fees are for the developers, and uterp is allowed twice. -/
def twice : Store :=
  run keeper.step (chain ⟨⟨true, some ⟨10 ^ 18⟩, [ascii "uterp", ascii "uterp"]⟩, []⟩) registrations

/-- Coins of the chain. -/
def uterp (amount : ℤ) : List Coin := [⟨ascii "uterp", amount⟩]

end Sample

open Sample in
/-- Half of 100 uterp, for two contracts and one that is not registered. -/
theorem hundred_shared :
    WithinShare collectedIn (getParams half) (uterp 100) [] [⟨account 1, uterp 25⟩, ⟨account 2, uterp 25⟩] := by
  set msgs := (execute [contract 3, contract 9, contract 4]).msgs
  have hpaid : fsd.feeSharePayout half (uterp 100) msgs [] = .ok [⟨account 1, uterp 25⟩, ⟨account 2, uterp 25⟩] := by
    decide +kernel
  refine (within_share_iff fsd collectedIn collects half (by decide +kernel) (uterp 100) (by decide +kernel)
    msgs (by decide) [] _ hpaid).mpr fun _ => ?_
  have hparams : getParams half = ⟨true, some ⟨5 * 10 ^ 17⟩, []⟩ := by decide +kernel
  have hcount : (withdrawersOf fsd half msgs).length = 2 := by decide +kernel
  rw [hparams, hcount]
  refine forall_mem_singleton.mpr fun share hshare => .inl ⟨by decide, ?_⟩
  cases hshare
  decide +kernel

open Sample in
/-- Half of 3 uterp is paid as 2, and 100 uterp are paid twice. -/
theorem too_much_shared :
    let msgs := (execute [contract 3]).msgs
    ((getParams half).validate = .ok () ∧
      fsd.feeSharePayout half (uterp 3) msgs [] = .ok [⟨account 1, uterp 2⟩] ∧
      ¬ WithinShare collectedIn (getParams half) (uterp 3) [] [⟨account 1, uterp 2⟩]) ∧
    (getParams twice).validate = .ok () ∧ fsd.feeSharePayout twice (uterp 100) msgs [] = .ok [⟨account 1, uterp 200⟩] ∧
      ¬ WithinShare collectedIn (getParams twice) (uterp 100) [] [⟨account 1, uterp 200⟩] := by
  refine ⟨⟨by decide +kernel, by decide +kernel, fun h => ?_⟩, by decide +kernel, by decide +kernel, fun h => ?_⟩
  · have hbound := (h (ascii "uterp")).1
    exact absurd hbound (by decide +kernel)
  · have hbound := (h (ascii "uterp")).1
    exact absurd hbound (by decide +kernel)

end Feeshare
