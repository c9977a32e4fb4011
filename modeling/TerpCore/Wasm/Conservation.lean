/-
  Runway money is conserved: what is taken from payers is in the pools or was paid out.
-/
import TerpCore.Wasm.Runway
import Mathlib.Algebra.BigOperators.Group.Finset.Piecewise

namespace Wasm

open Lib Outcome List Tables

variable {ν β : Type} {k : RunwayKeeper ν β} {balance : β → AccAddress → Bytes → ℤ}

/-! ## Payments -/

section payments

theorem amountOf_splitCircuitRunway {amt : List Coin} (hpos : ∀ c ∈ amt, 0 < c.amount) (denom : Bytes) :
    amountOf (splitCircuitRunway amt).1 denom + amountOf (splitCircuitRunway amt).2 denom = amountOf amt denom := by
  have hfilter : amt.filter Coin.isPositive = amt :=
    filter_eq_self.mpr fun c hc => by simpa [Coin.isPositive] using hpos c hc
  have hhalf : ∀ c ∈ amt, 0 ≤ c.amount.tdiv 2 ∧ 0 ≤ c.amount - c.amount.tdiv 2 := by
    intro c hc
    have hc := hpos c hc
    rw [Int.tdiv_eq_ediv_of_nonneg hc.le]
    omega
  simp only [splitCircuitRunway, hfilter]
  rw [amountOf_filter_isPositive, amountOf_filter_isPositive]
  · clear hpos hfilter hhalf
    induction amt with
    | nil => rfl
    | cons =>
      simp only [map_cons, amountOf_cons, Coin.of]
      split_ifs <;> omega
  · exact forall_mem_map.mpr fun c hc => (hhalf c hc).2
  · exact forall_mem_map.mpr fun c hc => (hhalf c hc).1

theorem bankOr_eq_ok {o : Option β} {app : β} : bankOr o = .ok app ↔ o = some app := by
  cases o <;> simp [bankOr]

variable {s : State ν β} {app : β} {payer : AccAddress} {amt : List Coin}

theorem receiveCircuitRunwayPayment_eq_ok (hbank : LawfulBank k balance)
    (h : k.receiveCircuitRunwayPayment s payer amt = .ok app) :
    ∃ mid, Moved (balance s.app) (balance mid) payer (k.moduleAddress circuitValPoolName) (splitCircuitRunway amt).1 ∧
      ((splitCircuitRunway amt).2 = [] ∧ app = mid ∨ ∃ dev, k.devAccount s.store = some dev ∧
        Moved (balance mid) (balance app) payer dev (splitCircuitRunway amt).2) := by
  unfold Keeper.receiveCircuitRunwayPayment at h
  generalize splitCircuitRunway amt = halves at h ⊢
  obtain ⟨val, dev⟩ := halves
  -- `send` is what is left to do after the first transfer
  dsimp -zeta only at h ⊢
  extract_lets send at h
  obtain ⟨mid, hval, hdev⟩ : ∃ mid, Moved (balance s.app) (balance mid) payer
      (k.moduleAddress circuitValPoolName) val ∧ send mid = .ok app := by
    split_ifs at h with hnil
    · exact ⟨s.app, hnil ▸ .nil, h⟩
    · obtain ⟨mid, hmid, h⟩ := bind_eq_ok.mp h
      exact ⟨mid, hbank.sendToModule _ _ _ _ _ (bankOr_eq_ok.mp hmid), h⟩
  refine ⟨mid, hval, ?_⟩
  simp only [send] at hdev
  split_ifs at hdev with hnil
  · exact .inl ⟨hnil, (ok.inj hdev).symm⟩
  · obtain ⟨params, hparams, hdev⟩ := bind_eq_ok.mp hdev
    refine .inr ?_
    rw [RunwayKeeper.devAccount, hparams]
    by_cases hdest : params.circuitDevDestination ≠ []
    · simp only [if_pos hdest] at hdev ⊢
      cases haddr : k.accAddressFromBech32 params.circuitDevDestination with
      | none => simp [haddr] at hdev
      | some dev =>
        simp only [haddr] at hdev
        exact ⟨dev, rfl, hbank.send _ _ _ _ _ (bankOr_eq_ok.mp hdev)⟩
    · simp only [if_neg hdest] at hdev ⊢
      exact ⟨_, rfl, hbank.sendToModule _ _ _ _ _ (bankOr_eq_ok.mp hdev)⟩

theorem circuitDepositFee_pos {years : UInt32} (h : k.circuitDepositFee years = some amt) :
    ∀ c ∈ amt, 0 < c.amount := by
  simp only [Keeper.circuitDepositFee] at h
  generalize (if k.circuitDepositYearly.isPositive then _ else _ : Coin) = fee at h
  split at h
  · unfold newCoins at h
    split_ifs at h with hzero hvalid
    · cases h
      simp
    · cases h
      simpa using hvalid.1
  · cases h

theorem payCircuitDeposit_balance (hbank : LawfulBank k balance) {s' : State ν β} {blockTime : Int64}
    {years : UInt32} (h : k.payCircuitDeposit s blockTime payer years = .ok s') :
    ∃ amt val dev, k.circuitDepositFee years = some amt ∧
      (∀ denom, amountOf val denom + amountOf dev denom = amountOf amt denom) ∧
      (dev ≠ [] → (k.devAccount s.store).isSome) ∧
      ∀ a denom, balance s'.app a denom = balance s.app a denom +
        (if a = k.moduleAddress circuitValPoolName then amountOf val denom else 0) +
        (if a ∈ k.devAccount s.store then amountOf dev denom else 0) -
        (if a = payer then amountOf amt denom else 0) := by
  unfold Keeper.payCircuitDeposit at h
  simp only [bind_eq_ok, ofOption_eq_ok] at h
  obtain ⟨-, -, amt, hamt, app, happ, h⟩ := h
  have hs' : s'.app = app := by
    cases hpaid : circuitDepositPaidUntil s.store payer <;> simp only [hpaid] at h <;> cases h <;> rfl
  have hsum := amountOf_splitCircuitRunway (circuitDepositFee_pos hamt)
  obtain ⟨mid, hval, hdev⟩ := receiveCircuitRunwayPayment_eq_ok hbank happ
  refine ⟨amt, _, _, hamt, hsum, ?_, fun a denom => ?_⟩
  · rcases hdev with ⟨hnil, -⟩ | ⟨dev, hdev, -⟩
    · exact fun hne => (hne hnil).elim
    · exact fun _ => by rw [hdev]; rfl
  · rw [hs', ← hsum denom]
    rcases hdev with ⟨hnil, rfl⟩ | ⟨dev, hdev, hmoved⟩
    · rw [hval a denom, hnil]
      simp
    · rw [hmoved a denom, hval a denom, hdev]
      simp only [Option.mem_def, Option.some.injEq, eq_comm]
      split_ifs <;> ring

end payments

/-! ## Settlements -/

section settlements

variable {b : Block} {bal : List Coin} {weightSum : Int64}

/-- The payouts as entries of a book. -/
def entries (paid : List Payout) : List (AccAddress × List Coin) := paid.map fun p => (p.account, p.coins)

theorem payValidator_eq_ok {s s' : β × List Payout} {v : Validator} (h : k.payValidator b bal weightSum s v = .ok s') :
    s' = s ∨ ∃ op coins app, shareOf bal (b.weight v) weightSum = some coins ∧
      k.sendCoinsFromModuleToAccount s.1 circuitValPoolName op coins = some app ∧
      s' = (app, s.2 ++ [⟨v, op, coins⟩]) := by
  unfold RunwayKeeper.payValidator at h
  split_ifs at h with hweight
  · exact .inl (ok.inj h).symm
  cases hop : k.valAddressFromBech32 v.operatorAddress with
  | none =>
    simp only [hop] at h
    exact .inl (ok.inj h).symm
  | some op =>
    simp only [hop, bind_eq_ok, ofOption_eq_ok] at h
    obtain ⟨coins, hshare, h⟩ := h
    split_ifs at h with hnil
    · exact .inl (ok.inj h).symm
    cases hsend : k.sendCoinsFromModuleToAccount s.1 circuitValPoolName op coins with
    | none =>
      simp only [hsend] at h
      exact .inl (ok.inj h).symm
    | some app =>
      simp only [hsend] at h
      exact .inr ⟨op, coins, app, hshare, hsend, (ok.inj h).symm⟩

/-- What holds of the payouts made so far; `rest` are the validators still to come. -/
structure PaidSoFar (k : RunwayKeeper ν β) (balance : β → AccAddress → Bytes → ℤ) (app : β) (b : Block)
    (bal : List Coin) (weightSum : Int64) (vals : List Validator) (s : β × List Payout)
    (rest : List Validator) : Prop where
  validators : (s.2.map Payout.validator ++ rest).Sublist vals
  shares : ∀ p ∈ s.2, shareOf bal (b.weight p.validator) weightSum = some p.coins
  recipients : ∀ p ∈ s.2, p.account ≠ k.moduleAddress circuitValPoolName
  moved : ∀ a denom, balance s.1 a denom = balance app a denom + totalOf (entries s.2) a denom -
    (if a = k.moduleAddress circuitValPoolName then total (entries s.2) denom else 0)

theorem PaidSoFar.start (app : β) (vals : List Validator) :
    PaidSoFar k balance app b bal weightSum vals (app, []) vals where
  validators := by simp
  shares := by simp
  recipients := by simp
  moved := by simp [entries]

theorem PaidSoFar.next (hbank : LawfulBank k balance) {app : β} {vals rest : List Validator}
    {s s' : β × List Payout} {v : Validator} (h : k.payValidator b bal weightSum s v = .ok s')
    (hs : PaidSoFar k balance app b bal weightSum vals s (v :: rest)) :
    PaidSoFar k balance app b bal weightSum vals s' rest := by
  rcases payValidator_eq_ok h with rfl | ⟨op, coins, app', hshare, hsend, rfl⟩
  · exact { hs with validators := ((sublist_cons_self v rest).append_left _).trans hs.validators }
  · refine ⟨by simpa using hs.validators, ?_, ?_, fun a denom => ?_⟩
    · intro p hp
      rcases mem_append.mp hp with hp | hp
      · exact hs.shares p hp
      · rw [mem_singleton.mp hp]
        exact hshare
    · intro p hp
      rcases mem_append.mp hp with hp | hp
      · exact hs.recipients p hp
      · rw [mem_singleton.mp hp]
        exact hbank.blocked _ _ _ _ _ hsend
    · rw [hbank.sendFromModule _ _ _ _ _ hsend a denom, hs.moved a denom]
      simp only [entries, map_append, map_cons, map_nil, totalOf_append, total_append,
        totalOf_singleton, total_singleton]
      split_ifs <;> ring

variable {app app' : β} {paid : List Payout}

theorem settleCircuitValPool_eq_ok (hbank : LawfulBank k balance)
    (h : k.settleCircuitValPool app b = .ok (app', paid)) :
    PaidSoFar k balance app b (k.getAllBalances app (k.moduleAddress circuitValPoolName))
      (b.weightSum (b.bonded.getD [])) (b.bonded.getD []) (app', paid) [] ∧
      (paid = [] ∨ b.weightSum (b.bonded.getD []) ≠ 0) := by
  have hnone : PaidSoFar k balance app b (k.getAllBalances app (k.moduleAddress circuitValPoolName))
      (b.weightSum (b.bonded.getD [])) (b.bonded.getD []) (app, []) [] :=
    { PaidSoFar.start app (b.bonded.getD []) with validators := by simp }
  unfold RunwayKeeper.settleCircuitValPool at h
  cases hvals : b.bonded with
  | none =>
    simp only [hvals] at h
    cases h
    exact ⟨hvals ▸ hnone, .inl rfl⟩
  | some vals =>
    cases vals with
    | nil =>
      simp only [hvals] at h
      cases h
      exact ⟨hvals ▸ hnone, .inl rfl⟩
    | cons =>
      simp only [hvals] at h
      split_ifs at h with hbal hsum
      · cases h
        exact ⟨hvals ▸ hnone, .inl rfl⟩
      · cases h
        exact ⟨hvals ▸ hnone, .inl rfl⟩
      · exact ⟨forEach_rule (fun _ _ _ _ _ hbody hs => hs.next hbank hbody) _ _ _ _ h (.start ..), .inr hsum⟩

theorem tickCircuitEpoch_eq_ok {s s' : RunwayState ν β} (h : k.tickCircuitEpoch s b = .ok (s', paid)) :
    s'.store = s.store ∧ (s'.app = s.app ∧ paid = [] ∨
      k.settleCircuitValPool s.app b = .ok (s'.app, paid)) := by
  unfold RunwayKeeper.tickCircuitEpoch at h
  cases hepoch : s.epoch with
  | none =>
    simp only [hepoch] at h
    cases h
    exact ⟨rfl, .inl ⟨rfl, rfl⟩⟩
  | some info =>
    simp only [hepoch] at h
    generalize (if info.durationSeconds ≤ 0 then
      { info with durationSeconds := circuitEpochDurationDefault } else info : CircuitEpochInfo) = info' at h
    split at h
    · obtain ⟨⟨app, paid'⟩, hsettle, h⟩ := bind_eq_ok.mp h
      cases h
      exact ⟨rfl, .inr hsettle⟩
    split at h
    · cases h
      exact ⟨rfl, .inl ⟨rfl, rfl⟩⟩
    · obtain ⟨⟨app, paid'⟩, hsettle, h⟩ := bind_eq_ok.mp h
      cases h
      refine ⟨rfl, ?_⟩
      unfold RunwayKeeper.afterEpochEnd at hsettle
      split_ifs at hsettle
      · cases hsettle
        exact .inl ⟨rfl, rfl⟩
      · exact .inr hsettle

theorem tickCircuitEpoch_balance (hbank : LawfulBank k balance) {s s' : RunwayState ν β}
    (h : k.tickCircuitEpoch s b = .ok (s', paid)) (a : AccAddress) (denom : Bytes) :
    balance s'.app a denom = balance s.app a denom + totalOf (entries paid) a denom -
      (if a = k.moduleAddress circuitValPoolName then total (entries paid) denom else 0) := by
  rcases (tickCircuitEpoch_eq_ok h).2 with ⟨happ, rfl⟩ | hsettle
  · rw [happ]
    simp [entries]
  · exact (settleCircuitValPool_eq_ok hbank hsettle).1.moved a denom

end settlements

/-! ## Shares -/

section shares

variable {b : Block} {vals : List Validator}

/-- The exact sum of the weights. -/
def Block.whole (b : Block) (vals : List Validator) : ℤ := (vals.map fun v => (b.weight v).toInt).sum

theorem weight_nonneg (b : Block) (v : Validator) : 0 ≤ (b.weight v).toInt := by
  unfold Block.weight
  split_ifs with hneg
  · simp
  · simpa [Int64.lt_iff_toInt_lt] using hneg

theorem whole_nonneg (b : Block) (vals : List Validator) : 0 ≤ b.whole vals :=
  sum_nonneg (forall_mem_map.mpr fun v _ => weight_nonneg b v)

theorem toInt_weightSum (h : b.whole vals < 2 ^ 63) : (b.weightSum vals).toInt = b.whole vals := by
  have hnonneg := whole_nonneg b vals
  rw [Block.weightSum, toInt_foldl_add_zero, ← Block.whole]
  exact bmod_eq_self (by omega) h

theorem shareOf_eq_some {w weightSum : Int64} : ∀ {bal coins : List Coin},
    shareOf bal w weightSum = some coins → coins =
      (bal.map fun c => ⟨c.denom, (c.amount * w.toInt).tdiv weightSum.toInt⟩).filter Coin.isPositive := by
  intro bal coins h
  simp only [shareOf, Option.bind_eq_bind, Option.bind_eq_some_iff, Option.pure_def, Option.some.injEq] at h
  obtain ⟨all, hall, rfl⟩ := h
  congr 1
  induction bal generalizing all with
  | nil => simpa using hall.symm
  | cons c bal ih =>
    simp only [mapM_cons, Option.bind_eq_bind, Option.bind_eq_some_iff, Option.pure_def, Option.some.injEq] at hall
    obtain ⟨_, ⟨product, hproduct, each, heach, rfl⟩, rest, hrest, rfl⟩ := hall
    unfold SdkInt.mul at hproduct
    unfold SdkInt.quo at heach
    split_ifs at hproduct heach
    cases hproduct
    cases heach
    rw [map_cons, ← ih rest hrest]

theorem LawfulBank.nonneg (hbank : LawfulBank k balance) (app : β) (a : AccAddress) (denom : Bytes) :
    0 ≤ balance app a denom := by
  rw [← hbank.balances]
  refine sum_nonneg (forall_mem_map.mpr fun c hc => ?_)
  have := hbank.positive app a c hc
  unfold Coin.of
  split_ifs <;> omega

theorem amountOf_shareOf (hbank : LawfulBank k balance) {app : β} {a : AccAddress}
    {w weightSum : Int64} {coins : List Coin} (hw : 0 ≤ w.toInt) (hsum : 0 ≤ weightSum.toInt)
    (h : shareOf (k.getAllBalances app a) w weightSum = some coins) (denom : Bytes) :
    amountOf coins denom = balance app a denom * w.toInt / weightSum.toInt := by
  have hnonneg : ∀ n : ℤ, 0 ≤ n → 0 ≤ (n * w.toInt).tdiv weightSum.toInt := fun n hn =>
    Int.tdiv_nonneg (mul_nonneg hn hw) hsum
  rw [shareOf_eq_some h, amountOf_filter_isPositive, amountOf_map (f := fun n =>
    (n * w.toInt).tdiv weightSum.toInt) (by simp) denom (hbank.denoms app a), hbank.balances,
    Int.tdiv_eq_ediv_of_nonneg (mul_nonneg (hbank.nonneg app a denom) hw)]
  exact forall_mem_map.mpr fun c hc => hnonneg _ (hbank.positive app a c hc).le

/-- What a settlement of `vals` does, with the bank going from `app` to `app'`. -/
structure Settled (k : RunwayKeeper ν β) (balance : β → AccAddress → Bytes → ℤ) (b : Block)
    (vals : List Validator) (app app' : β) (paid : List Payout) : Prop where
  /-- each validator is paid at most once, -/
  validators : (paid.map Payout.validator).Sublist vals
  /-- namely its share of the pool, rounded down; -/
  shares : ∀ p ∈ paid, ∀ denom, amountOf p.coins denom =
    share (balance app (k.moduleAddress circuitValPoolName) denom) (b.whole vals)
      (fun v => (b.weight v).toInt) p.validator
  /-- no more is paid than the pool holds; -/
  bounded : ∀ denom, total (entries paid) denom ≤ balance app (k.moduleAddress circuitValPoolName) denom
  /-- and if everybody with a share is paid, less than one unit for each eligible validator is left. -/
  rest : 0 < b.whole vals →
    paid.map Payout.validator = vals.filter (fun v => shareOf
      (k.getAllBalances app (k.moduleAddress circuitValPoolName)) (b.weight v) (b.weightSum vals) ≠ some []) →
    ∀ denom, balance app' (k.moduleAddress circuitValPoolName) denom <
      (vals.filter fun v => 0 < (b.weight v).toInt).length

theorem settled (hbank : LawfulBank k balance) {app app' : β} {paid : List Payout}
    (hwhole : b.whole (b.bonded.getD []) < 2 ^ 63) (h : k.settleCircuitValPool app b = .ok (app', paid)) :
    Settled k balance b (b.bonded.getD []) app app' paid := by
  obtain ⟨hpaid, hsum⟩ := settleCircuitValPool_eq_ok hbank h
  generalize b.bonded.getD [] = vals at *
  generalize hpool : k.moduleAddress circuitValPoolName = pool at *
  have htoInt := toInt_weightSum hwhole
  have hshare : ∀ v coins denom, shareOf (k.getAllBalances app pool) (b.weight v) (b.weightSum vals) =
      some coins → amountOf coins denom =
        share (balance app pool denom) (b.whole vals) (fun v => (b.weight v).toInt) v := by
    intro v coins denom hcoins
    rw [amountOf_shareOf hbank (weight_nonneg b v) (by rw [htoInt]; exact whole_nonneg b vals) hcoins, htoInt, share]
  have htotal : ∀ denom, total (entries paid) denom = ((paid.map Payout.validator).map
      (share (balance app pool denom) (b.whole vals) fun v => (b.weight v).toInt)).sum := by
    intro denom
    rw [total, entries, map_map, map_map]
    exact congrArg List.sum (map_congr_left fun p hp => hshare _ _ _ (hpaid.shares p hp))
  have hvals : (paid.map Payout.validator).Sublist vals := by simpa using hpaid.validators
  subst hpool
  refine ⟨hvals, fun p hp denom => hshare _ _ _ (hpaid.shares p hp), fun denom => ?_, fun hpos hall denom => ?_⟩
  · rcases hsum with rfl | hsum
    · exact hbank.nonneg app _ denom
    · have hpos : 0 < b.whole vals := by
        refine lt_of_le_of_ne (whole_nonneg b vals) fun hzero => hsum ?_
        rw [← Int64.toInt_inj, htoInt, ← hzero, Int64.toInt_zero]
      refine le_trans ?_ (sum_share_le hpos rfl)
      rw [htotal]
      refine (hvals.map _).sum_le_sum (forall_mem_map.mpr fun v _ => ?_)
      exact Int.ediv_nonneg (mul_nonneg (hbank.nonneg app _ denom) (weight_nonneg b v)) hpos.le
  · have hlt := lt_sum_share_add (n := balance app (k.moduleAddress circuitValPoolName) denom) hpos
      rfl fun v (_ : v ∈ vals) => weight_nonneg b v
    have hnone : totalOf (entries paid) (k.moduleAddress circuitValPoolName) denom = 0 :=
      totalOf_of_not_mem (forall_mem_map.mpr hpaid.recipients)
    -- the validators that are left out have no share
    have hrest := sum_map_filter_add_sum_map_filter_not (fun v => shareOf
      (k.getAllBalances app (k.moduleAddress circuitValPoolName)) (b.weight v) (b.weightSum vals) ≠ some [])
      (share (balance app (k.moduleAddress circuitValPoolName) denom) (b.whole vals)
        fun v => (b.weight v).toInt) vals
    rw [← hall, ← htotal, sum_eq_zero, add_zero] at hrest
    · rw [hpaid.moved, hnone, if_pos rfl, hrest]
      omega
    · refine forall_mem_map.mpr fun v hv => ?_
      rw [← hshare v [] denom (by simpa using (mem_filter.mp hv).2), amountOf_nil]

end shares

/-! ## Whole runs -/

section runs

variable {s : RunwayState ν β} {op : RunwayOp}

theorem step_of_ok {s' : RunwayState ν β} {paid : List Payout} (h : k.exec s op = .ok (s', paid)) :
    k.step s op = s' := by
  rw [RunwayKeeper.step, h]
  rfl

theorem step_of_not_ok (h : (k.exec s op).isOk = false) : k.step s op = s := by
  rw [RunwayKeeper.step]
  cases hexec : k.exec s op with
  | ok r => simp [hexec, isOk] at h
  | error | panicked => rfl

theorem devAccount_step : k.devAccount (k.step s op).store = k.devAccount s.store := by
  cases hexec : (k.exec s op).isOk with
  | false => rw [step_of_not_ok hexec]
  | true =>
    obtain ⟨⟨s', paid⟩, hok⟩ := isOk_iff.mp hexec
    rw [step_of_ok hok]
    cases op with
    | payCircuitDeposit =>
      obtain ⟨t, hpay, hs⟩ := bind_eq_ok.mp hok
      cases hs
      have hrow : row t.store .params = row s.store .params :=
        (payCircuitDeposit_touches hpay).row_eq (by simp)
      have hparams : getParams t.store = getParams s.store := by
        rw [getParams]
        rw [show t.store.get paramsKey = row t.store .params from rfl, hrow]
        rfl
      simp only [RunwayKeeper.devAccount, hparams]
    | tickCircuitEpoch b => rw [(tickCircuitEpoch_eq_ok hok).1]

theorem payments_of_not_ok (h : (k.exec s op).isOk = false) : k.payments s op = [] := by
  cases op with
  | payCircuitDeposit => simp [RunwayKeeper.payments, h]
  | tickCircuitEpoch b => rfl

theorem payouts_of_not_ok (h : (k.exec s op).isOk = false) : k.payouts s op = [] := by
  rw [RunwayKeeper.payouts]
  cases hexec : k.exec s op with
  | ok r => simp [hexec, isOk] at h
  | error | panicked => rfl

/-- What a step adds to the pools: all that it takes, but for what they pay and are paid themselves. -/
theorem sum_balance_step (hbank : LawfulBank k balance) {A : Finset AccAddress}
    (hA : k.pools s.store = A) (denom : Bytes) :
    ∑ a ∈ A, balance (k.step s op).app a denom = ∑ a ∈ A, balance s.app a denom +
      (total (k.payments s op) denom + -(∑ a ∈ A, totalOf (k.payments s op) a denom) +
        ∑ a ∈ A, totalOf (k.payouts s op) a denom + -total (k.payouts s op) denom) := by
  have hpool : k.moduleAddress circuitValPoolName ∈ A := hA ▸ Finset.mem_insert_self _ _
  cases hexec : (k.exec s op).isOk with
  | false => simp [step_of_not_ok hexec, payments_of_not_ok hexec, payouts_of_not_ok hexec]
  | true =>
    obtain ⟨⟨s', paid⟩, hok⟩ := isOk_iff.mp hexec
    rw [step_of_ok hok]
    cases op with
    | payCircuitDeposit blockTime payer years =>
      obtain ⟨t, hpay, hs⟩ := bind_eq_ok.mp hok
      cases hs
      obtain ⟨amt, val, dev, hamt, hsum, hdev, hbalance⟩ := payCircuitDeposit_balance hbank hpay
      have hpayments : k.payments s (.payCircuitDeposit blockTime payer years) = [(payer, amt)] := by
        simp only [RunwayKeeper.payments, hexec, if_true, hamt, Option.getD_some]
      have hpayouts : k.payouts s (.payCircuitDeposit blockTime payer years) = [] := by
        rw [RunwayKeeper.payouts, hok]
        rfl
      have hdevs : ∑ a ∈ A, (if a ∈ k.devAccount s.store then amountOf dev denom else 0) = amountOf dev denom := by
        cases haccount : k.devAccount s.store with
        | none =>
          have hnil : dev = [] := by
            by_contra hne
            simpa [haccount] using hdev hne
          simp [hnil]
        | some d =>
          have hmem : d ∈ A := by simp [← hA, RunwayKeeper.pools, haccount]
          simp [hmem]
      simp only [hbalance, hpayments, hpayouts, Finset.sum_sub_distrib, Finset.sum_add_distrib, hdevs,
        Finset.sum_ite_eq', hpool, if_true, total_singleton, totalOf_singleton, total_nil, totalOf_nil,
        Finset.sum_const_zero, ← hsum denom]
      ring
    | tickCircuitEpoch b =>
      have hpayments : k.payments s (.tickCircuitEpoch b) = [] := rfl
      have hpayouts : k.payouts s (.tickCircuitEpoch b) = entries paid := by
        rw [RunwayKeeper.payouts, hok]
        rfl
      simp only [tickCircuitEpoch_balance hbank hok, hpayments, hpayouts, Finset.sum_sub_distrib,
        Finset.sum_add_distrib, Finset.sum_ite_eq', hpool, if_true, total_nil, totalOf_nil,
        Finset.sum_const_zero]
      ring

variable (k)

/-- What a run takes from payers, in all and from one account. -/
def RunwayKeeper.taken (s : RunwayState ν β) (ops : List RunwayOp) (denom : Bytes) : ℤ :=
  gathered k.step (fun s op => total (k.payments s op) denom) s ops

/-- What the operations take from `a`. -/
def RunwayKeeper.takenFrom (a : AccAddress) (s : RunwayState ν β) (ops : List RunwayOp) (denom : Bytes) : ℤ :=
  gathered k.step (fun s op => totalOf (k.payments s op) a denom) s ops

/-- What a run pays to validators, in all and to one account. -/
def RunwayKeeper.paidOut (s : RunwayState ν β) (ops : List RunwayOp) (denom : Bytes) : ℤ :=
  gathered k.step (fun s op => total (k.payouts s op) denom) s ops

/-- What the operations pay to `a`. -/
def RunwayKeeper.paidTo (a : AccAddress) (s : RunwayState ν β) (ops : List RunwayOp) (denom : Bytes) : ℤ :=
  gathered k.step (fun s op => totalOf (k.payouts s op) a denom) s ops

variable {k}

theorem sum_balance_run (hbank : LawfulBank k balance) (s : RunwayState ν β) (ops : List RunwayOp) (denom : Bytes) :
    ∑ a ∈ k.pools s.store, balance (run k.step s ops).app a denom = ∑ a ∈ k.pools s.store, balance s.app a denom +
        (k.taken s ops denom + -(∑ a ∈ k.pools s.store, k.takenFrom a s ops denom) +
          ∑ a ∈ k.pools s.store, k.paidTo a s ops denom + -k.paidOut s ops denom) := by
  have hpools : ∀ t op, k.pools t.store = k.pools s.store → True → k.pools (k.step t op).store = k.pools s.store := by
    intro t op ht _
    rw [← ht, RunwayKeeper.pools, devAccount_step, RunwayKeeper.pools]
  have halong : Along k.step (fun _ _ => True) s ops := Along.of_forall (fun _ _ => trivial) s ops
  rw [run_gathered (f := fun t => ∑ a ∈ k.pools s.store, balance t.app a denom) hpools
    (fun t op ht _ => sum_balance_step hbank ht denom) s ops halong rfl]
  simp only [gathered_add, gathered_neg, gathered_sum, RunwayKeeper.taken, RunwayKeeper.takenFrom,
    RunwayKeeper.paidTo, RunwayKeeper.paidOut]

/-- Runway money is conserved.  In every run, what payers are charged is what the accounts the payments go
to have gained, with what was paid out to validators; an account among these that is itself charged or paid
a share counts with the change of its balance apart from that.  And every settlement pays each validator
its share of the pool, rounded down, or nothing. -/
theorem runway_conserved (hbank : LawfulBank k balance) :
    (∀ (s : RunwayState ν β) (ops : List RunwayOp) (denom : Bytes),
      k.taken s ops denom = ∑ a ∈ k.pools s.store,
        (balance (run k.step s ops).app a denom - balance s.app a denom +
          k.takenFrom a s ops denom - k.paidTo a s ops denom) + k.paidOut s ops denom) ∧
    ∀ (b : Block) (app app' : β) (paid : List Payout), b.whole (b.bonded.getD []) < 2 ^ 63 →
      k.settleCircuitValPool app b = .ok (app', paid) → Settled k balance b (b.bonded.getD []) app app' paid := by
  refine ⟨fun s ops denom => ?_, fun b app app' paid hwhole h => settled hbank hwhole h⟩
  have hrun := sum_balance_run hbank s ops denom
  simp only [Finset.sum_sub_distrib, Finset.sum_add_distrib]
  omega

end runs

/-! ## An example

  Three validators with weights two, one and none share what one payment for a year leaves in the pool. -/

namespace SampleBank

def denom : Bytes := ascii "uterp"

/-- The bank of the example keeps one denomination. -/
def send (app : AccAddress → ℕ) (sender recipient : AccAddress) (coins : List Coin) : Option (AccAddress → ℕ) :=
  if (∀ c ∈ coins, c.denom = denom ∧ 0 ≤ c.amount) ∧ sender ≠ recipient ∧
      amountOf coins denom ≤ app sender then
    some fun a => if a = sender then app a - (amountOf coins denom).toNat
      else if a = recipient then app a + (amountOf coins denom).toNat else app a
  else none

def valPool : AccAddress := account 4

def moduleAddress (module : Bytes) : AccAddress :=
  if module = circuitValPoolName then valPool else account 5

def keeper : RunwayKeeper Files (AccAddress → ℕ) where
  engine := engine {}
  bech32 := string
  accAddressFromBech32 := address
  isAuthority _ := false
  sha256 _ := []
  uncompress _ _ := none
  maxWasmSize := 0
  maxCircuitSize := 0
  circuitDepositYearly := ⟨denom, 1000000⟩
  sendCoins := send
  sendCoinsFromAccountToModule app sender module := send app sender (moduleAddress module)
  classicAddress _ := []
  moduleAddress := moduleAddress
  valAddressFromBech32 := address
  getAllBalances app a := if app a = 0 then [] else [⟨denom, app a⟩]
  sendCoinsFromModuleToAccount app module recipient coins :=
    if recipient = valPool then none else send app (moduleAddress module) recipient coins

def held (app : AccAddress → ℕ) (a : AccAddress) (d : Bytes) : ℤ := if d = denom then app a else 0

theorem moved_of_send {app app' : AccAddress → ℕ} {sender recipient : AccAddress} {coins : List Coin}
    (h : send app sender recipient coins = some app') :
    Moved (held app) (held app') sender recipient coins := by
  unfold send at h
  split_ifs at h with hsend
  obtain ⟨hcoins, hne, hle⟩ := hsend
  cases h
  have hnonneg : 0 ≤ amountOf coins denom := sum_nonneg (forall_mem_map.mpr fun c hc => by
    rw [Coin.of, if_pos (hcoins c hc).1]
    exact (hcoins c hc).2)
  intro a d
  by_cases hd : d = denom
  · subst hd
    by_cases hs : a = sender
    · subst hs
      simp only [held, if_true, if_neg hne]
      omega
    · by_cases hr : a = recipient
      · subst hr
        simp only [held, if_true, if_neg hs]
        omega
      · simp [held, hs, hr]
  · have hzero : amountOf coins d = 0 := amountOf_of_not_mem fun hmem => by
      obtain ⟨c, hc, rfl⟩ := mem_map.mp hmem
      exact hd (hcoins c hc).1
    simp [held, hd, hzero]

theorem lawful : LawfulBank keeper held where
  send _ _ _ _ _ h := moved_of_send h
  sendToModule _ _ _ _ _ h := moved_of_send h
  sendFromModule app module recipient coins app' h := by
    change (if recipient = valPool then none else send app (moduleAddress module) recipient coins) = _ at h
    split_ifs at h
    exact moved_of_send h
  blocked app module recipient coins app' h := by
    change (if recipient = valPool then none else send app (moduleAddress module) recipient coins) = _ at h
    split_ifs at h with hpool
    exact hpool
  balances app a d := by
    change amountOf (if app a = 0 then [] else [⟨denom, app a⟩]) d = _
    unfold held
    split_ifs with hzero hd hd
    · simp [hzero]
    · rfl
    · simp [Coin.of, hd]
    · simp [Coin.of, Ne.symm hd]
  positive app a c hc := by
    change c ∈ (if app a = 0 then [] else [⟨denom, app a⟩]) at hc
    split_ifs at hc with hzero
    · cases hc
    · rw [mem_singleton.mp hc]
      exact Int.natCast_pos.mpr (Nat.pos_of_ne_zero hzero)
  denoms app a := by
    change ((if app a = 0 then [] else [⟨denom, app a⟩] : List Coin).map Coin.denom).Nodup
    split_ifs <;> simp

def start : RunwayState Files (AccAddress → ℕ) where
  store := initialStore defaultParams
  vm := {}
  app a := if a = account 6 then 2000000 else 0
  epoch := some ⟨circuitDistrEpochDay, 1, 0, 0, 0⟩

def validator (n : UInt8) : Validator := ⟨string (account n), false⟩

def block : Block where
  time := 2
  height := 10
  bonded := some [validator 1, validator 2, validator 3]
  circuitWeight := some fun v => if v = validator 1 then 2 else if v = validator 2 then 1 else 0

def ops : List RunwayOp := [.payCircuitDeposit 0 (account 6) 1, .tickCircuitEpoch block]

end SampleBank

open SampleBank in
theorem sample_conserved :
    keeper.taken start ops denom = 1000000 ∧ keeper.paidOut start ops denom = 499999 ∧
      ∑ a ∈ keeper.pools start.store, (held (run keeper.step start ops).app a denom -
        held start.app a denom + keeper.takenFrom a start ops denom -
          keeper.paidTo a start ops denom) = 500001 ∧
      block.whole (block.bonded.getD []) < 2 ^ 63 ∧
      ∃ app app' paid, keeper.settleCircuitValPool app block = .ok (app', paid) ∧
        Settled keeper held block (block.bonded.getD []) app app' paid ∧
        total (entries paid) denom = 499999 := by
  have htaken : keeper.taken start ops denom = 1000000 := by decide +kernel
  have hpaid : keeper.paidOut start ops denom = 499999 := by decide +kernel
  have hwhole : block.whole (block.bonded.getD []) < 2 ^ 63 := by decide +kernel
  have hsum := (runway_conserved lawful).1 start ops denom
  have hok : (keeper.settleCircuitValPool (fun a => if a = valPool then 500000 else 0) block).isOk = true := by
    decide +kernel
  have htotal : total (entries ((keeper.settleCircuitValPool (fun a => if a = valPool then 500000 else 0)
      block).orElse (fun _ => 0, [])).2) denom = 499999 := by decide +kernel
  obtain ⟨⟨app', paid⟩, hsettle⟩ := isOk_iff.mp hok
  rw [hsettle] at htotal
  exact ⟨htaken, hpaid, by omega, hwhole, _, app', paid, hsettle,
    (runway_conserved lawful).2 block _ app' paid hwhole hsettle, htotal⟩

end Wasm
