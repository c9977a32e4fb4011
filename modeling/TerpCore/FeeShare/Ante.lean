/-
  The payout of the developers, and the chain of ante handlers that is deployed.
-/
import TerpCore.FeeShare.Index
import TerpCore.Lib.SortedCoins
import TerpCore.SmartAccount.App

namespace Feeshare

open Lib Outcome List

/-! ## The payout -/

/-- The share of each developer: a rounded part of each coin. -/
def feePayLogic (sliceSort : SliceSort) (fees : List Coin) (govPercent : LegacyDec) (numPairs : ℕ) :
    Option (List Coin) :=
  (Coins.sort sliceSort fees).foldlM (fun splitFees c => do
    let part ← govPercent.mulInt c.amount
    let part ← part.quoInt64 (Int64.ofNat numPairs)
    let rewardAmount ← part.roundInt
    if rewardAmount = 0 then some splitFees
    else
      let coin ← newCoin c.denom rewardAmount
      Coins.add splitFees coin) []

/-- The coins of a fee that may be paid out.  A denomination that is allowed twice is added twice. -/
def allowedFees (sliceSort : SliceSort) (totalFees : List Coin) (allowedDenoms : List Bytes) : Option (List Coin) :=
  if allowedDenoms = [] then some totalFees
  else (Coins.sort sliceSort totalFees).foldlM (fun fees fee =>
    allowedDenoms.foldlM (fun fees allowed => if fee.denom = allowed then Coins.add fees fee else some fees) fees) []

/-- The coins of one developer: the share of the allowed fees, split among the pairs. -/
def developerCoins (sliceSort : SliceSort) (params : Params) (totalFees : List Coin) (numPairs : ℕ) :
    Option (List Coin) := do
  let fees ← allowedFees sliceSort totalFees params.allowedDenoms
  -- a nil decimal is dereferenced here
  let govPercent ← params.developerShares
  feePayLogic sliceSort fees govPercent numPairs

/-- The decorator, with the bank as a state of its own. -/
structure FeeSharePayoutDecorator (β : Type) where
  keeper : Keeper
  /-- `SendCoinsFromModuleToAccount` from the fee collector, on the state of the bank -/
  sendCoins : β → AccAddress → List Coin → Outcome Err β
  /-- the contract of a `MsgExecuteContract` -/
  executedContract : SmartAccount.Msg → Option Bytes
  sliceSort : SliceSort

namespace FeeSharePayoutDecorator

variable {β : Type} (fsd : FeeSharePayoutDecorator β)

/-- Who is to be paid for a message. -/
def withdrawer (s : Store) (msg : SmartAccount.Msg) : Outcome Err (Option AccAddress) :=
  match fsd.executedContract msg with
  | none => .ok none
  | some contract => do
    let contractAddr ← demand (fsd.keeper.codec.accAddressFromBech32 contract) .sdkAddress
    return (getFeeShare s contractAddr).bind (FeeShare.getWithdrawerAddr fsd.keeper.codec.toBech32)

/-- One payment, whose error is wrapped. -/
def pay (splitFees : List Coin) (bank : β) (withdrawAddr : AccAddress) : Outcome Err β :=
  match fsd.sendCoins bank withdrawAddr splitFees with
  | .error _ => .error .payment
  | sent => sent

/-- `FeeSharePayout`: the withdrawers of the executed contracts are paid in order. -/
def feeSharePayout (s : Store) (totalFees : List Coin) (msgs : List SmartAccount.Msg) (bank : β) : Outcome Err β :=
  if !(getParams s).enableFeeShare then .ok bank
  else do
    let toPay ← forEach (fun _ toPay msg => do
      let withdrawAddr ← fsd.withdrawer s msg
      return toPay ++ withdrawAddr.toList) 0 [] msgs
    if toPay.length = 0 then return bank
    let splitFees ← .ofOption (developerCoins fsd.sliceSort (getParams s) totalFees toPay.length)
    forEach (fun _ bank withdrawAddr => fsd.pay splitFees bank withdrawAddr) 0 bank toPay

/-- What `AnteHandle` does before it goes on to the next decorator. -/
def anteHandle (s : Store) (tx : SmartAccount.Tx) (bank : β) : Outcome Err β :=
  match tx.feeTx with
  | none => .error .notFeeTx
  | some feeTx =>
    match fsd.feeSharePayout s feeTx.fee tx.msgs bank with
    | .error e => .error (.insufficientFunds e)
    | paid => paid

end FeeSharePayoutDecorator

/-! ## What is due -/

/-- A payment to a withdrawer. -/
structure Payment where
  recipient : AccAddress
  coins : List Coin
  deriving DecidableEq

section due

variable {β : Type} (fsd : FeeSharePayoutDecorator β) (s : Store)

/-- The withdrawer that is registered for the contract of a message. -/
def withdrawerOf (msg : SmartAccount.Msg) : Option AccAddress :=
  (fsd.executedContract msg).bind fun contract =>
    (fsd.keeper.codec.accAddressFromBech32 contract).bind fun contractAddr =>
      (getFeeShare s contractAddr).bind (FeeShare.getWithdrawerAddr fsd.keeper.codec.toBech32)

/-- The withdrawers that a transaction has to pay, one for each message to a registered contract. -/
def withdrawersOf (msgs : List SmartAccount.Msg) : List AccAddress := msgs.filterMap (withdrawerOf fsd s)

/-- The payments due for a transaction; `none` if an amount leaves the range of the numbers. -/
def due (totalFees : List Coin) (msgs : List SmartAccount.Msg) : Option (List Payment) :=
  if (getParams s).enableFeeShare && withdrawersOf fsd s msgs ≠ [] then
    (developerCoins fsd.sliceSort (getParams s) totalFees (withdrawersOf fsd s msgs).length).map fun coins =>
      (withdrawersOf fsd s msgs).map fun w => ⟨w, coins⟩
  else some []

/-- The addresses of the contracts can be read, as `ValidateBasic` asks. -/
def Readable (msgs : List SmartAccount.Msg) : Prop :=
  ∀ msg ∈ msgs, ∀ contract, fsd.executedContract msg = some contract →
    (fsd.keeper.codec.accAddressFromBech32 contract).isSome

variable {fsd s}

theorem withdrawer_eq {msgs : List SmartAccount.Msg} (h : Readable fsd msgs) {msg : SmartAccount.Msg}
    (hmsg : msg ∈ msgs) :
    fsd.withdrawer s msg = .ok (withdrawerOf fsd s msg) := by
  rw [FeeSharePayoutDecorator.withdrawer, withdrawerOf]
  cases hexec : fsd.executedContract msg with
  | none => rfl
  | some contract =>
    obtain ⟨addr, haddr⟩ := Option.isSome_iff_exists.mp (h msg hmsg contract hexec)
    simp [haddr, demand]

theorem forEach_withdrawers {all : List SmartAccount.Msg} (h : Readable fsd all) :
    ∀ (msgs : List SmartAccount.Msg) (i : ℕ) (toPay : List AccAddress), (∀ msg ∈ msgs, msg ∈ all) →
      forEach (fun _ toPay msg => do
        let withdrawAddr ← fsd.withdrawer s msg
        return toPay ++ withdrawAddr.toList) i toPay msgs = .ok (toPay ++ withdrawersOf fsd s msgs)
  | [], _, toPay, _ => by rw [withdrawersOf, filterMap_nil, append_nil, forEach]
  | msg :: msgs, i, toPay, hall => by
    rw [forall_mem_cons] at hall
    rw [forEach, withdrawer_eq h hall.1, ok_bind, pure_eq, ok_bind,
      forEach_withdrawers h msgs (i + 1) _ hall.2, withdrawersOf, withdrawersOf, filterMap_cons]
    cases withdrawerOf fsd s msg <;> simp

end due

/-- A bank that only writes down what is paid. -/
def record (log : List Payment) (recipient : AccAddress) (coins : List Coin) : Outcome Err (List Payment) :=
  .ok (log ++ [⟨recipient, coins⟩])

theorem forEach_record {fsd : FeeSharePayoutDecorator (List Payment)} (hrecord : fsd.sendCoins = record)
    (coins : List Coin) : ∀ (toPay : List AccAddress) (i : ℕ) (log : List Payment),
      forEach (fun _ log w => fsd.pay coins log w) i log toPay = .ok (log ++ toPay.map fun w => ⟨w, coins⟩)
  | [], _, log => by rw [map_nil, append_nil, forEach]
  | w :: toPay, i, log => by
    have hpay : fsd.pay coins log w = .ok (log ++ [⟨w, coins⟩]) := by
      rw [FeeSharePayoutDecorator.pay, hrecord]
      rfl
    rw [forEach, hpay, ok_bind, forEach_record hrecord coins toPay (i + 1), append_assoc, map_cons, singleton_append]

theorem feeSharePayout_due {fsd : FeeSharePayoutDecorator (List Payment)} (hrecord : fsd.sendCoins = record)
    {s : Store} {totalFees : List Coin} {msgs : List SmartAccount.Msg} (hread : Readable fsd msgs)
    {payments : List Payment} (hdue : due fsd s totalFees msgs = some payments) (log : List Payment) :
    fsd.feeSharePayout s totalFees msgs log = .ok (log ++ payments) := by
  have hloop := forEach_withdrawers (s := s) hread msgs 0 [] fun _ h => h
  rw [nil_append] at hloop
  unfold due at hdue
  rw [FeeSharePayoutDecorator.feeSharePayout, hloop]
  cases henabled : (getParams s).enableFeeShare with
  | false =>
    rw [henabled] at hdue
    cases hdue
    simp
  | true =>
    rw [henabled] at hdue
    by_cases hnil : withdrawersOf fsd s msgs = []
    · rw [if_neg (by simpa using hnil)] at hdue
      cases hdue
      simp [hnil]
    · rw [if_pos (by simpa using hnil), Option.map_eq_some_iff] at hdue
      obtain ⟨coins, hcoins, rfl⟩ := hdue
      simp only [ok_bind, length_eq_zero_iff, if_neg hnil]
      rw [hcoins]
      exact forEach_record hrecord coins _ 0 log

/-! ## The chain of ante handlers -/

section chain

variable {ρ : Type}

/-- What a transaction is delivered in: what the handlers reach, the store of this module, and the payments, which
none of them makes. -/
structure DeliverState (ρ : Type) where
  txContext : SmartAccount.TxContext ρ
  feeShare : Store
  payments : List Payment

/-- The ante handler of the app, which runs before the decorator. -/
def anteHandler (app : SmartAccount.App ρ) (tx : SmartAccount.Tx) :
    Proc (DeliverState ρ) SmartAccount.Err SmartAccount.Flow :=
  .zoom DeliverState.txContext (fun s t => { s with txContext := t }) (app.anteHandler tx)

/-- The fee of a transaction. -/
def feeOf (tx : SmartAccount.Tx) : List Coin := (tx.feeTx.map SmartAccount.FeeTx.fee).getD []

/-- The developers get what is due, and nobody else gets anything.  A payment of no coins is none. -/
def DevelopersPaid {β : Type} (fsd : FeeSharePayoutDecorator β) (tx : SmartAccount.Tx) (s s' : DeliverState ρ) : Prop :=
  ∀ payments, due fsd s.feeShare (feeOf tx) tx.msgs = some payments →
    s'.payments = s.payments ++ payments.filter fun p => p.coins ≠ []

/-- Nothing is due: the module is disabled, no message is to a registered contract, or no coin is left. -/
def NothingDue {β : Type} (fsd : FeeSharePayoutDecorator β) (tx : SmartAccount.Tx) (s : Store) : Prop :=
  (getParams s).enableFeeShare = false ∨ withdrawersOf fsd s tx.msgs = [] ∨
    ∀ coins, developerCoins fsd.sliceSort (getParams s) (feeOf tx) (withdrawersOf fsd s tx.msgs).length = some coins →
      coins = []

theorem nothingDue_iff {β : Type} (fsd : FeeSharePayoutDecorator β) (tx : SmartAccount.Tx) (s : Store) :
    NothingDue fsd tx s ↔ ∀ payments, due fsd s (feeOf tx) tx.msgs = some payments →
      payments.filter (fun p => p.coins ≠ []) = [] := by
  rw [NothingDue, due]
  cases (getParams s).enableFeeShare with
  | false => simp
  | true =>
    by_cases hnil : withdrawersOf fsd s tx.msgs = []
    · simp [hnil]
    · have hsome : ∀ coins : List Coin, (((withdrawersOf fsd s tx.msgs).map fun w => Payment.mk w coins).filter
          fun p => p.coins ≠ []) = [] ↔ coins = [] := by
        intro coins
        obtain ⟨w, hw⟩ := exists_mem_of_ne_nil _ hnil
        simp only [filter_eq_nil_iff, forall_mem_map, decide_not, Bool.not_eq_true', decide_eq_false_iff_not, not_not]
        exact ⟨fun h => h w hw, fun h _ _ => h⟩
      simp only [Bool.true_eq_false, false_or, hnil, Bool.true_and, ne_eq, not_false_eq_true, decide_true, if_true,
        Option.map_eq_some_iff, forall_exists_index, and_imp, forall_apply_eq_imp_iff₂, hsome]

/-- For every application, state and accepted transaction: the developers are paid if and only if nothing is due. -/
theorem developers_paid_iff {β : Type} (app : SmartAccount.App ρ) (fsd : FeeSharePayoutDecorator β)
    {s s' : DeliverState ρ} {tx : SmartAccount.Tx} {flow : SmartAccount.Flow}
    (haccepted : anteHandler app tx s = (.ok flow, s')) :
    DevelopersPaid fsd tx s s' ↔ NothingDue fsd tx s.feeShare := by
  have hkept : s'.payments = s.payments := (congrArg (fun r => r.2.payments) haccepted).symm
  rw [nothingDue_iff, DevelopersPaid, hkept]
  exact forall₂_congr fun payments _ => self_eq_append_right

end chain

namespace Sample

/-- A chain that gives half of the fees to the developers. -/
def half : Store := run keeper.step (chain ⟨⟨true, some ⟨5 * 10 ^ 17⟩, []⟩, []⟩) registrations

/-- A message is executed by a contract if its type says so. -/
def fsd : FeeSharePayoutDecorator (List Payment) where
  keeper := keeper
  sendCoins := record
  executedContract msg := if msg.typeURL = ascii "/cosmwasm.wasm.v1.MsgExecuteContract" then msg.value else none
  sliceSort := .insertion

open SmartAccount.Sample in
/-- alice executes contracts and pays 100 uterp. -/
def execute (contracts : List AccAddress) : SmartAccount.Tx :=
  { txOf (contracts.map fun _ => (alice, 1, .other)) with
    msgs := contracts.map fun c => ⟨ascii "/cosmwasm.wasm.v1.MsgExecuteContract", some (text c), some [alice], .other⟩
    feeTx := some ⟨alice, [], [⟨ascii "uterp", 100⟩], 1000⟩ }

/-- A block in which such a transaction is delivered. -/
def delivered : DeliverState Unit := ⟨SmartAccount.Sample.entry, half, []⟩

end Sample

open Sample in
/-- Contracts that are not registered. -/
theorem unregistered_unpaid :
    let tx := execute [contract 8, contract 9]
    (getParams delivered.feeShare).enableFeeShare = true ∧
      DevelopersPaid fsd tx delivered (anteHandler SmartAccount.Sample.app tx delivered).2 := by
  intro tx
  have hok : (anteHandler SmartAccount.Sample.app tx delivered).1.isOk = true := by decide +kernel
  obtain ⟨flow, haccepted⟩ := Proc.eq_ok_of_isOk hok
  exact ⟨by decide +kernel, (developers_paid_iff _ fsd haccepted).mpr (.inr (.inl (by decide +kernel)))⟩

open Sample in
/-- The transaction is accepted, 25 uterp are due for either message, and nothing is paid. -/
theorem developer_unpaid :
    let tx := execute [contract 3, contract 4]
    (getParams delivered.feeShare).enableFeeShare = true ∧
    (anteHandler SmartAccount.Sample.app tx delivered).1.isOk = true ∧
    due fsd delivered.feeShare (feeOf tx) tx.msgs =
      some [⟨account 1, [⟨ascii "uterp", 25⟩]⟩, ⟨account 2, [⟨ascii "uterp", 25⟩]⟩] ∧
    (anteHandler SmartAccount.Sample.app tx delivered).2.payments = [] :=
  ⟨by decide +kernel, by decide +kernel, by decide +kernel, rfl⟩

open Sample in
/-- The decorator would pay them. -/
example : fsd.anteHandle half (execute [contract 3, contract 4]) [] =
    .ok [⟨account 1, [⟨ascii "uterp", 25⟩]⟩, ⟨account 2, [⟨ascii "uterp", 25⟩]⟩] := by
  decide +kernel

end Feeshare
