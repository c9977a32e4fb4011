/-
  The runway pools: deposit payments go half to the validators' pool and half to the developers, and at
  the end of an epoch the validators' pool is shared out among the bonded validators.

  The epoch record is the only row of its key, so it stands beside the store.  Events and log lines are left out.
-/
import TerpCore.Lib.Ledger
import TerpCore.Wasm.System
import Mathlib.Data.Finset.Option

namespace Wasm

open Lib

variable {ν β : Type}

def circuitDistrEpochDay : Bytes := ascii "day"
def circuitEpochDurationDefault : Int64 := 24 * 3600

/-- The epoch record. -/
structure CircuitEpochInfo where
  identifier : Bytes
  durationSeconds : Int64
  currentEpoch : Int64
  currentEpochStartUnix : Int64
  currentEpochStartHeight : Int64
  deriving DecidableEq

/-- A bonded validator.  Operator addresses are distinct, so a weight may depend on anything the chain knows of the
validator. -/
structure Validator where
  operatorAddress : Bytes
  jailed : Bool
  deriving DecidableEq

/-- What the module finds in the block in which it ticks. -/
structure Block where
  time : Int64
  height : Int64
  /-- `CIRCUIT_EPOCH_DURATION_SECONDS`, if it is set and a number -/
  epochDuration : Option Int64 := none
  /-- `GetBondedValidatorsByPower`; `none` is an error, or there is no staking keeper -/
  bonded : Option (List Validator)
  /-- the weight function, if one is set -/
  circuitWeight : Option (Validator → Int64) := none

/-- The keeper with the bank calls that a settlement makes. -/
structure RunwayKeeper (ν β : Type) extends Keeper ν β where
  /-- `authtypes.NewModuleAddress` -/
  moduleAddress : Bytes → AccAddress
  valAddressFromBech32 : Bytes → Option AccAddress
  getAllBalances : β → AccAddress → List Coin
  sendCoinsFromModuleToAccount : β → (module : Bytes) → (recipient : AccAddress) → List Coin → Option β

/-- The state with the epoch record. -/
structure RunwayState (ν β : Type) extends State ν β where
  epoch : Option CircuitEpochInfo

/-- Coins sent to a validator's operator account. -/
structure Payout where
  validator : Validator
  account : AccAddress
  coins : List Coin
  deriving DecidableEq

/-! ## Settlement -/

/-- A jailed validator weighs nothing. -/
def Block.operatorWeight (b : Block) (v : Validator) : Int64 :=
  if v.jailed then 0
  else match b.circuitWeight with
    | some weight => weight v
    | none => 1

/-- `weights[i]`: a negative weight counts as none. -/
def Block.weight (b : Block) (v : Validator) : Int64 :=
  if b.operatorWeight v < 0 then 0 else b.operatorWeight v

/-- The sum of the weights, in 64 bits. -/
def Block.weightSum (b : Block) (vals : List Validator) : Int64 :=
  vals.foldl (fun acc v => acc + b.weight v) 0

/-- The share of a balance: `c.Amount.MulRaw(w).QuoRaw(weightSum)` of each coin, without those that come out as
nothing. -/
def shareOf (bal : List Coin) (w weightSum : Int64) : Option (List Coin) := do
  let coins ← bal.mapM fun c => do
    let product ← SdkInt.mul c.amount w.toInt
    let each ← SdkInt.quo product weightSum.toInt
    return ⟨c.denom, each⟩
  return coins.filter Coin.isPositive

variable (k : RunwayKeeper ν β)

/-- The body of the payout loop, which goes on after an address or a transfer that fails. -/
def RunwayKeeper.payValidator (b : Block) (bal : List Coin) (weightSum : Int64) (s : β × List Payout)
    (v : Validator) : Outcome Err (β × List Payout) :=
  if b.weight v = 0 then .ok s
  else match k.valAddressFromBech32 v.operatorAddress with
    | none => .ok s
    | some op => do
      let coins ← .ofOption (shareOf bal (b.weight v) weightSum)
      if coins = [] then return s
      match k.sendCoinsFromModuleToAccount s.1 circuitValPoolName op coins with
      | none => return s
      | some app => return (app, s.2 ++ [⟨v, op, coins⟩])

/-- The state of the bank, and what was paid out. -/
def RunwayKeeper.settleCircuitValPool (app : β) (b : Block) : Outcome Err (β × List Payout) :=
  match b.bonded with
  | none | some [] => .ok (app, [])
  | some vals =>
    let bal := k.getAllBalances app (k.moduleAddress circuitValPoolName)
    if bal = [] then .ok (app, [])
    else if b.weightSum vals = 0 then .ok (app, [])
    else Outcome.forEach (fun _ => k.payValidator b bal (b.weightSum vals)) 0 (app, []) vals

/-- `AfterEpochEnd`: only the daily epoch settles the pool. -/
def RunwayKeeper.afterEpochEnd (app : β) (b : Block) (epochIdentifier : Bytes) : Outcome Err (β × List Payout) :=
  if epochIdentifier ≠ circuitDistrEpochDay then .ok (app, [])
  else k.settleCircuitValPool app b

def RunwayKeeper.distributeCircuitValPool (app : β) (b : Block) : Outcome Err (β × List Payout) :=
  k.settleCircuitValPool app b

/-! ## Epochs -/

/-- The epoch that the first tick begins. -/
def Block.firstEpoch (b : Block) : CircuitEpochInfo where
  identifier := circuitDistrEpochDay
  durationSeconds := match b.epochDuration with
    | some n => if 0 < n then n else circuitEpochDurationDefault
    | none => circuitEpochDurationDefault
  currentEpoch := 0
  currentEpochStartUnix := if b.time < 0 then 0 else b.time
  currentEpochStartHeight := b.height

/-- `TickCircuitEpoch`: the pool is settled when the epoch is over. -/
def RunwayKeeper.tickCircuitEpoch (s : RunwayState ν β) (b : Block) : Outcome Err (RunwayState ν β × List Payout) :=
  match s.epoch with
  | none => .ok ({ s with epoch := some b.firstEpoch }, [])
  | some info =>
    -- an empty identifier settles in every block
    if info.identifier = [] then do
      let (app, paid) ← k.distributeCircuitValPool s.app b
      return ({ s with app := app }, paid)
    else
      let info := if info.durationSeconds ≤ 0 then
        { info with durationSeconds := circuitEpochDurationDefault } else info
      if b.time < info.currentEpochStartUnix + info.durationSeconds then .ok (s, [])
      else do
        let (app, paid) ← k.afterEpochEnd s.app b info.identifier
        return ({ s with
          app := app
          epoch := some { info with
            currentEpoch := info.currentEpoch + 1
            currentEpochStartUnix := b.time
            currentEpochStartHeight := b.height } }, paid)

/-! ## Runs -/

/-- The operations on the pools. -/
inductive RunwayOp where
  | payCircuitDeposit (blockTime : Int64) (payer : AccAddress) (years : UInt32)
  | tickCircuitEpoch (b : Block)

/-- The state after an operation, and what it paid out. -/
def RunwayKeeper.exec (s : RunwayState ν β) : RunwayOp → Outcome Err (RunwayState ν β × List Payout)
  | .payCircuitDeposit blockTime payer years => do
    let s' ← k.payCircuitDeposit s.toState blockTime payer years
    return ({ s with toState := s' }, [])
  | .tickCircuitEpoch b => k.tickCircuitEpoch s b

/-- A message that fails, and a block that panics, leave the state as it is. -/
def RunwayKeeper.step (s : RunwayState ν β) (op : RunwayOp) : RunwayState ν β :=
  ((k.exec s op).orElse (s, [])).1

/-- What an operation takes, by payer. -/
def RunwayKeeper.payments (s : RunwayState ν β) (op : RunwayOp) : List (AccAddress × List Coin) :=
  match op with
  | .payCircuitDeposit _ payer years =>
    if (k.exec s op).isOk then [(payer, (k.circuitDepositFee years).getD [])] else []
  | .tickCircuitEpoch _ => []

/-- What an operation pays, by recipient. -/
def RunwayKeeper.payouts (s : RunwayState ν β) (op : RunwayOp) : List (AccAddress × List Coin) :=
  ((k.exec s op).orElse (s, [])).2.map fun p => (p.account, p.coins)

/-- Where the developers' half goes: the destination of the parameters, or the pool if there is none. -/
def RunwayKeeper.devAccount (s : Store) : Option AccAddress :=
  match getParams s with
  | .ok params =>
    if params.circuitDevDestination ≠ [] then k.accAddressFromBech32 params.circuitDevDestination
    else some (k.moduleAddress circuitDevPoolName)
  | _ => none

/-- The accounts that payments go to. -/
def RunwayKeeper.pools (s : Store) : Finset AccAddress :=
  insert (k.moduleAddress circuitValPoolName) (k.devAccount s).toFinset

/-- The bank: `balance` is what its accounts hold.  A successful transfer moves its coins, the pool cannot be paid to,
and the balances of an account are listed by denomination. -/
structure LawfulBank (balance : β → AccAddress → Bytes → ℤ) : Prop where
  send : ∀ app sender recipient coins app', k.sendCoins app sender recipient coins = some app' →
    Moved (balance app) (balance app') sender recipient coins
  sendToModule : ∀ app sender module coins app',
    k.sendCoinsFromAccountToModule app sender module coins = some app' →
      Moved (balance app) (balance app') sender (k.moduleAddress module) coins
  sendFromModule : ∀ app module recipient coins app',
    k.sendCoinsFromModuleToAccount app module recipient coins = some app' →
      Moved (balance app) (balance app') (k.moduleAddress module) recipient coins
  blocked : ∀ app module recipient coins app',
    k.sendCoinsFromModuleToAccount app module recipient coins = some app' →
      recipient ≠ k.moduleAddress circuitValPoolName
  balances : ∀ app a denom, amountOf (k.getAllBalances app a) denom = balance app a denom
  positive : ∀ app a, ∀ c ∈ k.getAllBalances app a, 0 < c.amount
  denoms : ∀ app a, ((k.getAllBalances app a).map Coin.denom).Nodup

end Wasm
