/-
  Circuit deposits: a payment covers its payer for some years, and at the end of each block a bounded
  number of expired payers lose their row and their circuits.
-/
import TerpCore.Wasm.Pin
import TerpCore.Wasm.Upload

namespace Wasm

open Lib

variable {ν β : Type} (k : Keeper ν β)

def circuitDepositSecondsPerYear : UInt64 := 365 * 24 * 3600
def circuitDepositMaxYears : UInt32 := 10
def circuitDepositYearlyAmount : ℤ := 1000000
def maxCircuitDepositGCDepositees : Nat := 8
def maxCircuitDepositGCCircuits : Nat := 2
def circuitValPoolName : Bytes := ascii "circuit_val_pool"
def circuitDevPoolName : Bytes := ascii "circuit_dev_pool"

/-! ## Index access -/

/-- The time until which `addr` has paid. -/
def setCircuitDepositee (s : Store) (addr : AccAddress) (paidUntil : UInt64) : Store :=
  s.set (getCircuitDepositeeKey addr) (.raw (be64 paidUntil))

def removeCircuitDepositee (s : Store) (addr : AccAddress) : Store :=
  s.delete (getCircuitDepositeeKey addr)

/-- An entry of the index by expiry. -/
def setCircuitDepositExpiry (s : Store) (paidUntil : UInt64) (addr : AccAddress) : Store :=
  s.set (circuitDepositExpiryPrefix ++ getCircuitDepositExpiryKey paidUntil addr) (.raw [1])

def deleteCircuitDepositExpiry (s : Store) (paidUntil : UInt64) (addr : AccAddress) : Store :=
  s.delete (circuitDepositExpiryPrefix ++ getCircuitDepositExpiryKey paidUntil addr)

def hasExpiryIndex (s : Store) (paidUntil : UInt64) (addr : AccAddress) : Bool :=
  s.has (circuitDepositExpiryPrefix ++ getCircuitDepositExpiryKey paidUntil addr)

/-- `addr` has circuits left to collect. -/
def setCircuitDepositGC (s : Store) (addr : AccAddress) : Store :=
  s.set (circuitDepositGCPrefix ++ getCircuitDepositGCKey addr) (.raw [1])

def deleteCircuitDepositGC (s : Store) (addr : AccAddress) : Store :=
  s.delete (circuitDepositGCPrefix ++ getCircuitDepositGCKey addr)

/-! ## Payment -/

/-- Half of each coin for the validators, the rest for the developers. -/
def splitCircuitRunway (amt : List Coin) : List Coin × List Coin :=
  let coins := amt.filter Coin.isPositive
  ((coins.map fun c => ⟨c.denom, c.amount.tdiv 2⟩).filter Coin.isPositive,
    (coins.map fun c => ⟨c.denom, c.amount - c.amount.tdiv 2⟩).filter Coin.isPositive)

/-- An error of the bank. -/
def bankOr : Option β → Outcome Err β
  | some app => .ok app
  | none => .error .outside

/-- The payment goes to the two pools. -/
def Keeper.receiveCircuitRunwayPayment (s : State ν β) (payer : AccAddress) (amt : List Coin) : Outcome Err β := do
  let (valPool, devPool) := splitCircuitRunway amt
  let app ← if valPool = [] then .ok s.app
    else bankOr (k.sendCoinsFromAccountToModule s.app payer circuitValPoolName valPool)
  if devPool = [] then return app
  let params ← getParams s.store
  if params.circuitDevDestination ≠ [] then
    match k.accAddressFromBech32 params.circuitDevDestination with
    | none => .error .outside
    | some addr => bankOr (k.sendCoins app payer addr devPool)
  else bankOr (k.sendCoinsFromAccountToModule app payer circuitDevPoolName devPool)

/-- `sdk.NewCoins(sdk.NewCoin(fee.Denom, fee.Amount.MulRaw(years)))`; it panics on an invalid coin. -/
def Keeper.circuitDepositFee (years : UInt32) : Option (List Coin) := do
  let fee := if k.circuitDepositYearly.isPositive then k.circuitDepositYearly
    else ⟨ascii "stake", circuitDepositYearlyAmount⟩
  let amount := fee.amount * years.toNat
  if fitsBits 256 amount then newCoins ⟨fee.denom, amount⟩ else none

/-- `PayCircuitDeposit`: the time grows by whole years. -/
def Keeper.payCircuitDeposit (s : State ν β) (blockTime : Int64) (payer : AccAddress) (years : UInt32) :
    Outcome Err (State ν β) := do
  Outcome.require (years != 0 && years ≤ circuitDepositMaxYears)
    (.wrap s!"years must be 1..{circuitDepositMaxYears}" .limit)
  let amt ← .ofOption (k.circuitDepositFee years)
  let app ← k.receiveCircuitRunwayPayment s payer amt
  let now := nowUnix blockTime
  -- an existing deposit is prolonged, and its old expiry entry goes
  let (start, store) := match circuitDepositPaidUntil s.store payer with
    | some existing =>
      (if now < existing then existing else now, deleteCircuitDepositExpiry s.store existing payer)
    | none => (now, s.store)
  let paidUntil := start + years.toUInt64 * circuitDepositSecondsPerYear
  let store := setCircuitDepositee store payer paidUntil
  let store := setCircuitDepositExpiry store paidUntil payer
  return { s with store := deleteCircuitDepositGC store payer, app := app }

/-! ## Garbage collection -/

/-- The scan of a creator's index: at most `max` ids, and whether there are more. -/
def creatorIDs (max : Nat) (ids : List UInt64) : List Bytes → List UInt64 × Bool
  | [] => (ids, false)
  | key :: keys =>
    if key.length = 8 then
      match bigEndianToUint64 key with
      | some id =>
        if max < (ids ++ [id]).length then ((ids ++ [id]).take max, true)
        else creatorIDs max (ids ++ [id]) keys
      | none => creatorIDs max ids keys
    else creatorIDs max ids keys

/-- Removes one circuit of a creator; an id without a circuit loses its index entry only. -/
def Keeper.pruneCircuit (creator : AccAddress) (s : State ν β) (zkID : UInt64) : State ν β :=
  match k.removeCircuit s zkID with
  | .ok s => s
  | _ => { s with store := deleteCircuitCreatorIndex s.store creator zkID }

/-- Removes up to `max` circuits of a creator: the state, how many ids were worked off, and whether some
are left. -/
def Keeper.pruneCreatorCircuits (s : State ν β) (creator : AccAddress) (max : Nat) : State ν β × Nat × Bool :=
  if max = 0 then (s, 0, hasCircuitCreatorIndex s.store creator)
  else
    let (ids, more) := creatorIDs max []
      ((s.store.iterator (getCircuitByCreatorIDPrefix creator)).map Prod.fst)
    let s := ids.foldl (k.pruneCircuit creator) s
    (s, ids.length, more || hasCircuitCreatorIndex s.store creator)

/-- Prunes a creator and leaves a marker if there is more to do. -/
def Keeper.pruneAndMark (s : State ν β) (addr : AccAddress) (max : Nat) : State ν β × Nat :=
  let (s, n, more) := k.pruneCreatorCircuits s addr max
  let store := if more then setCircuitDepositGC s.store addr else deleteCircuitDepositGC s.store addr
  ({ s with store := store }, n)

/-- The first loop: marked payers.  `none` for the budgets says that the call is over. -/
def Keeper.prunePending (k : Keeper ν β) (circuitsLeft depositeesLeft : Nat) (s : State ν β) :
    List AccAddress → State ν β × Option (Nat × Nat)
  | [] => (s, some (circuitsLeft, depositeesLeft))
  | addr :: addrs =>
    if depositeesLeft = 0 ∨ circuitsLeft = 0 then (s, none)
    else
      let (s, n) := k.pruneAndMark s addr circuitsLeft
      k.prunePending (circuitsLeft - n) (depositeesLeft - 1) s addrs

/-- An expiry entry is due if the row still has its time, and the time has passed. -/
def isDue (s : Store) (now paidUntil : UInt64) (addr : AccAddress) : Bool :=
  match circuitDepositPaidUntil s addr with
  | some cur => cur = paidUntil && !(now.toInt64 < cur.toInt64)
  | none => false

/-- The second loop: expired payers. -/
def Keeper.pruneExpired (k : Keeper ν β) (now : UInt64) (circuitsLeft depositeesLeft : Nat) (s : State ν β) :
    List (UInt64 × AccAddress) → Outcome Err (State ν β)
  | [] => .ok s
  | (paidUntil, addr) :: hits =>
    if depositeesLeft = 0 ∨ circuitsLeft = 0 then .ok s
    else if isDue s.store now paidUntil addr then do
      let store := removeCircuitDepositee s.store addr
      let store := deleteCircuitDepositExpiry store paidUntil addr
      let params ← getParams store
      let allowed ← .ofOption (params.circuitUploadAccessConfig.allowed (k.bech32 addr))
      if allowed then
        k.pruneExpired now circuitsLeft (depositeesLeft - 1)
          { s with store := deleteCircuitDepositGC store addr } hits
      else
        let (s, n) := k.pruneAndMark { s with store := store } addr circuitsLeft
        k.pruneExpired now (circuitsLeft - n) (depositeesLeft - 1) s hits
    else
      k.pruneExpired now circuitsLeft depositeesLeft
        { s with store := deleteCircuitDepositExpiry s.store paidUntil addr } hits

/-- The marked payers, in key order. -/
def pendingGC (s : Store) : List AccAddress :=
  (s.iterator circuitDepositGCPrefix).filterMap fun e => parseCircuitDepositGCKey e.1

/-- The expiry entries up to `now`, in key order. -/
def expiredHits (s : Store) (now : UInt64) : List (UInt64 × AccAddress) :=
  (s.iteratorBelow circuitDepositExpiryPrefix (be64 (now + 1))).filterMap fun e =>
    parseCircuitDepositExpiryKey e.1

/-- `PruneExpiredCircuitDeposits`: what is pending first, then what has expired. -/
def Keeper.pruneExpiredCircuitDeposits (s : State ν β) (blockTime : Int64) : Outcome Err (State ν β) :=
  let now := nowUnix blockTime
  match k.prunePending maxCircuitDepositGCCircuits maxCircuitDepositGCDepositees s
      (pendingGC s.store) with
  | (s, none) => .ok s
  | (s, some (circuitsLeft, depositeesLeft)) =>
    k.pruneExpired now circuitsLeft depositeesLeft s
      ((expiredHits s.store now).take depositeesLeft)

end Wasm
