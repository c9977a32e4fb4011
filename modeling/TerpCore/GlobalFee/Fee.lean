/-
  x/globalfee: the minimum gas prices of the chain, and the decorator that asks a transaction for them.
-/
import TerpCore.Lib.SortedCoins
import TerpCore.SmartAccount.Types

namespace GlobalFee

open Lib SmartAccount Outcome Coins

/-! ## Errors -/

/-- The errors of the module. -/
inductive Err where
  | duplicateDenom (denom : Bytes)
  | invalidDenom (denom : Bytes)
  | notSorted (denom : Bytes)
  | negative (amount : LegacyDec)
  | notFeeTx
  | emptyBondDenom
  | notSetUp
  | notSubset (got required : List Coin)
  | insufficient (got required : List Coin)
  deriving DecidableEq

/-- The text of an error, as a format; a wrapped error ends with the text of its class. -/
def Err.format : Err → String
  | duplicateDenom _ => "duplicate denomination %s"
  | invalidDenom _ => "invalid denom: %s"
  | notSorted _ => "denomination %s is not sorted"
  | negative _ => "coin %s amount is negative"
  | notFeeTx => "Tx must implement the sdk.FeeTx interface: tx parse error"
  | emptyBondDenom => "empty staking bond denomination"
  | notSetUp => "required fees are not setup.: not found"
  | notSubset .. => "fee is not a subset of required fees; got %s, required: %s: insufficient fee"
  | insufficient .. => "insufficient fees; got: %s required: %s: insufficient fee"

/-! ## Parameters -/

/-- The parameters: the minimum price of gas in each denomination. -/
structure Params where
  minimumGasPrices : List DecCoin
  deriving DecidableEq

/-- `DefaultParams`: no price. -/
def defaultParams : Params := ⟨[]⟩

/-- The loop of `DecCoins.Validate`; the first denomination is not compared with the last one. -/
def validateFrom (seenDenoms : List Bytes) (i : ℕ) (lowDenom : Bytes) : List DecCoin → Outcome Err Unit
  | [] => .ok ()
  | coin :: coins => do
    require (!seenDenoms.contains coin.denom) (.duplicateDenom coin.denom)
    require (validDenom coin.denom) (.invalidDenom coin.denom)
    require (i == 0 || Bytes.lt lowDenom coin.denom) (.notSorted coin.denom)
    require (0 ≤ coin.amount.num) (.negative coin.amount)
    validateFrom (coin.denom :: seenDenoms) (i + 1) coin.denom coins

/-- `ValidateBasic` of the parameters. -/
def Params.validate (p : Params) : Outcome Err Unit := validateFrom [] 0 [] p.minimumGasPrices

/-! ## Required fees -/

/-- What the decorator reads: mode and configuration of the node, the parameters, and the denomination of x/staking.
-/
structure CheckContext where
  isCheckTx : Bool
  minGasPrices : List DecCoin
  params : Params
  bondDenom : Bytes

/-- The fee of a gas limit at each price, rounded up. -/
def requiredFees (gas : Int64) (prices : List DecCoin) : Option (List Coin) :=
  prices.mapM fun gp => do
    let fee ← gp.amount.mul (.ofInt64 gas)
    let amount ← fee.ceil.roundInt
    newCoin gp.denom amount

/-- `DefaultZeroGlobalFee`: a zero fee in the bond denomination. -/
def defaultZeroGlobalFee (ctx : CheckContext) : Outcome Err (List DecCoin) :=
  if ctx.bondDenom = [] then .error .emptyBondDenom
  else if validDenom ctx.bondDenom then .ok [⟨ctx.bondDenom, ⟨0⟩⟩] else .panicked

/-- The minimum gas prices of the chain; without any, its denomination is free. -/
def globalMinGasPrices (ctx : CheckContext) : Outcome Err (List DecCoin) :=
  if ctx.params.minimumGasPrices = [] then defaultZeroGlobalFee ctx else .ok ctx.params.minimumGasPrices

/-- `MinGasPrices().IsZero()`. -/
def isZero (prices : List DecCoin) : Bool := prices.all fun gp => gp.amount.num == 0

/-- The coins that are asked: the higher of the two amounts for each denomination of the chain. -/
def combinedFeeRequirement (sliceSort : SliceSort) (globalFees minGasPrices : List Coin) : List Coin :=
  if minGasPrices.length = 0 then globalFees
  else if globalFees.length = 0 then []
  else sort sliceSort (globalFees.map fun fee =>
    match find minGasPrices fee.denom with
    | some c => if fee.amount < c.amount then c else fee
    | none => fee)

/-- The denominations whose fee is zero. -/
def zeroDenoms (fees : List Coin) : List Bytes := (fees.filter fun gf => gf.amount == 0).map Coin.denom

def getNonZeroFees (sliceSort : SliceSort) (fees : List Coin) : List Coin × List Bytes :=
  (sort sliceSort (fees.filter fun gf => gf.amount != 0), zeroDenoms fees)

/-- `splitCoinsByDenoms`: the coins outside and inside `denoms`. -/
def splitCoinsByDenoms (sliceSort : SliceSort) (feeCoins : List Coin) (denoms : List Bytes) : List Coin × List Coin :=
  (sort sliceSort (feeCoins.filter fun fc => !denoms.contains fc.denom),
    sort sliceSort (feeCoins.filter fun fc => denoms.contains fc.denom))

/-! ## The decorator -/

structure FeeDecorator where
  bypassMinFeeMsgTypes : List Bytes
  maxTotalBypassMinFeeMsgGasUsage : UInt64
  sliceSort : SliceSort

namespace FeeDecorator

variable (mfd : FeeDecorator)

/-- A gas limit of more than 63 bits is read as a negative one. -/
def getGlobalFee (ctx : CheckContext) (gas : UInt64) : Outcome Err (List Coin) := do
  let prices ← globalMinGasPrices ctx
  let requiredGlobalFees ← .ofOption (requiredFees gas.toInt64 prices)
  return sort mfd.sliceSort requiredGlobalFees

/-- A gas limit of more than 63 bits panics. -/
def getMinGasPrice (ctx : CheckContext) (gasLimit : UInt64) : Outcome Err (List Coin) :=
  if isZero ctx.minGasPrices then .ok []
  else do
    let gas ← .ofOption (SdkInt.int64 gasLimit.toNat)
    let fees ← .ofOption (requiredFees gas ctx.minGasPrices)
    return sort mfd.sliceSort fees

def containsOnlyBypassMinFeeMsgs (msgs : List Msg) : Bool :=
  msgs.all fun msg => mfd.bypassMinFeeMsgTypes.contains msg.typeURL

/-- The messages may be sent without a fee. -/
def allowedToBypassMinFee (msgs : List Msg) (gas : UInt64) : Bool :=
  mfd.containsOnlyBypassMinFeeMsgs msgs && gas ≤ mfd.maxTotalBypassMinFeeMsgGasUsage

/-- The fees of a transaction that is checked. -/
def checkFees (ctx : CheckContext) (msgs : List Msg) (feeTx : FeeTx) : Outcome Err Unit := do
  let feeCoins := sort mfd.sliceSort feeTx.fee
  let requiredGlobalFees ← mfd.getGlobalFee ctx feeTx.gas
  let localFees ← mfd.getMinGasPrice ctx feeTx.gas
  let combined := combinedFeeRequirement mfd.sliceSort requiredGlobalFees localFees
  require (combined.length != 0) .notSetUp
  let required := getNonZeroFees mfd.sliceSort combined
  let split := splitCoinsByDenoms mfd.sliceSort feeCoins required.2
  let subset ← .ofOption (denomsSubsetOf split.1 required.1)
  require subset (.notSubset feeCoins combined)
  if !mfd.allowedToBypassMinFee msgs feeTx.gas && split.2.length == 0 then
    if feeCoins.length == 0 && required.2.length != 0 then return ()
    let anyGTE ← .ofOption (isAnyGTE split.1 required.1)
    require anyGTE (.insufficient feeCoins combined)

/-- What `AnteHandle` does before it goes on to the next decorator. -/
def anteHandle (ctx : CheckContext) (tx : Tx) (simulate : Bool) : Outcome Err Unit :=
  match tx.feeTx with
  | none => .error .notFeeTx
  | some feeTx => if !ctx.isCheckTx || simulate then .ok () else mfd.checkFees ctx tx.msgs feeTx

end FeeDecorator

end GlobalFee
