/-
  The messages of the module and the end of a block.
-/
import TerpCore.Hashmerchant.Keeper
import TerpCore.Lib.Run

namespace Hashmerchant

open Lib Outcome

variable {β : Type} (k : Keeper β)

/-! ## Escrow periods -/

/-- `Amount.Quo(MinEscrowAmount).Uint64() * PruneInterval`: each minimum buys one interval. -/
def Params.blocksBought (p : Params) (c : Coin) : Option UInt64 := do
  let quotient ← SdkInt.quo c.amount p.minEscrowAmount
  let periods ← SdkInt.uint64 quotient
  return periods * p.pruneInterval

/-! ## Messages -/

structure MsgRegisterChain where
  authority : Bytes
  chain : RegisteredChain

structure MsgRegisterContract where
  sender : Bytes
  contractAddr : Bytes
  chainUid : Bytes
  substoreKeys : List Bytes
  escrow : Coin

structure MsgRefillEscrow where
  sender : Bytes
  contractAddr : Bytes
  amount : Coin

structure MsgUpdateParams where
  authority : Bytes
  params : Params

/-- The checks before the message is delivered. -/
def MsgRegisterChain.validateBasic (msg : MsgRegisterChain) : Outcome Err Unit := do
  require (k.accAddressFromBech32 msg.authority).isSome .invalidAuthority
  require (msg.chain.chainUid != []) .chainUidEmpty

/-- The checks before the message is delivered. -/
def MsgRegisterContract.validateBasic (msg : MsgRegisterContract) : Outcome Err Unit := do
  require (k.accAddressFromBech32 msg.sender).isSome .invalidSender
  require (msg.contractAddr != []) .contractAddrEmpty
  require (msg.chainUid != []) .chainUidEmpty
  require msg.escrow.isPositive .escrowNotPositive

/-- The checks before the message is delivered. -/
def MsgRefillEscrow.validateBasic (msg : MsgRefillEscrow) : Outcome Err Unit := do
  require (k.accAddressFromBech32 msg.sender).isSome .invalidSender
  require (msg.contractAddr != []) .contractAddrEmpty
  require msg.amount.isPositive .amountNotPositive

/-- The checks before the message is delivered. -/
def MsgUpdateParams.validateBasic (msg : MsgUpdateParams) : Outcome Err Unit := do
  require (k.accAddressFromBech32 msg.authority).isSome .invalidAuthority
  msg.params.validate

/-! ## Handlers -/

/-- `RegisterChain`, for governance only; it writes the record and not the table of sources. -/
def Keeper.registerChain (s : State β) (msg : MsgRegisterChain) : Outcome Err (State β) := do
  require (k.authority == msg.authority) (.invalidSigner k.authority msg.authority)
  require (!hasRegisteredChain s.store msg.chain.chainUid)
    (.chainAlreadyExists msg.chain.chainUid)
  return { s with store := setRegisteredChain s.store msg.chain }

/-- Takes a coin from `sender` to the module account.  An address that does not decode is the empty
one. -/
def Keeper.takeEscrow (app : β) (sender : Bytes) (c : Coin) : Outcome Err β := do
  let coins ← .ofOption (newCoins c)
  match k.sendCoinsFromAccountToModule app ((k.accAddressFromBech32 sender).getD []) coins with
  | some app => .ok app
  | none => .error .bank

/-- `RegisterContract`: the deposit is taken and the contract enabled. -/
def Keeper.registerContract (blockHeight : UInt64) (s : State β) (msg : MsgRegisterContract) :
    Outcome Err (State β) := do
  let chain ← getRegisteredChain s.store msg.chainUid
  require chain.enabled (.chainDisabled msg.chainUid)
  let params ← getParams s.store
  require (msg.escrow.denom == params.escrowDenom)
    (.escrowDenom params.escrowDenom msg.escrow.denom)
  require (!(msg.escrow.amount < params.minEscrowAmount))
    (.escrowBelowMinimum params.minEscrowAmount msg.escrow.amount)
  let app ← k.takeEscrow s.app msg.sender msg.escrow
  let blocks ← .ofOption (params.blocksBought msg.escrow)
  let store := setRegisteredContract s.store
    { contractAddr := msg.contractAddr
      chainUid := msg.chainUid
      substoreKeys := msg.substoreKeys
      enabled := true }
  -- an earlier record of the contract is not read
  return ⟨setEscrowRecord store ⟨msg.contractAddr, msg.escrow, blockHeight + blocks, 0⟩, app⟩

/-- `RefillEscrow`: the time that was paid for grows with the deposit. -/
def Keeper.refillEscrow (s : State β) (msg : MsgRefillEscrow) : Outcome Err (State β) := do
  let record ← getEscrowRecord s.store msg.contractAddr
  let params ← getParams s.store
  require (msg.amount.denom == params.escrowDenom)
    (.escrowDenom params.escrowDenom msg.amount.denom)
  let app ← k.takeEscrow s.app msg.sender msg.amount
  let blocks ← .ofOption (params.blocksBought msg.amount)
  let amount ← .ofOption (record.amount.add msg.amount)
  let record :=
    { record with paidUntilHeight := record.paidUntilHeight + blocks, amount := amount }
  return ⟨setEscrowRecord s.store record, app⟩

/-- `UpdateParams`, for governance only. -/
def Keeper.updateParams (s : State β) (msg : MsgUpdateParams) : Outcome Err (State β) := do
  require (k.authority == msg.authority) (.invalidSigner k.authority msg.authority)
  msg.params.validate
  return { s with store := setParams s.store msg.params }

/-! ## End of a block -/

/-- Disables the contract of one expired record. -/
def disableContract (s : Store) (addr : Bytes) : Store :=
  match getRegisteredContract s addr with
  | .ok contract => setRegisteredContract s { contract with enabled := false }
  | _ => s

/-- `PruneExpiredEscrows`: the contracts whose deposit has run out are disabled. -/
def pruneExpiredEscrows (s : Store) (currentHeight : UInt64) : Store :=
  let toDisable := ((escrowRecords s).filter fun r => r.paidUntilHeight < currentHeight).map
    EscrowRecord.contractAddr
  toDisable.foldl disableContract s

/-- `EndBlocker`: escrows are pruned once an interval. -/
def endBlocker (blockHeight : UInt64) (s : Store) : Outcome Err Store := do
  let params ← getParams s
  let lastPrune ← getPruneEpoch s
  if params.pruneInterval ≤ blockHeight - lastPrune then
    return setPruneEpoch (pruneExpiredEscrows s blockHeight) blockHeight
  else
    return s

/-! ## Runs -/

/-- What a chain does to the module between two updates of its parameters. -/
inductive Op where
  | registerChain (msg : MsgRegisterChain)
  | registerContract (blockHeight : UInt64) (msg : MsgRegisterContract)
  | refillEscrow (msg : MsgRefillEscrow)
  | endBlock (blockHeight : UInt64)

/-- An operation of the chain, with the checks before it. -/
def Keeper.exec (s : State β) : Op → Outcome Err (State β)
  | .registerChain msg => do
    msg.validateBasic k
    k.registerChain s msg
  | .registerContract blockHeight msg => do
    msg.validateBasic k
    k.registerContract blockHeight s msg
  | .refillEscrow msg => do
    msg.validateBasic k
    k.refillEscrow s msg
  | .endBlock blockHeight => do
    let store ← endBlocker blockHeight s.store
    return { s with store := store }

/-- An operation that fails changes nothing. -/
def Keeper.step (s : State β) (op : Op) : State β := (k.exec s op).orElse s

end Hashmerchant
