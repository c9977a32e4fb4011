/-
  The keeper of x/tokenfactory: its messages, its genesis and its export.

  The bank is code of the SDK: its balances are a state of any type, and its metadata a store.
-/
import TerpCore.TokenFactory.Types
import TerpCore.Lib.Run

namespace TokenFactory

open Lib Outcome

/-- The keeper, with the calls it makes to other modules; `none` is an error. -/
structure Keeper (β : Type) where
  codec : Bech32
  enabledCapabilities : List Bytes
  authority : Bytes
  blockedAddr : AccAddress → Bool
  /-- `banktypes.Metadata.Validate() == nil` -/
  validMetadata : Metadata → Bool
  mintCoins : β → List Coin → Option β
  burnCoins : β → List Coin → Option β
  sendCoinsFromModuleToAccount : β → AccAddress → List Coin → Option β
  sendCoinsFromAccountToModule : β → AccAddress → List Coin → Option β
  sendCoins : β → AccAddress → AccAddress → List Coin → Option β
  fundCommunityPool : β → List Coin → AccAddress → Option β

structure State (β : Type) where
  store : KVStore Value
  /-- the denomination metadata of the bank -/
  metadata : KVStore Metadata
  bank : β

variable {β : Type} (k : Keeper β)

/-! ## Records -/

def getParams (s : KVStore Value) : Outcome Err Params :=
  match s.get paramsKey with
  | none => .ok .zero
  | some (.params p) => .ok p
  | some _ => .panicked

/-- Invalid parameters panic. -/
def setParams (s : KVStore Value) (p : Params) : Outcome Err (KVStore Value) :=
  match p.validate with
  | .ok _ => .ok (s.set paramsKey (.params p))
  | _ => .panicked

/-- Without a row the admin is empty. -/
def getAuthorityMetadata (s : KVStore Value) (denom : Bytes) : Outcome Err DenomAuthorityMetadata :=
  match s.get (authorityKey denom) with
  | none => .ok ⟨[]⟩
  | some (.authority m) => .ok m
  | some _ => .error .decode

def Keeper.setAuthorityMetadata (s : KVStore Value) (denom : Bytes) (m : DenomAuthorityMetadata) :
    Outcome Err (KVStore Value) := do
  m.validate k.codec
  return s.set (authorityKey denom) (.authority m)

def Keeper.setAdmin (s : KVStore Value) (denom admin : Bytes) : Outcome Err (KVStore Value) := do
  let m ← getAuthorityMetadata s denom
  k.setAuthorityMetadata s denom { m with admin := admin }

def addDenomFromCreator (s : KVStore Value) (creator denom : Bytes) : KVStore Value :=
  s.set (creatorKey creator denom) (.denom denom)

/-- The keys under the prefix of the creator. -/
def getDenomsFromCreator (s : KVStore Value) (creator : Bytes) : List Bytes :=
  (s.iterator (getCreatorPrefix creator)).map Prod.fst

/-- The bank keeps metadata under its base denomination. -/
def setDenomMetaData (s : KVStore Metadata) (m : Metadata) : KVStore Metadata := s.set m.base m

/-! ## Creation -/

def validateCreateDenom (s : State β) (creatorAddr subdenom : Bytes) : Outcome Err Bytes := do
  let denom ← getTokenDenom creatorAddr subdenom
  require (s.metadata.get denom).isNone .denomExists
  return denom

/-- The fee goes to the community pool.  An empty fee is read back as `nil`, and nothing is charged. -/
def Keeper.chargeForCreateDenom (s : State β) (creatorAddr : Bytes) : Outcome Err (State β) := do
  let params ← getParams s.store
  if params.denomCreationFee = [] then
    return s
  else
    let accAddr ← demand (k.codec.accAddressFromBech32 creatorAddr) .sdkAddress
    let bank ← demand (k.fundCommunityPool s.bank params.denomCreationFee accAddr) .bank
    return { s with bank := bank }

def Keeper.createDenomAfterValidation (s : State β) (creatorAddr denom : Bytes) : Outcome Err (State β) := do
  let metadata := setDenomMetaData s.metadata (newMetadata denom)
  let store ← k.setAuthorityMetadata s.store denom ⟨creatorAddr⟩
  return ⟨addDenomFromCreator store creatorAddr denom, metadata, s.bank⟩

/-! ## Bank actions -/

def Keeper.mintTo (bank : β) (amount : Coin) (mintTo : Bytes) : Outcome Err β := do
  let _ ← deconstructDenom k.codec amount.denom
  let coins ← .ofOption (newCoins amount)
  let bank ← demand (k.mintCoins bank coins) .bank
  let addr ← demand (k.codec.accAddressFromBech32 mintTo) .sdkAddress
  require (!k.blockedAddr addr) (.mintToBlocked addr)
  demand (k.sendCoinsFromModuleToAccount bank addr coins) .bank

def Keeper.burnFrom (bank : β) (amount : Coin) (burnFrom : Bytes) : Outcome Err β := do
  let _ ← deconstructDenom k.codec amount.denom
  let addr ← demand (k.codec.accAddressFromBech32 burnFrom) .sdkAddress
  require (!k.blockedAddr addr) (.burnFromBlocked addr)
  let coins ← .ofOption (newCoins amount)
  let bank ← demand (k.sendCoinsFromAccountToModule bank addr coins) .bank
  demand (k.burnCoins bank coins) .bank

/-- The sender may be blocked, the recipient may not. -/
def Keeper.forceTransfer (bank : β) (amount : Coin) (fromAddr toAddr : Bytes) : Outcome Err β := do
  let _ ← deconstructDenom k.codec amount.denom
  let fromSdkAddr ← demand (k.codec.accAddressFromBech32 fromAddr) .sdkAddress
  let toSdkAddr ← demand (k.codec.accAddressFromBech32 toAddr) .sdkAddress
  require (!k.blockedAddr toSdkAddr) (.forceTransferToBlocked toSdkAddr)
  let coins ← .ofOption (newCoins amount)
  demand (k.sendCoins bank fromSdkAddr toSdkAddr coins) .bank

/-! ## Messages -/

def enableSetMetadata : Bytes := ascii "enable_metadata"

def enableForceTransfer : Bytes := ascii "enable_force_transfer"

def enableBurnFrom : Bytes := ascii "enable_burn_from"

/-- Everything is enabled if nothing is listed. -/
def isCapabilityEnabled (enabledCapabilities : List Bytes) (capability : Bytes) : Bool :=
  enabledCapabilities.isEmpty || enabledCapabilities.contains capability

inductive Msg where
  | createDenom (sender subdenom : Bytes)
  | mint (sender : Bytes) (amount : Coin) (mintToAddress : Bytes)
  | burn (sender : Bytes) (amount : Coin) (burnFromAddress : Bytes)
  | forceTransfer (sender : Bytes) (amount : Coin) (transferFromAddress transferToAddress : Bytes)
  | changeAdmin (sender denom newAdmin : Bytes)
  | setDenomMetadata (sender : Bytes) (metadata : Metadata)
  | updateParams (authority : Bytes) (params : Params)

def Msg.sender : Msg → Bytes
  | createDenom sender _ => sender
  | mint sender _ _ => sender
  | burn sender _ _ => sender
  | forceTransfer sender _ _ _ => sender
  | changeAdmin sender _ _ => sender
  | setDenomMetadata sender _ => sender
  | updateParams authority _ => authority

/-- `MsgCreateDenom.ValidateBasic`, which the handler calls itself. -/
def Keeper.validateBasicCreateDenom (sender subdenom : Bytes) : Outcome Err Unit := do
  require (k.codec.accAddressFromBech32 sender).isSome .invalidSender
  match getTokenDenom sender subdenom with
  | .ok _ => .ok ()
  | .error e => .error (.invalidDenom e)
  | .panicked => .panicked

/-- `if msg.Sender != authorityMetadata.GetAdmin()`, which five handlers start with. -/
def requireAdmin (s : KVStore Value) (denom sender : Bytes) : Outcome Err Unit := do
  let m ← getAuthorityMetadata s denom
  require (sender == m.admin) .unauthorized

def Keeper.createDenom (s : State β) (sender subdenom : Bytes) : Outcome Err (State β) := do
  k.validateBasicCreateDenom sender subdenom
  let denom ← validateCreateDenom s sender subdenom
  let s ← k.chargeForCreateDenom s sender
  k.createDenomAfterValidation s sender denom

def Keeper.mint (s : State β) (sender : Bytes) (amount : Coin) (mintToAddress : Bytes) : Outcome Err (State β) := do
  require (s.metadata.get amount.denom).isSome (.denomDoesNotExist amount.denom)
  requireAdmin s.store amount.denom sender
  let mintToAddress := if mintToAddress = [] then sender else mintToAddress
  let bank ← k.mintTo s.bank amount mintToAddress
  return { s with bank := bank }

def Keeper.burn (s : State β) (sender : Bytes) (amount : Coin) (burnFromAddress : Bytes) : Outcome Err (State β) := do
  requireAdmin s.store amount.denom sender
  require (burnFromAddress == [] || isCapabilityEnabled k.enabledCapabilities enableBurnFrom)
    .capabilityNotEnabled
  let burnFromAddress := if burnFromAddress = [] then sender else burnFromAddress
  let bank ← k.burnFrom s.bank amount burnFromAddress
  return { s with bank := bank }

def Keeper.forceTransferMsg (s : State β) (sender : Bytes) (amount : Coin)
    (transferFromAddress transferToAddress : Bytes) : Outcome Err (State β) := do
  require (isCapabilityEnabled k.enabledCapabilities enableForceTransfer) .capabilityNotEnabled
  requireAdmin s.store amount.denom sender
  let bank ← k.forceTransfer s.bank amount transferFromAddress transferToAddress
  return { s with bank := bank }

def Keeper.changeAdmin (s : State β) (sender denom newAdmin : Bytes) : Outcome Err (State β) := do
  requireAdmin s.store denom sender
  let store ← k.setAdmin s.store denom newAdmin
  return { s with store := store }

def Keeper.setDenomMetadata (s : State β) (sender : Bytes) (metadata : Metadata) : Outcome Err (State β) := do
  require (isCapabilityEnabled k.enabledCapabilities enableSetMetadata) .capabilityNotEnabled
  require (k.validMetadata metadata) .sdkMetadata
  requireAdmin s.store metadata.base sender
  return { s with metadata := setDenomMetaData s.metadata metadata }

def Keeper.updateParams (s : State β) (authority : Bytes) (params : Params) : Outcome Err (State β) := do
  require (k.authority == authority) (.invalidSigner k.authority authority)
  let store ← setParams s.store params
  return { s with store := store }

def Keeper.handle (s : State β) : Msg → Outcome Err (State β)
  | .createDenom sender subdenom => k.createDenom s sender subdenom
  | .mint sender amount mintToAddress => k.mint s sender amount mintToAddress
  | .burn sender amount burnFromAddress => k.burn s sender amount burnFromAddress
  | .forceTransfer sender amount fromAddr toAddr => k.forceTransferMsg s sender amount fromAddr toAddr
  | .changeAdmin sender denom newAdmin => k.changeAdmin s sender denom newAdmin
  | .setDenomMetadata sender metadata => k.setDenomMetadata s sender metadata
  | .updateParams authority params => k.updateParams s authority params

def Keeper.step (s : State β) (msg : Msg) : State β := (k.handle s msg).orElse s

/-! ## Genesis -/

/-- The denomination metadata of the bank's genesis. -/
def initDenomMetaData (genesis : List Metadata) : KVStore Metadata := genesis.foldl setDenomMetaData .empty

/-- The bank exports all its metadata. -/
def getAllDenomMetaData (s : KVStore Metadata) : List Metadata := (s.iterator []).map Prod.snd

/-- One denomination of a genesis; an error panics. -/
def Keeper.initDenom (s : State β) (g : GenesisDenom) : Outcome Err (State β) :=
  let created : Outcome Err (State β) := do
    let (creator, _) ← deconstructDenom k.codec g.denom
    let s ← k.createDenomAfterValidation s creator g.denom
    let store ← k.setAuthorityMetadata s.store g.denom g.authorityMetadata
    return { s with store := store }
  match created with
  | .ok s => .ok s
  | _ => .panicked

def Keeper.initGenesis (s : State β) (gs : GenesisState) : Outcome Err (State β) := do
  let store ← setParams s.store gs.params
  forEach (fun _ => k.initDenom) 0 { s with store := store } gs.factoryDenoms

/-- The denomination of an index entry, with its admin; an error panics. -/
def exportDenom (s : KVStore Value) : Value → Outcome Err GenesisDenom
  | .denom denom =>
    match getAuthorityMetadata s denom with
    | .ok m => .ok ⟨denom, m⟩
    | _ => .panicked
  | _ => .panicked

def exportGenesis (s : KVStore Value) : Outcome Err GenesisState := do
  let factoryDenoms ← forEach (fun _ genDenoms (e : Bytes × Value) => do
    let genDenom ← exportDenom s e.2
    return genDenoms ++ [genDenom]) 0 [] (s.iterator getCreatorsPrefix)
  let params ← getParams s
  return ⟨params, factoryDenoms⟩

end TokenFactory
