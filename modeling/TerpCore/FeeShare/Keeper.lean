/-
  x/feeshare: contracts that are registered for a share of the fees, and the indexes of their deployers and
  withdrawers.

  The registry of contracts of x/wasm is read by the handlers and may be any at every message.
-/
import TerpCore.Lib.Address
import TerpCore.Lib.Outcome
import TerpCore.Lib.Paginate
import TerpCore.Lib.Run
import TerpCore.Lib.SdkMath

namespace Feeshare

open Lib Outcome

/-! ## Errors -/

/-- The errors of the module. -/
inductive Err where
  | disabled
  | alreadyRegistered (contract : Bytes)
  | withdrawerAlreadyRegistered (withdrawer : Bytes)
  | notRegistered (contract : Bytes)
  | payment
  | invalidWithdrawer (withdrawer contract : Bytes)
  | invalidContractAddress
  | invalidWithdrawerAddress (withdrawer : Bytes)
  | invalidRegisteredWithdrawer
  | invalidNewWithdrawer (withdrawer : Bytes)
  | invalidDeployerAddress (deployer : Bytes)
  | invalidCreatorAddress (creator : Bytes)
  | invalidAdminAddress (admin : Bytes)
  | notCreator (creator : Bytes)
  | notAdmin (deployer : Bytes)
  | withdrawerEmpty
  | contractTwice (contract : Bytes)
  | sharesNil
  | sharesNegative
  | sharesAboveOne
  | denomBlank
  | invalidSigner (expected got : Bytes)
  /-- `sdk.AccAddressFromBech32` -/
  | sdkAddress
  | notFeeTx
  | insufficientFunds (cause : Err)
  deriving DecidableEq

/-- The text of an error, as a format; a wrapped error ends with the text of its class. -/
def Err.format : Err → String
  | disabled => "feeshare module is disabled by governance"
  | alreadyRegistered _ => "contract is already registered %s: feeshare already exists for given contract"
  | withdrawerAlreadyRegistered _ =>
    "feeshare with withdraw address %s is already registered: feeshare already exists for given contract"
  | notRegistered _ => "contract %s is not registered: no feeshare registered for contract"
  | payment => "failed to pay fees to contract developer: %s: feeshare payment error"
  | invalidWithdrawer _ _ =>
    "withdrawer address must be the same as the contract address if it is from a factory contract withdraw:%s contract:%s: invalid withdrawer address"
  | invalidContractAddress => "invalid contract address (%s): invalid address"
  | invalidWithdrawerAddress _ => "invalid withdrawer address %s: invalid address"
  | invalidRegisteredWithdrawer => "invalid withdrawer address (%s): invalid address"
  | invalidNewWithdrawer _ => "invalid WithdrawerAddress %s: invalid address"
  | invalidDeployerAddress _ => "invalid deployer address %s: invalid address"
  | invalidCreatorAddress _ => "invalid creator address %s: invalid address"
  | invalidAdminAddress _ => "invalid admin address %s: invalid address"
  | notCreator _ => "you are not the creator of this contract %s: unauthorized"
  | notAdmin _ => "you are not an admin of this contract %s: unauthorized"
  | withdrawerEmpty => "withdrawer address cannot be empty: invalid address"
  | contractTwice _ => "contract duplicated on genesis '%s'"
  | sharesNil => "invalid parameter: nil"
  | sharesNegative => "value cannot be negative: %T"
  | sharesAboveOne => "value cannot be greater than 1: %T"
  | denomBlank => "denom cannot be blank"
  | invalidSigner _ _ =>
    "invalid authority; expected %s, got %s: expected gov account as only signer for proposal message"
  | sdkAddress => "%s"
  | notFeeTx => "Tx must be a FeeTx: tx parse error"
  | insufficientFunds _ => "%s: insufficient funds"

/-! ## Parameters -/

/-- The parameters of the module. -/
structure Params where
  enableFeeShare : Bool
  /-- `none` is a nil decimal -/
  developerShares : Option LegacyDec
  allowedDenoms : List Bytes
  deriving DecidableEq

/-- The answer of `GetParams` before any are set. -/
def Params.zero : Params := ⟨false, none, []⟩

/-- The share lies between zero and one. -/
def validateShares : Option LegacyDec → Outcome Err Unit
  | none => .error .sharesNil
  | some v => do
    require (0 ≤ v.num) .sharesNegative
    require (v.num ≤ LegacyDec.unit) .sharesAboveOne

/-- No denomination is blank. -/
def validateArray (denoms : List Bytes) : Outcome Err Unit :=
  require (!denoms.contains []) .denomBlank

/-- `Validate` of the parameters. -/
def Params.validate (p : Params) : Outcome Err Unit := do
  validateShares p.developerShares
  validateArray p.allowedDenoms

/-! ## Records -/

/-- What is recorded of a contract. -/
structure FeeShare where
  contractAddress : Bytes
  deployerAddress : Bytes
  withdrawerAddress : Bytes
  deriving DecidableEq

/-- The keeper; `text` also writes what is left of an index key. -/
structure Keeper where
  codec : Bech32Text
  /-- the address of the governance module -/
  govAddress : AccAddress
  authority : Bytes

namespace FeeShare

variable (codec : Bech32) (f : FeeShare)

/-- `none` is a nil address. -/
def getContractAddr : Option AccAddress := codec.accAddressFromBech32 f.contractAddress

def getDeployerAddr : Option AccAddress := codec.accAddressFromBech32 f.deployerAddress

def getWithdrawerAddr : Option AccAddress := codec.accAddressFromBech32 f.withdrawerAddress

/-- `Validate` of a record. -/
def validate : Outcome Err Unit := do
  require (codec.accAddressFromBech32 f.contractAddress).isSome .sdkAddress
  require (codec.accAddressFromBech32 f.deployerAddress).isSome .sdkAddress
  require (f.withdrawerAddress != []) .withdrawerEmpty
  require (codec.accAddressFromBech32 f.withdrawerAddress).isSome .sdkAddress

end FeeShare

def newFeeShare (codec : Bech32) (contract deployer withdrawer : AccAddress) : FeeShare :=
  ⟨codec.string contract, codec.string deployer, codec.string withdrawer⟩

/-! ## The store -/

/-- What stands in the store. -/
inductive Value where
  | feeShare (f : FeeShare)
  /-- the value `{1}` of an index entry -/
  | entry
  | params (p : Params)
  deriving DecidableEq

/-- The store of x/feeshare. -/
abbrev Store := KVStore Value

def keyPrefixFeeShare : Bytes := [1]

def keyPrefixDeployer : Bytes := [2]

def keyPrefixWithdrawer : Bytes := [3]

def paramsKey : Bytes := [4]

/-- The bytes of an address that may be nil. -/
def bytesOf (addr : Option AccAddress) : Bytes := addr.elim [] AccAddress.bytes

def getFeeShare (s : Store) (contract : AccAddress) : Option FeeShare :=
  match s.get (keyPrefixFeeShare ++ contract.bytes) with
  | some (.feeShare f) => some f
  | _ => none

def isFeeShareRegistered (s : Store) (contract : AccAddress) : Bool := s.has (keyPrefixFeeShare ++ contract.bytes)

def getParams (s : Store) : Params :=
  match s.get paramsKey with
  | some (.params p) => p
  | _ => .zero

/-- `SetParams`, after validation. -/
def setParams (s : Store) (p : Params) : Outcome Err Store := do
  p.validate
  return s.set paramsKey (.params p)

/-- The key of an index entry: the owner's bytes and the contract's. -/
def entryKey (keyPrefix owner : Bytes) (contract : AccAddress) : Bytes := keyPrefix ++ (owner ++ contract.bytes)

def setDeployerMap (s : Store) (deployer : Bytes) (contract : AccAddress) : Store :=
  s.set (entryKey keyPrefixDeployer deployer contract) .entry

def deleteDeployerMap (s : Store) (deployer : Bytes) (contract : AccAddress) : Store :=
  s.delete (entryKey keyPrefixDeployer deployer contract)

def isDeployerMapSet (s : Store) (deployer contract : AccAddress) : Bool :=
  s.has (entryKey keyPrefixDeployer deployer.bytes contract)

def setWithdrawerMap (s : Store) (withdrawer : Bytes) (contract : AccAddress) : Store :=
  s.set (entryKey keyPrefixWithdrawer withdrawer contract) .entry

def deleteWithdrawerMap (s : Store) (withdrawer : Bytes) (contract : AccAddress) : Store :=
  s.delete (entryKey keyPrefixWithdrawer withdrawer contract)

def isWithdrawerMapSet (s : Store) (withdrawer contract : AccAddress) : Bool :=
  s.has (entryKey keyPrefixWithdrawer withdrawer.bytes contract)

namespace Keeper

variable (k : Keeper)

/-- A record without a contract address panics. -/
def setFeeShare (s : Store) (f : FeeShare) : Outcome Err Store := do
  let contract ← .ofOption (f.getContractAddr k.codec.toBech32)
  return s.set (keyPrefixFeeShare ++ contract.bytes) (.feeShare f)

def deleteFeeShare (s : Store) (f : FeeShare) : Outcome Err Store := do
  let contract ← .ofOption (f.getContractAddr k.codec.toBech32)
  return s.delete (keyPrefixFeeShare ++ contract.bytes)

/-! ## Who controls a contract -/

/-- What x/wasm knows of a contract. -/
structure ContractInfo where
  creator : Bytes
  admin : Bytes

/-- The registry of x/wasm. -/
abbrev Contracts := AccAddress → Option ContractInfo

variable (contracts : Contracts)

/-- Governance or another contract is in charge of the contract. -/
def getIfContractWasCreatedFromFactory (info : ContractInfo) : Bool :=
  match k.codec.accAddressFromBech32 info.creator with
  | none => false
  | some creator =>
    if info.admin = k.codec.string k.govAddress then true
    else if info.admin = [] then (contracts creator).isSome
    else match k.codec.accAddressFromBech32 info.admin with
      | none => false
      | some admin => (contracts admin).isSome

/-- A contract that does not exist panics. -/
def getContractAdminOrCreatorAddress (contract : AccAddress) (deployer : Bytes) : Outcome Err AccAddress := do
  require (k.codec.accAddressFromBech32 deployer).isSome (.invalidDeployerAddress deployer)
  let info ← .ofOption (contracts contract)
  if info.admin = [] then
    require (info.creator == deployer) (.notCreator info.creator)
    demand (k.codec.accAddressFromBech32 info.creator) (.invalidCreatorAddress info.creator)
  else
    require (info.admin == deployer) (.notAdmin deployer)
    demand (k.codec.accAddressFromBech32 info.admin) (.invalidAdminAddress info.admin)

/-! ## Messages -/

/-- The deployer of a contract to be registered.  Anyone may register a contract that was made by another to
itself. -/
def deployerOf (contract : AccAddress) (contractAddress deployerAddress withdrawerAddress : Bytes) :
    Outcome Err AccAddress := do
  -- a contract that does not exist is dereferenced here
  let info ← .ofOption (contracts contract)
  if k.getIfContractWasCreatedFromFactory contracts info then
    require (withdrawerAddress == contractAddress) (.invalidWithdrawer withdrawerAddress contractAddress)
    demand (k.codec.accAddressFromBech32 contractAddress) .sdkAddress
  else
    k.getContractAdminOrCreatorAddress contracts contract deployerAddress

def registerFeeShare (s : Store) (contractAddress deployerAddress withdrawerAddress : Bytes) : Outcome Err Store := do
  require (getParams s).enableFeeShare .disabled
  let contract ← demand (k.codec.accAddressFromBech32 contractAddress) .invalidContractAddress
  require (!isFeeShareRegistered s contract) (.alreadyRegistered (k.codec.string contract))
  let withdrawer ← demand (k.codec.accAddressFromBech32 withdrawerAddress)
    (.invalidWithdrawerAddress withdrawerAddress)
  let deployer ← k.deployerOf contracts contract contractAddress deployerAddress withdrawerAddress
  let s ← k.setFeeShare s (newFeeShare k.codec.toBech32 contract deployer withdrawer)
  return setWithdrawerMap (setDeployerMap s deployer.bytes contract) withdrawer.bytes contract

/-- `UpdateFeeShare`: only the withdrawer changes. -/
def updateFeeShare (s : Store) (contractAddress deployerAddress withdrawerAddress : Bytes) : Outcome Err Store := do
  require (getParams s).enableFeeShare .disabled
  let contract ← demand (k.codec.accAddressFromBech32 contractAddress) .invalidContractAddress
  let feeshare ← demand (getFeeShare s contract) (.notRegistered contractAddress)
  require (withdrawerAddress != feeshare.withdrawerAddress)
    (.withdrawerAlreadyRegistered withdrawerAddress)
  let _ ← k.getContractAdminOrCreatorAddress contracts contract deployerAddress
  let withdrawAddr ← demand (k.codec.accAddressFromBech32 feeshare.withdrawerAddress)
    .invalidRegisteredWithdrawer
  let newWithdrawAddr ← demand (k.codec.accAddressFromBech32 withdrawerAddress)
    (.invalidNewWithdrawer withdrawerAddress)
  let s := deleteWithdrawerMap s withdrawAddr.bytes contract
  let s := setWithdrawerMap s newWithdrawAddr.bytes contract
  k.setFeeShare s { feeshare with withdrawerAddress := k.codec.string newWithdrawAddr }

def cancelFeeShare (s : Store) (contractAddress deployerAddress : Bytes) : Outcome Err Store := do
  require (getParams s).enableFeeShare .disabled
  let contract ← demand (k.codec.accAddressFromBech32 contractAddress) .invalidContractAddress
  let fee ← demand (getFeeShare s contract) (.notRegistered contractAddress)
  let _ ← k.getContractAdminOrCreatorAddress contracts contract deployerAddress
  let s ← k.deleteFeeShare s fee
  let s := deleteDeployerMap s (bytesOf (fee.getDeployerAddr k.codec.toBech32)) contract
  match fee.getWithdrawerAddr k.codec.toBech32 with
  | some withdrawAddr => return deleteWithdrawerMap s withdrawAddr.bytes contract
  | none => return s

/-- `UpdateParams`, for governance only. -/
def updateParams (s : Store) (authority : Bytes) (params : Params) : Outcome Err Store := do
  require (k.authority == authority) (.invalidSigner k.authority authority)
  setParams s params

end Keeper

/-- The messages of the module. -/
inductive Msg where
  | registerFeeShare (contractAddress deployerAddress withdrawerAddress : Bytes)
  | updateFeeShare (contractAddress deployerAddress withdrawerAddress : Bytes)
  | cancelFeeShare (contractAddress deployerAddress : Bytes)
  | updateParams (authority : Bytes) (params : Params)

/-- A message, and the contracts there are when it is delivered. -/
structure Op where
  contracts : Keeper.Contracts
  msg : Msg

namespace Keeper

variable (k : Keeper)

/-- The message server. -/
def handle (s : Store) (op : Op) : Outcome Err Store :=
  match op.msg with
  | .registerFeeShare contract deployer withdrawer => k.registerFeeShare op.contracts s contract deployer withdrawer
  | .updateFeeShare contract deployer withdrawer => k.updateFeeShare op.contracts s contract deployer withdrawer
  | .cancelFeeShare contract deployer => k.cancelFeeShare op.contracts s contract deployer
  | .updateParams authority params => k.updateParams s authority params

/-- A message that fails changes nothing. -/
def step (s : Store) (op : Op) : Store := (k.handle s op).orElse s

end Keeper

/-! ## Genesis -/

/-- The genesis of the module. -/
structure GenesisState where
  params : Params
  feeShare : List FeeShare

/-- The loop of the validation; `seen` holds the contracts met so far, as they are spelled. -/
def checkFeeShares (codec : Bech32) (seen : List Bytes) : List FeeShare → Outcome Err Unit
  | [] => .ok ()
  | f :: fs => do
    require (!seen.contains f.contractAddress) (.contractTwice f.contractAddress)
    f.validate codec
    checkFeeShares codec (f.contractAddress :: seen) fs

/-- `Validate` of a genesis: no contract twice. -/
def GenesisState.validate (codec : Bech32) (gs : GenesisState) : Outcome Err Unit := do
  checkFeeShares codec [] gs.feeShare
  gs.params.validate

namespace Keeper

variable (k : Keeper)

/-- One record of a genesis. -/
def initFeeShare (s : Store) (share : FeeShare) : Outcome Err Store := do
  let s ← k.setFeeShare s share
  let contract ← .ofOption (share.getContractAddr k.codec.toBech32)
  let s := setDeployerMap s (bytesOf (share.getDeployerAddr k.codec.toBech32)) contract
  match share.getWithdrawerAddr k.codec.toBech32 with
  | some withdrawer => return setWithdrawerMap s withdrawer.bytes contract
  | none => return s

/-- Invalid parameters panic. -/
def initGenesis (gs : GenesisState) : Outcome Err Store :=
  match setParams .empty gs.params with
  | .ok s => forEach (fun _ => k.initFeeShare) 0 s gs.feeShare
  | _ => .panicked

/-! ## Queries -/

/-- All pages of `DeployerFeeShares`, read by the prefix of the deployer; `limits n` rows are asked for on page `n`.
-/
def deployerFeeShares (s : Store) (limits : ℕ → ℕ) (deployer : AccAddress) : Option (List Bytes) :=
  let rows := s.iterator (keyPrefixDeployer ++ deployer.bytes)
  (allPages rows limits (rows.length + 1) 0 []).map fun pages => pages.map fun r => k.codec.text r.1

/-- The contracts of a withdrawer, as a client gathers them page by page. -/
def withdrawerFeeShares (s : Store) (limits : ℕ → ℕ) (withdrawer : AccAddress) : Option (List Bytes) :=
  let rows := s.iterator (keyPrefixWithdrawer ++ withdrawer.bytes)
  (allPages rows limits (rows.length + 1) 0 []).map fun pages => pages.map fun r => k.codec.text r.1

end Keeper

end Feeshare
