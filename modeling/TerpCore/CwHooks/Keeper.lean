/-
  x/cw-hooks: contracts that are told of what happens in staking and governance.
-/
import TerpCore.Lib.Run
import TerpCore.Wasm.Admin

namespace CwHooks

open Lib Outcome KVStore

/-- The errors of the module. -/
inductive Err where
  | invalidRegisterAddress
  | invalidContractAddress
  /-- the contract of a message is read twice -/
  | unreadableContract
  | alreadyRegistered (moduleName : String)
  | notRegistered (moduleName : String)
  | unknownContract (contract : Bytes)
  | notCreator
  | notAdmin
  | invalidSigner (expected got : Bytes)
  | invalidAuthority
  | wasm (e : Wasm.Err)
  /-- what a contract answers -/
  | contract
  deriving DecidableEq

/-- The text of an error, as a format; a wrapped error ends with the text of its class. -/
def Err.format : Err → String
  | invalidRegisterAddress => "invalid register address: %s"
  | invalidContractAddress => "invalid contract address: %s"
  | unreadableContract => "invalid contract address (%s): invalid address"
  | alreadyRegistered moduleName => "contract already registered for " ++ moduleName ++ ": invalid request"
  | notRegistered moduleName => "contract is not registered for " ++ moduleName ++ ": invalid request"
  | unknownContract _ => "contract does not exist: %s: invalid address"
  | notCreator => "sender is not the contract creator: unauthorized"
  | notAdmin => "sender is not the contract admin: unauthorized"
  | invalidSigner _ _ =>
    "invalid authority; expected %s, got %s: expected gov account as only signer for proposal message"
  | invalidAuthority => "invalid authority address: %s"
  | wasm e => e.message
  | contract => "%s"

/-! ## The store -/

/-- The parameters: the gas that one contract may use. -/
structure Params where
  contractGasLimit : UInt64
  deriving DecidableEq

/-- `DefaultParams`. -/
def Params.default : Params := ⟨250000⟩

/-- What stands in the store. -/
inductive Value where
  | params (p : Params)
  /-- the empty value of a registered contract -/
  | entry
  deriving DecidableEq

/-- The store of x/cw-hooks. -/
abbrev Store := KVStore Value

def paramsKey : Bytes := [0x00]

/-- The two kinds of events that contracts register for. -/
inductive Hook where
  | staking
  | governance
  deriving DecidableEq

/-- The prefix of the hook's contracts. -/
def Hook.keyPrefix : Hook → Bytes
  | staking => [0x01]
  | governance => [0x02]

/-- The hook in the text of an error. -/
def Hook.moduleName : Hook → String
  | staking => "staking"
  | governance => "governance"

/-- `GetParams`; parameters that were never set are zero. -/
def getParams (s : Store) : Params :=
  match s.get paramsKey with
  | some (.params p) => p
  | _ => ⟨0⟩

def setParams (s : Store) (p : Params) : Store := s.set paramsKey (.params p)

def setContract (s : Store) (keyPrefix : Bytes) (contract : AccAddress) : Store :=
  s.set (keyPrefix ++ contract.bytes) .entry

def isContractRegistered (s : Store) (keyPrefix : Bytes) (contract : AccAddress) : Bool :=
  s.has (keyPrefix ++ contract.bytes)

def deleteContract (s : Store) (keyPrefix : Bytes) (contract : AccAddress) : Store :=
  s.delete (keyPrefix ++ contract.bytes)

/-- The bytes of the registered contracts, in the order of their keys. -/
def getAllContracts (s : Store) (keyPrefix : Bytes) : List Bytes := (s.iterator keyPrefix).map Prod.fst

/-! ## Messages -/

/-- The codec of addresses and the account of governance. -/
structure Keeper where
  codec : Bech32
  authority : Bytes

/-- The module's store, and the contracts of x/wasm. -/
structure State where
  store : Store
  contracts : Wasm.Contracts

namespace Keeper

variable (k : Keeper)

/-- The sender must be both the creator and the admin, as far as these are set. -/
def isContractSenderAuthorized (contracts : Wasm.Contracts) (sender : Bytes) (contract : AccAddress) :
    Outcome Err Unit := do
  let info ← .demand (contracts contract) (.unknownContract (k.codec.string contract))
  if info.creator ≠ [] ∧ info.creator ≠ sender then .error .notCreator
  else if info.admin ≠ [] ∧ info.admin ≠ sender then .error .notAdmin
  else .ok ()

/-- `handleContractRegister`: a contract that is new for the hook, registered by its owner. -/
def handleContractRegister (s : State) (sender contractAddr keyPrefix : Bytes) (moduleName : String) :
    Outcome Err State := do
  let contract ← .demand (k.codec.accAddressFromBech32 contractAddr) .unreadableContract
  require (!isContractRegistered s.store keyPrefix contract) (.alreadyRegistered moduleName)
  k.isContractSenderAuthorized s.contracts sender contract
  return { s with store := setContract s.store keyPrefix contract }

/-- `handleContractRemoval`: the same checks, for a contract that is registered. -/
def handleContractRemoval (s : State) (sender contractAddr keyPrefix : Bytes) (moduleName : String) :
    Outcome Err State := do
  let contract ← .demand (k.codec.accAddressFromBech32 contractAddr) .unreadableContract
  require (isContractRegistered s.store keyPrefix contract) (.notRegistered moduleName)
  k.isContractSenderAuthorized s.contracts sender contract
  return { s with store := deleteContract s.store keyPrefix contract }

/-- The checks of `ValidateBasic` and the registration, for either hook. -/
def register (hook : Hook) (s : State) (registerAddress contractAddress : Bytes) : Outcome Err State := do
  require (k.codec.accAddressFromBech32 registerAddress).isSome .invalidRegisterAddress
  require (k.codec.accAddressFromBech32 contractAddress).isSome .invalidContractAddress
  k.handleContractRegister s registerAddress contractAddress hook.keyPrefix hook.moduleName

def registerStaking := k.register .staking

def registerGovernance := k.register .governance

/-- The checks of `ValidateBasic` and the removal, for either hook. -/
def unregister (hook : Hook) (s : State) (registerAddress contractAddress : Bytes) : Outcome Err State := do
  require (k.codec.accAddressFromBech32 registerAddress).isSome .invalidRegisterAddress
  require (k.codec.accAddressFromBech32 contractAddress).isSome .invalidContractAddress
  k.handleContractRemoval s registerAddress contractAddress hook.keyPrefix hook.moduleName

def unregisterGovernance := k.unregister .governance

def unregisterStaking := k.unregister .staking

/-- `UpdateParams`, for governance only. -/
def updateParams (s : State) (authority : Bytes) (params : Params) : Outcome Err State := do
  require (k.authority == authority) (.invalidSigner k.authority authority)
  require (k.codec.accAddressFromBech32 authority).isSome .invalidAuthority
  return { s with store := setParams s.store params }

end Keeper

/-- The messages of the module, and those of x/wasm that change the admin of a contract. -/
inductive Msg where
  | registerStaking (registerAddress contractAddress : Bytes)
  | registerGovernance (registerAddress contractAddress : Bytes)
  | unregisterGovernance (registerAddress contractAddress : Bytes)
  | unregisterStaking (registerAddress contractAddress : Bytes)
  | updateParams (authority : Bytes) (params : Params)
  | updateAdmin (authZ : Wasm.AuthorizationPolicy) (granted : Wasm.AuthorizationPolicyAction)
      (sender contract newAdmin : Bytes)
  | clearAdmin (authZ : Wasm.AuthorizationPolicy) (granted : Wasm.AuthorizationPolicyAction) (sender contract : Bytes)

namespace Keeper

variable (k : Keeper)

/-- A change of the contracts of x/wasm. -/
def onContracts (s : State) : Outcome Wasm.Err Wasm.Contracts → Outcome Err State
  | .ok contracts => .ok { s with contracts }
  | .error e => .error (.wasm e)
  | .panicked => .panicked

/-- The message server. -/
def handle (s : State) : Msg → Outcome Err State
  | .registerStaking registerAddress contractAddress => k.registerStaking s registerAddress contractAddress
  | .registerGovernance registerAddress contractAddress => k.registerGovernance s registerAddress contractAddress
  | .unregisterGovernance registerAddress contractAddress => k.unregisterGovernance s registerAddress contractAddress
  | .unregisterStaking registerAddress contractAddress => k.unregisterStaking s registerAddress contractAddress
  | .updateParams authority params => k.updateParams s authority params
  | .updateAdmin authZ granted sender contract newAdmin =>
    onContracts s (Wasm.updateAdmin k.codec s.contracts authZ granted sender contract newAdmin)
  | .clearAdmin authZ granted sender contract =>
    onContracts s (Wasm.clearAdmin k.codec s.contracts authZ granted sender contract)

/-- A message that fails changes nothing. -/
def step (s : State) (msg : Msg) : State := (k.handle s msg).orElse s

end Keeper

/-! ## What a message does -/

section inversion

variable {k : Keeper} {s t : State} {hook : Hook} {sender contractAddress : Bytes} {c : AccAddress}

theorem isContractSenderAuthorized_eq_ok {contracts : Wasm.Contracts} {u : Unit} :
    k.isContractSenderAuthorized contracts sender c = .ok u ↔ ∃ info, contracts c = some info ∧
      (info.creator = [] ∨ info.creator = sender) ∧ (info.admin = [] ∨ info.admin = sender) := by
  simp only [Keeper.isContractSenderAuthorized, bind_eq_ok, demand_eq_ok]
  refine exists_congr fun info => and_congr_right fun _ => ?_
  split_ifs with hcreator hadmin
  · simp [hcreator]
  · simp [hadmin]
  · exact iff_of_true rfl ⟨by tauto, by tauto⟩

theorem register_eq_ok : k.register hook s sender contractAddress = .ok t ↔
    (k.codec.accAddressFromBech32 sender).isSome ∧ ∃ c, k.codec.accAddressFromBech32 contractAddress = some c ∧
      isContractRegistered s.store hook.keyPrefix c = false ∧
      k.isContractSenderAuthorized s.contracts sender c = .ok () ∧
      t = { s with store := setContract s.store hook.keyPrefix c } := by
  simp only [Keeper.register, Keeper.handleContractRegister, bind_eq_ok, require_eq_ok,
    demand_eq_ok, pure_eq, ok.injEq, Bool.not_eq_true', exists_const]
  constructor
  · rintro ⟨hsender, -, c, hc, hnew, _, hauthorized, rfl⟩
    exact ⟨hsender, c, hc, hnew, hauthorized, rfl⟩
  · rintro ⟨hsender, c, hc, hnew, hauthorized, rfl⟩
    exact ⟨hsender, by rw [hc]; rfl, c, hc, hnew, (), hauthorized, rfl⟩

theorem unregister_eq_ok : k.unregister hook s sender contractAddress = .ok t ↔
    (k.codec.accAddressFromBech32 sender).isSome ∧ ∃ c, k.codec.accAddressFromBech32 contractAddress = some c ∧
      isContractRegistered s.store hook.keyPrefix c = true ∧
      k.isContractSenderAuthorized s.contracts sender c = .ok () ∧
      t = { s with store := deleteContract s.store hook.keyPrefix c } := by
  simp only [Keeper.unregister, Keeper.handleContractRemoval, bind_eq_ok, require_eq_ok,
    demand_eq_ok, pure_eq, ok.injEq, exists_const]
  constructor
  · rintro ⟨hsender, -, c, hc, hold, _, hauthorized, rfl⟩
    exact ⟨hsender, c, hc, hold, hauthorized, rfl⟩
  · rintro ⟨hsender, c, hc, hold, hauthorized, rfl⟩
    exact ⟨hsender, by rw [hc]; rfl, c, hc, hold, (), hauthorized, rfl⟩

theorem onContracts_eq_ok {x : Outcome Wasm.Err Wasm.Contracts} :
    Keeper.onContracts s x = .ok t ↔ ∃ contracts, x = .ok contracts ∧ t = { s with contracts } := by
  cases x <;> simp [Keeper.onContracts, eq_comm]

end inversion

/-! ## The registered contracts after a write -/

section registered

variable {s : Store} {hook hook' : Hook} {c c' : AccAddress}

theorem key_inj : hook.keyPrefix ++ c.bytes = hook'.keyPrefix ++ c'.bytes ↔ hook = hook' ∧ c = c' := by
  constructor
  · intro h
    cases hook <;> cases hook' <;> simp [Hook.keyPrefix, AccAddress.ext_iff] at h ⊢ <;> exact h
  · rintro ⟨rfl, rfl⟩
    rfl

theorem isContractRegistered_setContract : isContractRegistered (setContract s hook.keyPrefix c) hook'.keyPrefix c' =
    (decide (hook = hook' ∧ c = c') || isContractRegistered s hook'.keyPrefix c') := by
  unfold isContractRegistered setContract has
  rw [get_set]
  by_cases h : hook = hook' ∧ c = c'
  · simp [h]
  · rw [if_neg (key_inj.not.mpr h), decide_eq_false h, Bool.false_or]

theorem isContractRegistered_deleteContract :
    isContractRegistered (deleteContract s hook.keyPrefix c) hook'.keyPrefix c' =
      (!decide (hook = hook' ∧ c = c') && isContractRegistered s hook'.keyPrefix c') := by
  unfold isContractRegistered deleteContract has
  rw [get_delete]
  by_cases h : hook = hook' ∧ c = c'
  · simp [h]
  · rw [if_neg (key_inj.not.mpr h), decide_eq_false h, Bool.not_false, Bool.true_and]

theorem isContractRegistered_setParams (p : Params) :
    isContractRegistered (setParams s p) hook.keyPrefix c = isContractRegistered s hook.keyPrefix c := by
  unfold isContractRegistered setParams has
  rw [get_set_of_ne]
  cases hook <;> simp [paramsKey, Hook.keyPrefix]

end registered

end CwHooks
