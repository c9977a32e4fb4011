/-
  The admins of contracts.
-/
import TerpCore.Wasm.Upload

namespace Wasm

open Lib Outcome

/-! ## Contracts -/

/-- Who made a contract and who may change it, as texts; the admin is empty if there is none. -/
structure ContractInfo where
  creator : Bytes
  admin : Bytes
  deriving DecidableEq

/-- The contracts of the store. -/
abbrev Contracts := AccAddress → Option ContractInfo

/-- The record of a contract is written. -/
def mustStoreContractInfo (contracts : Contracts) (contractAddress : AccAddress) (info : ContractInfo) : Contracts :=
  fun c => if c = contractAddress then some info else contracts c

@[simp] theorem mustStoreContractInfo_self (contracts : Contracts) (c : AccAddress) (info : ContractInfo) :
    mustStoreContractInfo contracts c info c = some info := if_pos rfl

theorem mustStoreContractInfo_of_ne (contracts : Contracts) {c c' : AccAddress} (info : ContractInfo) (h : c' ≠ c) :
    mustStoreContractInfo contracts c info c' = contracts c' := if_neg h

/-- The admin, or the creator if there is none. -/
def ContractInfo.controller (info : ContractInfo) : Bytes := if info.admin = [] then info.creator else info.admin

/-- `none` is a nil address; an admin that cannot be read panics. -/
def ContractInfo.adminAddr (codec : Bech32) (info : ContractInfo) : Outcome Err (Option AccAddress) :=
  if info.admin = [] then .ok none
  else match codec.accAddressFromBech32 info.admin with
    | some admin => .ok (some admin)
    | none => .panicked

/-! ## Changing the admin -/

/-- The action that a partial policy grants. -/
inductive AuthorizationPolicyAction where
  | instantiate
  | migrateContract
  deriving DecidableEq

/-- `CanModifyContract`: the admin may, and governance. -/
def AuthorizationPolicy.canModifyContract (authZ : AuthorizationPolicy) (granted : AuthorizationPolicyAction)
    (admin : Option AccAddress) (actor : AccAddress) : Bool :=
  match authZ with
  | .default => admin == some actor
  | .gov => true
  | .partialGov => granted == .migrateContract || admin == some actor

/-- `strings.EqualFold`, on the texts of addresses. -/
def equalFold (a b : Bytes) : Bool := toUpper a == toUpper b

section change

variable (codec : Bech32) (contracts : Contracts) (authZ : AuthorizationPolicy) (granted : AuthorizationPolicyAction)

def setContractAdmin (contractAddress caller : AccAddress) (newAdmin : Option AccAddress) : Outcome Err Contracts := do
  let info ← .demand (contracts contractAddress) (.wrap "unknown contract" .invalidRequest)
  let admin ← info.adminAddr codec
  require (authZ.canModifyContract granted admin caller) (.wrap "can not modify contract" .unauthorized)
  return mustStoreContractInfo contracts contractAddress { info with admin := newAdmin.elim [] codec.string }

/-- Whoever is admin cannot be named again by itself. -/
def updateAdmin (sender contract newAdmin : Bytes) : Outcome Err Contracts := do
  let senderAddr ← .demand (codec.accAddressFromBech32 sender) (.wrap "sender" .outside)
  let contractAddr ← .demand (codec.accAddressFromBech32 contract) (.wrap "contract" .outside)
  let newAdminAddr ← .demand (codec.accAddressFromBech32 newAdmin) (.wrap "new admin" .outside)
  require (!equalFold sender newAdmin) (.wrap "new admin is the same as the old" .invalid)
  setContractAdmin codec contracts authZ granted contractAddr senderAddr (some newAdminAddr)

/-- The message `ClearAdmin`. -/
def clearAdmin (sender contract : Bytes) : Outcome Err Contracts := do
  let senderAddr ← .demand (codec.accAddressFromBech32 sender) (.wrap "sender" .outside)
  let contractAddr ← .demand (codec.accAddressFromBech32 contract) (.wrap "contract" .outside)
  setContractAdmin codec contracts authZ granted contractAddr senderAddr none

end change

/-! ## What a change does -/

section changed

variable {codec : Bech32} {contracts contracts' : Contracts} {authZ : AuthorizationPolicy}
  {granted : AuthorizationPolicyAction}

/-- `caller` may change the admin of a contract. -/
def MayModify (codec : Bech32) (authZ : AuthorizationPolicy) (granted : AuthorizationPolicyAction) (info : ContractInfo)
    (caller : AccAddress) : Prop :=
  ∃ admin, info.adminAddr codec = .ok admin ∧ authZ.canModifyContract granted admin caller = true

theorem setContractAdmin_eq_ok {contract caller : AccAddress} {newAdmin : Option AccAddress} :
    setContractAdmin codec contracts authZ granted contract caller newAdmin = .ok contracts' ↔
      ∃ info, contracts contract = some info ∧ MayModify codec authZ granted info caller ∧
        contracts' = mustStoreContractInfo contracts contract { info with admin := newAdmin.elim [] codec.string } := by
  simp only [setContractAdmin, bind_eq_ok, demand_eq_ok, require_eq_ok, pure_eq, ok.injEq]
  constructor
  · rintro ⟨info, hinfo, admin, hadmin, _, hallowed, rfl⟩
    exact ⟨info, hinfo, ⟨admin, hadmin, hallowed⟩, rfl⟩
  · rintro ⟨info, hinfo, ⟨admin, hadmin, hallowed⟩, rfl⟩
    exact ⟨info, hinfo, admin, hadmin, (), hallowed, rfl⟩

theorem updateAdmin_eq_ok {sender contract newAdmin : Bytes} :
    updateAdmin codec contracts authZ granted sender contract newAdmin = .ok contracts' ↔
      ∃ caller c a, codec.accAddressFromBech32 sender = some caller ∧ codec.accAddressFromBech32 contract = some c ∧
        codec.accAddressFromBech32 newAdmin = some a ∧ equalFold sender newAdmin = false ∧
        setContractAdmin codec contracts authZ granted c caller (some a) = .ok contracts' := by
  simp only [updateAdmin, bind_eq_ok, demand_eq_ok, require_eq_ok, Bool.not_eq_true']
  constructor
  · rintro ⟨caller, hcaller, c, hc, a, ha, _, hfold, hset⟩
    exact ⟨caller, c, a, hcaller, hc, ha, hfold, hset⟩
  · rintro ⟨caller, c, a, hcaller, hc, ha, hfold, hset⟩
    exact ⟨caller, hcaller, c, hc, a, ha, (), hfold, hset⟩

theorem clearAdmin_eq_ok {sender contract : Bytes} :
    clearAdmin codec contracts authZ granted sender contract = .ok contracts' ↔
      ∃ caller c, codec.accAddressFromBech32 sender = some caller ∧ codec.accAddressFromBech32 contract = some c ∧
        setContractAdmin codec contracts authZ granted c caller none = .ok contracts' := by
  simp only [clearAdmin, bind_eq_ok, demand_eq_ok]
  constructor
  · rintro ⟨caller, hcaller, c, hc, hset⟩
    exact ⟨caller, c, hcaller, hc, hset⟩
  · rintro ⟨caller, c, hcaller, hc, hset⟩
    exact ⟨caller, hcaller, c, hc, hset⟩

end changed

end Wasm
