/-
  The data of the wasm module that code uploads, circuits, pins and deposits work on: access rules,
  records, parameters and errors.
-/
import TerpCore.Lib.Address
import TerpCore.Lib.Coins
import TerpCore.Lib.KVStore
import TerpCore.Lib.Outcome

namespace Wasm

open Lib

/-! ## Access rules -/

/-- `other` stands for the numbers that name no access type. -/
inductive AccessType where
  | unspecified
  | nobody
  | everybody
  | anyOfAddresses
  | other
  deriving DecidableEq

/-- Who may do something. -/
structure AccessConfig where
  permission : AccessType
  addresses : List Bytes
  deriving DecidableEq

def allowNobody : AccessConfig := ⟨.nobody, []⟩
def allowEverybody : AccessConfig := ⟨.everybody, []⟩

/-- `Allowed`, for an actor given by its string; it panics on a type it does not know. -/
def AccessConfig.allowed (a : AccessConfig) (actor : Bytes) : Option Bool :=
  match a.permission with
  | .nobody => some false
  | .everybody => some true
  | .anyOfAddresses => some (a.addresses.contains actor)
  | .unspecified | .other => none

/-- `IsSubset` of access types. -/
def AccessType.isSubset (a superSet : AccessType) : Bool :=
  match superSet with
  | .everybody => a != .unspecified
  | .nobody => a == .nobody
  | .anyOfAddresses => a == .nobody || a == .anyOfAddresses
  | .unspecified | .other => false

/-- `IsSubset` of access configurations. -/
def AccessConfig.isSubset (a superSet : AccessConfig) : Bool :=
  match superSet.permission with
  | .anyOfAddresses =>
    a.permission == .nobody ||
      a.permission == .anyOfAddresses && a.addresses.all fun o => superSet.addresses.contains o
  | .unspecified => false
  | _ => a.permission.isSubset superSet.permission

/-! ## Records -/

/-- The parameters of the module. -/
structure Params where
  codeUploadAccess : AccessConfig
  instantiateDefaultPermission : AccessType
  circuitUploadAccess : AccessConfig
  circuitDevDestination : Bytes
  deriving DecidableEq

def defaultParams : Params where
  codeUploadAccess := allowEverybody
  instantiateDefaultPermission := .everybody
  circuitUploadAccess := allowEverybody
  circuitDevDestination := []

/-- The record of a code. -/
structure CodeInfo where
  codeHash : Bytes
  creator : Bytes
  instantiateConfig : AccessConfig
  deriving DecidableEq

/-- The record of a circuit. -/
structure CircuitInfo where
  circuitHash : Bytes
  creator : Bytes
  instantiateConfig : AccessConfig
  i : UInt64
  vkpLen : UInt64
  csLen : UInt64
  vkLen : UInt64
  deriving DecidableEq

/-- The record of a parameter set. -/
structure VkParamInfo where
  vkID : UInt64
  creator : Bytes
  dataHash : Bytes
  deriving DecidableEq

/-- What a row of the module's store holds.  Sequences, blobs and index entries stay raw. -/
inductive Value where
  | params (p : Params)
  | codeInfo (c : CodeInfo)
  | circuitInfo (c : CircuitInfo)
  | vkParamInfo (p : VkParamInfo)
  | raw (b : Bytes)
  deriving DecidableEq

def Value.codeInfo? : Value → Option CodeInfo
  | codeInfo c => some c
  | _ => none

def Value.circuitInfo? : Value → Option CircuitInfo
  | circuitInfo c => some c
  | _ => none

def Value.vkParamInfo? : Value → Option VkParamInfo
  | vkParamInfo p => some p
  | _ => none

/-- The store of x/wasm. -/
abbrev Store := KVStore Value

/-! ## Errors -/

/-- The errors of the module. -/
inductive Err where
  | wrap (context : String) (e : Err)
  | invalidRequest
  | unauthorized
  | invalidAddress
  | createFailed
  | notFound
  | empty
  | limit
  | invalid
  | duplicate
  | noSuchCode
  | noSuchCircuit
  | syncPinnedCodesFailed
  | pinContractFailed
  | pinCircuitFailed
  | unpinCircuitFailed
  | circuitDepositRequired
  /-- an error made with `fmt.Errorf`, by its format -/
  | errorf (format : String)
  /-- what the engine, the bank or the address codec answers -/
  | outside
  deriving DecidableEq

/-- The error as Go prints it. -/
def Err.message : Err → String
  | wrap context e => context ++ ": " ++ e.message
  | invalidRequest => "invalid request"
  | unauthorized => "unauthorized"
  | invalidAddress => "invalid address"
  | createFailed => "create wasm contract failed"
  | notFound => "not found"
  | empty => "empty"
  | limit => "exceeds limit"
  | invalid => "invalid"
  | duplicate => "duplicate"
  | noSuchCode => "no such code"
  | noSuchCircuit => "no such circuit"
  | syncPinnedCodesFailed => "syncing pinned codes failed"
  | pinContractFailed => "pinning contract failed"
  | pinCircuitFailed => "pinning circuit failed"
  | unpinCircuitFailed => "unpinning circuit failed"
  | circuitDepositRequired => "circuit deposit required"
  | errorf format => format
  | outside => "%s"

/-- `Wrap` of an error. -/
def wrapErr {α : Type} (context : String) : Outcome Err α → Outcome Err α
  | .error e => .error (.wrap context e)
  | o => o

@[simp] theorem wrapErr_ok {α : Type} (context : String) (a : α) : wrapErr context (.ok a) = .ok a := rfl

@[simp] theorem wrapErr_eq_ok {α : Type} {context : String} {o : Outcome Err α} {a : α} :
    wrapErr context o = .ok a ↔ o = .ok a := by
  cases o <;> simp [wrapErr]

end Wasm
