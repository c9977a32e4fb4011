/-
  Uploads: wasm code, circuit parameters, and circuits that refer to them.
-/
import TerpCore.Wasm.Keeper

namespace Wasm

open Lib Outcome

variable {ν β : Type} (k : Keeper ν β)

/-! ## Authorization -/

/-- The policies a message may run under; a partial one grants single actions, of which uploading is
none. -/
inductive AuthorizationPolicy where
  | default
  | gov
  | partialGov
  deriving DecidableEq

/-- What the parameters say of access. -/
structure ChainAccessConfigs where
  instantiate : AccessConfig
  upload : AccessConfig

/-- `CanCreateCode`; `none` is a panic. -/
def AuthorizationPolicy.canCreateCode (authZ : AuthorizationPolicy) (chainConfigs : ChainAccessConfigs)
    (actor : Bytes) (contractConfig : AccessConfig) : Option Bool :=
  match authZ with
  | .gov => some true
  | .default | .partialGov => do
    let allowed ← chainConfigs.upload.allowed actor
    return allowed && contractConfig.isSubset chainConfigs.instantiate

/-- The duplicates of `validateBech32Addresses` are found in upper case. -/
def toUpper (b : Bytes) : Bytes := b.map fun c => if 0x61 ≤ c ∧ c ≤ 0x7a then c - 0x20 else c

def maxAddressCount : Nat := 50

def Keeper.validateBech32Addresses (addresses : List Bytes) : Outcome Err Unit :=
  if addresses.length = 0 then .error (.wrap "addresses" .empty)
  else if maxAddressCount < addresses.length then
    .error (.wrap s!"total number of addresses is greater than {maxAddressCount}" .invalidRequest)
  else loop [] addresses
where
  loop (index : List Bytes) : List Bytes → Outcome Err Unit
    | [] => .ok ()
    | addr :: addrs =>
      match k.accAddressFromBech32 addr with
      | none => .error (.wrap "address: %s" .outside)
      | some _ =>
        if toUpper addr ∈ index then .error (.wrap "duplicate addresses" .duplicate)
        else loop (toUpper addr :: index) addrs

/-- `AccessType.With` for one address; it panics on a type it does not support. -/
def Keeper.accessWith (a : AccessType) (addr : AccAddress) : Outcome Err AccessConfig :=
  match a with
  | .nobody => .ok allowNobody
  | .everybody => .ok allowEverybody
  | .anyOfAddresses =>
    if (k.validateBech32Addresses [k.bech32 addr]).isOk then .ok ⟨.anyOfAddresses, [k.bech32 addr]⟩
    else .panicked
  | .unspecified | .other => .panicked

/-! ## Parameters -/

def validateAccessType : AccessType → Outcome Err Unit
  | .unspecified => .error (.wrap "type" .empty)
  | .nobody | .anyOfAddresses | .everybody => .ok ()
  | .other => .error (.wrap "unknown type: %q" .invalid)

/-- `ValidateBasic` of an access configuration. -/
def Keeper.validateAccessConfig (a : AccessConfig) : Outcome Err Unit :=
  match a.permission with
  | .unspecified => .error (.wrap "type" .empty)
  | .nobody | .everybody => .ok ()
  | .anyOfAddresses => wrapErr "addresses" (k.validateBech32Addresses a.addresses)
  | .other => .error (.wrap "unknown type: %q" .invalid)

/-- `ValidateBasic` of the parameters. -/
def Keeper.validateParams (p : Params) : Outcome Err Unit := do
  wrapErr "instantiate default permission" (validateAccessType p.instantiateDefaultPermission)
  wrapErr "circuit upload access" (k.validateAccessConfig p.circuitUploadAccess)
  wrapErr "upload access" (k.validateAccessConfig p.codeUploadAccess)
  require (p.circuitDevDestination == [] ||
      (k.accAddressFromBech32 p.circuitDevDestination).isSome)
    (.wrap "circuit_dev_destination" .outside)

/-- The message `UpdateParams`, for governance only. -/
def Keeper.updateParams (s : State ν β) (authority : Bytes) (p : Params) : Outcome Err (State ν β) := do
  require (k.accAddressFromBech32 authority).isSome (.wrap "authority" .outside)
  k.validateParams p
  require (k.isAuthority authority) .outside
  return { s with store := setParams s.store p }

/-! ## Circuit uploads -/

/-- The circuit rule, or the code rule where no circuit rule is set. -/
def Params.circuitUploadAccessConfig (p : Params) : AccessConfig :=
  if p.circuitUploadAccess.permission ≠ .unspecified then p.circuitUploadAccess
  else p.codeUploadAccess

/-- The seconds of a block time; times before 1970 count as zero. -/
def nowUnix (blockTime : Int64) : UInt64 := if blockTime < 0 then 0 else blockTime.toUInt64

/-- `circuitDepositees.Get`; a value that does not decode is an error. -/
def circuitDepositPaidUntil (s : Store) (addr : AccAddress) : Option UInt64 :=
  match s.get (getCircuitDepositeeKey addr) with
  | some (.raw b) => if b.length = 8 then getBE64 b else none
  | _ => none

/-- The deposit of `addr` covers the block. -/
def hasCircuitDeposit (s : Store) (blockTime : Int64) (addr : AccAddress) : Bool :=
  match circuitDepositPaidUntil s addr with
  | some paidUntil => (nowUnix blockTime).toInt64 < paidUntil.toInt64
  | none => false

/-- An upload needs a permission or a deposit. -/
def Keeper.authorizeCircuitUpload (s : Store) (blockTime : Int64) (creator : AccAddress)
    (instantiateAccess : AccessConfig) (authZ : AuthorizationPolicy) (what : String) :
    Outcome Err Unit := do
  let params ← getParams s
  let defaultAccessConfig ← k.accessWith params.instantiateDefaultPermission creator
  let chainConfigs : ChainAccessConfigs := ⟨defaultAccessConfig, params.circuitUploadAccessConfig⟩
  let ok ← .ofOption (authZ.canCreateCode chainConfigs (k.bech32 creator) instantiateAccess)
  if ok then return ()
  require (instantiateAccess.isSubset defaultAccessConfig) (.wrap what .unauthorized)
  require (hasCircuitDeposit s blockTime creator) (.wrap what .circuitDepositRequired)

/-! ## Code -/

/-- `create`: a code is stored under the next id. -/
def Keeper.create (s : State ν β) (creator : AccAddress) (wasmCode : Bytes)
    (instantiateAccess : Option AccessConfig) (authZ : AuthorizationPolicy) :
    Outcome Err (UInt64 × State ν β) := do
  let params ← getParams s.store
  let defaultAccessConfig ← k.accessWith params.instantiateDefaultPermission creator
  let access := instantiateAccess.getD defaultAccessConfig
  let chainConfigs : ChainAccessConfigs := ⟨defaultAccessConfig, params.codeUploadAccess⟩
  let ok ← .ofOption (authZ.canCreateCode chainConfigs (k.bech32 creator) access)
  require ok (.wrap "can not create code" .unauthorized)
  let code ← k.uncompressIfGzip wasmCode k.maxWasmSize "uncompress wasm archive"
  let (checksum, vm) ← createFailedOr (k.engine.storeCode s.vm code)
  require (k.engine.analyzeCode vm checksum) .createFailed
  let (codeID, store) ← autoIncrementID s.store keySequenceCodeID
  return (codeID, { s with
    store := mustStoreCodeInfo store codeID ⟨checksum, k.bech32 creator, access⟩
    vm := vm })

/-! ## Circuits -/

/-- A parameter set is stored under the next id. -/
def Keeper.storeVkParam (s : State ν β) (blockTime : Int64) (creator : AccAddress) (hasAuth : Bool)
    (paramBytes : Bytes) (authZ : AuthorizationPolicy) : Outcome Err (UInt64 × State ν β) := do
  require hasAuth (.wrap "circuit param auth is required" .invalidRequest)
  let params ← getParams s.store
  let defaultAccessConfig ← k.accessWith params.instantiateDefaultPermission creator
  k.authorizeCircuitUpload s.store blockTime creator defaultAccessConfig authZ
    "can not store vk params"
  let paramBytes ← k.uncompressIfGzip paramBytes k.maxCircuitSize "uncompress param archive"
  require (paramBytes != []) (.wrap "empty param bytes" .invalidRequest)
  let (paramKey, vm) ← createFailedOr (k.engine.storeParam s.vm paramBytes)
  require (paramKey.length == 36)
    (.wrap s!"StoreParam returned {paramKey.length}-byte key, want 36" .createFailed)
  let (paramID, store) ← autoIncrementID s.store keySequenceVkParamID
  let store := mustStoreVkParamInfo store paramID ⟨paramID, k.bech32 creator, paramKey⟩
  return (paramID, { s with
    store := store.set (getVkParamBytesKey paramID) (.raw paramBytes)
    vm := vm })

/-- The integrity of stored parameters: the key ends with their hash. -/
def Keeper.checkParamHash (dataHash paramBytes : Bytes) : Outcome Err Unit :=
  if dataHash.length = 36 then
    require (k.sha256 paramBytes == dataHash.drop 4)
      (.wrap "stored param bytes do not match param_key checksum" .invalid)
  else if dataHash.length = 32 then
    require (k.sha256 paramBytes == dataHash)
      (.wrap "stored param bytes do not match param checksum" .invalid)
  else .error (.wrap s!"unexpected param key length {dataHash.length}" .invalid)

/-- A circuit is stored under the next id, for a stored parameter set. -/
def Keeper.storeCircuit (s : State ν β) (blockTime : Int64) (creator : AccAddress) (paramID : UInt64)
    (vkBody : Bytes) (instantiateAccess : Option AccessConfig) (authZ : AuthorizationPolicy) :
    Outcome Err (UInt64 × State ν β) := do
  require (paramID != 0) (.wrap "param_key is required" .invalidRequest)
  let params ← getParams s.store
  let defaultAccessConfig ← k.accessWith params.instantiateDefaultPermission creator
  let access := instantiateAccess.getD defaultAccessConfig
  k.authorizeCircuitUpload s.store blockTime creator access authZ "can not create circuit"
  let some paramInfo := getVkParamInfo s.store paramID
    | .error (.wrap s!"vk param {paramID}" .notFound)
  let paramBytes ← getVkParamBytes s.store paramID
  k.checkParamHash paramInfo.dataHash paramBytes
  let (_, vm) ← createFailedOr (k.engine.storeParam s.vm paramBytes)
  let vkBody ← k.uncompressIfGzip vkBody k.maxCircuitSize "uncompress vk body"
  require (vkBody != []) (.wrap "empty vk_body" .invalidRequest)
  let (checksum, vm) ← createFailedOr (k.engine.storeCircuit vm (paramBytes ++ vkBody))
  require (checksum != []) (.wrap "empty circuit key from wasmvm" .createFailed)
  let (zkID, store) ← autoIncrementID s.store keySequenceCircuitID
  let store := mustStoreCircuitInfo store zkID
    { circuitHash := checksum
      creator := k.bech32 creator
      instantiateConfig := access
      i := 0
      vkpLen := UInt64.ofNat paramBytes.length
      csLen := 0
      vkLen := UInt64.ofNat vkBody.length }
  let store := mustStoreCircuitParamRef store zkID paramID
  let store := setCircuitCreatorIndex store creator zkID
  return (zkID, { s with store := mustStoreCircuitBytes store zkID (paramBytes ++ vkBody), vm := vm })

/-- A parameter set and a circuit of it. -/
def Keeper.storeFullCircuit (s : State ν β) (blockTime : Int64) (creator : AccAddress) (hasAuth : Bool)
    (paramBytes vkBody : Bytes) (authZ : AuthorizationPolicy) :
    Outcome Err (UInt64 × UInt64 × State ν β) := do
  let (paramID, s) ← k.storeVkParam s blockTime creator hasAuth paramBytes authZ
  let (zkID, s) ← k.storeCircuit s blockTime creator paramID vkBody none authZ
  return (paramID, zkID, s)

end Wasm
