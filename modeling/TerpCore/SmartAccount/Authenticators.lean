/-
  The authenticators that are no composites: a signature, a pattern of messages, a contract and a proof.
-/
import TerpCore.SmartAccount.Manager

namespace SmartAccount

open Lib Proc

variable {ρ : Type}

/-! ## What they call -/

structure OnAuthenticatorRequest where
  account : Bytes
  authenticatorParams : Bytes
  authenticatorId : Bytes

structure ContractRequest where
  authenticatorId : Bytes
  account : Bytes
  feePayer : Bytes
  feeGranter : Bytes
  fee : List Coin
  msg : LocalAny
  msgIndex : UInt64
  authenticatorParams : Bytes

inductive SudoMsg where
  | onAuthenticatorAdded (request : OnAuthenticatorRequest)
  | onAuthenticatorRemoved (request : OnAuthenticatorRequest)
  | authenticate (request : AuthenticationRequest)
  | track (request : ContractRequest)
  | confirmExecution (request : ContractRequest)

def SudoMsg.kind : SudoMsg → SudoKind
  | .onAuthenticatorAdded _ => .onAuthenticatorAdded
  | .onAuthenticatorRemoved _ => .onAuthenticatorRemoved
  | .authenticate _ => .authenticate
  | .track _ => .track
  | .confirmExecution _ => .confirmExecution

structure ZkProofAuthenticatorConfig where
  zkID : UInt64
  piLayout : Bytes
  staticGas : UInt64
  requirePin : Bool
  maxProofBytes : UInt64
  deriving DecidableEq

structure ZkProofAuthPayload where
  proof : Bytes
  instances : Bytes
  deriving DecidableEq

/-- The code outside the module.  Of `json.Unmarshal` there is one function for each type that it fills; `none` is an
error. -/
structure Host (ρ : Type) where
  /-- a `json.RawMessage` -/
  rawMessage : Bytes → Option Unit
  /-- an `interface{}` -/
  value : Bytes → Option JSONValue
  /-- a `map[string]interface{}` -/
  object : Bytes → Option Unit
  /-- a `CosmwasmAuthenticatorInitData`: contract and params -/
  cosmwasmInitData : Bytes → Option (Bytes × Bytes)
  zkProofConfig : Bytes → Option ZkProofAuthenticatorConfig
  zkProofPayload : Bytes → Option ZkProofAuthPayload
  accAddressFromBech32 : Bytes → Option Bytes
  /-- `math.LegacyNewDecFromStr` -/
  newDecFromStr : Bytes → Option ℤ
  /-- `InterfaceRegistry.Resolve` -/
  resolve : (typeURL : Bytes) → Option Unit
  /-- the message of a type, if it can be read -/
  unmarshal : LocalAny → Option Unit
  /-- `MarshalInterfaceJSON` of that message -/
  marshalInterfaceJSON : LocalAny → Option Bytes
  /-- `json.Marshal` -/
  marshal : SudoMsg → Option Bytes
  /-- `contractKeeper.Sudo` -/
  contractSudo : (contract msg : Bytes) → Code ρ
  /-- `GetParams` of x/auth -/
  sigVerifyCostSecp256k1 : Proc (Context ρ) Err UInt64
  /-- `PubKey.VerifySignature` -/
  verifySignature : (pubKey msg signature : Bytes) → Bool
  isReCheckTx : Context ρ → Bool
  /-- the verifier of the template, or the global one -/
  pathAVerifier : Option ((zkID : UInt64) → (proof inputs : Bytes) → Code ρ)

variable (host : Host ρ)

def Err.ofOption {α : Type} (e : LeafErr) : Option α → Outcome Err α
  | none => .error (.leaf e)
  | some a => .ok a

/-! ## `SignatureVerification` -/

namespace SignatureVerification

def type : Bytes := ascii "SignatureVerification"

def pubKeySize : ℕ := 33

def authenticate (pubKey : Option Bytes) (request : AuthenticationRequest) : Proc (Context ρ) Err Unit := do
  let cost ← host.sigVerifyCostSecp256k1
  consumeGas cost
  let ctx ← get
  if request.simulate || host.isReCheckTx ctx then pure ()
  else
    match pubKey with
    | none => .fail (.leaf .pubKeyNotSet)
    | some pubKey =>
      .require (host.verifySignature pubKey request.signModeTxData.direct request.signature)
        (.leaf (.signatureVerification request.txData.accountNumber request.txData.accountSequence
          request.txData.chainID))

/-- A key of another size is set to nil, and then set all the same. -/
def initializeConfig (config : Bytes) : Outcome Err (Option (Authenticator ρ)) :=
  .ok (some
    { type := type
      staticGas := 0
      authenticate := fun request => .ofProc (authenticate host (some config) request)
      track := fun _ => .ofProc (pure ())
      confirmExecution := fun _ => .ofProc (pure ()) })

def registered : RegisteredAuthenticator ρ where
  initializeConfig := initializeConfig host
  onAuthenticatorAdded := fun _ config _ =>
    .ofProc (.require (config.length == pubKeySize) (.leaf (.pubKeySize pubKeySize config.length)))
  onAuthenticatorRemoved := fun _ _ _ => .ofProc (pure ())

end SignatureVerification

/-! ## `MessageFilter` -/

namespace MessageFilter

def type : Bytes := ascii "MessageFilter"

def containsFloats (data : Bytes) : Outcome Err Bool := do
  let v ← Err.ofOption .invalidPattern (host.value data)
  return checkForFloats v

def isJsonSuperset (a b : Bytes) : Outcome LeafErr Unit :=
  match host.value a, host.value b with
  | none, _ => .error (.patternJSON true)
  | some _, none => .error (.patternJSON false)
  | some av, some bv =>
    match isSuperset host.newDecFromStr av bv with
    | .ok _ => .ok ()
    | .error e => .error (.mismatch e)
    | .panicked => .panicked

def authenticate (pattern : Bytes) (request : AuthenticationRequest) : Outcome Err Unit := do
  let _ ← Err.ofOption .resolveMsg (host.resolve request.msg.typeURL)
  let _ ← Err.ofOption .unmarshalMsg (host.unmarshal request.msg)
  let jsonBz ← Err.ofOption .marshalMsg (host.marshalInterfaceJSON request.msg)
  match isJsonSuperset host pattern jsonBz with
  | .ok _ => .ok ()
  | .error e => .error (.leaf (.noMatch e))
  | .panicked => .panicked

def initializeConfig (config : Bytes) : Outcome Err (Option (Authenticator ρ)) := do
  let _ ← Err.ofOption .invalidPattern (host.rawMessage config)
  return some
    { type := type
      staticGas := 0
      authenticate := fun request => .ofProc (.ofOutcome (authenticate host config request))
      track := fun _ => .ofProc (pure ())
      confirmExecution := fun _ => .ofProc (pure ()) }

def onAuthenticatorAdded (config : Bytes) : Outcome Err Unit := do
  let _ ← Err.ofOption .invalidPattern (host.rawMessage config)
  let hasFloats ← containsFloats host config
  .require (!hasFloats) (.leaf .numbersInPattern)

def registered : RegisteredAuthenticator ρ where
  initializeConfig := initializeConfig host
  onAuthenticatorAdded := fun _ config _ => .ofProc (.ofOutcome (onAuthenticatorAdded host config))
  onAuthenticatorRemoved := fun _ _ _ => .ofProc (pure ())

end MessageFilter

/-! ## `CosmwasmAuthenticator` -/

namespace CosmwasmAuthenticator

def type : Bytes := ascii "CosmwasmAuthenticatorV1"

/-- The contract and its params. -/
def parseInitData (data : Bytes) : Outcome Err (Bytes × Bytes) := do
  let (contract, params) ← Err.ofOption .json (host.cosmwasmInitData data)
  .require (!contract.isEmpty) (.leaf .missingContract)
  let contractAddr ← Err.ofOption .invalidContract (host.accAddressFromBech32 contract)
  -- params are optional
  if params.isEmpty then return (contractAddr, [])
  let _ ← Err.ofOption .paramsNotJSON (host.object params)
  return (contractAddr, params)

/-- A message is encoded and sent to the contract. -/
def send (contractAddr : Bytes) (msg : SudoMsg) : Proc (Context ρ) Err Unit := do
  let bz ← .ofOutcome (Err.ofOption (.marshalSudo msg.kind) (host.marshal msg))
  (host.contractSudo contractAddr bz).exec

def contractRequest (params : Bytes) (request : AuthenticationRequest) : ContractRequest :=
  { authenticatorId := request.authenticatorId
    account := request.account
    feePayer := request.feePayer
    feeGranter := request.feeGranter
    fee := request.fee
    msg := request.msg
    msgIndex := request.msgIndex
    authenticatorParams := params }

def initializeConfig (config : Bytes) : Outcome Err (Option (Authenticator ρ)) :=
  match parseInitData host config with
  | .ok (contractAddr, params) => .ok (some
      { type := type
        staticGas := 0
        authenticate := fun request =>
          .ofProc (send host contractAddr (.authenticate { request with authenticatorParams := params }))
        track := fun request => .ofProc (send host contractAddr (.track (contractRequest params request)))
        confirmExecution := fun request =>
          .ofProc (send host contractAddr (.confirmExecution (contractRequest params request))) })
  | .error (.leaf e) => .error (.leaf (.parseInitData e))
  | .error e => .error e
  | .panicked => .panicked

def onAuthenticatorAdded (account config authenticatorId : Bytes) : Proc (Context ρ) Err Unit := do
  let (contractAddr, params) ← .ofOutcome (parseInitData host config)
  send host contractAddr (.onAuthenticatorAdded ⟨account, params, authenticatorId⟩)

def onAuthenticatorRemoved (account config authenticatorId : Bytes) : Proc (Context ρ) Err Unit := do
  let (contractAddr, params) ← .ofOutcome (parseInitData host config)
  send host contractAddr (.onAuthenticatorRemoved ⟨account, params, authenticatorId⟩)

def registered : RegisteredAuthenticator ρ where
  initializeConfig := initializeConfig host
  onAuthenticatorAdded := fun account config id => .ofProc (onAuthenticatorAdded host account config id)
  onAuthenticatorRemoved := fun account config id => .ofProc (onAuthenticatorRemoved host account config id)

end CosmwasmAuthenticator

/-! ## `ZkProofAuthenticatorV1` -/

namespace ZkProofAuthenticatorV1

def type : Bytes := ascii "ZkProofAuthenticatorV1"

def defaultZkProofStaticGas : UInt64 := 100000

def parseZkProofAuthenticatorConfig (config : Bytes) : Outcome Err ZkProofAuthenticatorConfig := do
  .require (!config.isEmpty) (.leaf .zkEmptyConfig)
  let cfg ← Err.ofOption .zkParseConfig (host.zkProofConfig config)
  .require (cfg.zkID != 0) (.leaf .zkIdRequired)
  return if cfg.maxProofBytes = 0 then { cfg with maxProofBytes := 65536 } else cfg

def parseZkProofAuthPayload (raw : Bytes) : Outcome Err ZkProofAuthPayload := do
  .require (!raw.isEmpty) (.leaf .zkEmptyPayload)
  let p ← Err.ofOption .zkParsePayload (host.zkProofPayload raw)
  .require (!p.proof.isEmpty) (.leaf .zkProofRequired)
  .require (!p.instances.isEmpty) (.leaf .zkInstancesRequired)
  return p

def staticGas (config : ZkProofAuthenticatorConfig) : UInt64 :=
  if config.staticGas = 0 then defaultZkProofStaticGas else config.staticGas

def authenticate (config : ZkProofAuthenticatorConfig) (request : AuthenticationRequest) :
    Proc (Context ρ) Err Unit := do
  if 0 < staticGas config then consumeGas (staticGas config)
  let ctx ← get
  if request.simulate || host.isReCheckTx ctx then pure ()
  else
    let payload ← .ofOutcome (parseZkProofAuthPayload host request.signature)
    let length := UInt64.ofNat payload.proof.length
    require (!(config.maxProofBytes < length)) (.leaf (.zkProofTooLong length config.maxProofBytes))
    match host.pathAVerifier with
    | none => .fail (.leaf (.zkNotWired config.zkID config.piLayout config.requirePin))
    | some verifier =>
      .mapError (fun _ => .leaf .zkVerifyFailed) (verifier config.zkID payload.proof payload.instances).exec

def initializeConfig (config : Bytes) : Outcome Err (Option (Authenticator ρ)) := do
  let cfg ← parseZkProofAuthenticatorConfig host config
  return some
    { type := type
      staticGas := staticGas cfg
      authenticate := fun request => .ofProc (authenticate host cfg request)
      track := fun _ => .ofProc (pure ())
      confirmExecution := fun _ => .ofProc (pure ()) }

def onAuthenticatorAdded (config : Bytes) : Outcome Err Unit := do
  let _ ← parseZkProofAuthenticatorConfig host config

def registered : RegisteredAuthenticator ρ where
  initializeConfig := initializeConfig host
  onAuthenticatorAdded := fun _ config _ => .ofProc (.ofOutcome (onAuthenticatorAdded host config))
  onAuthenticatorRemoved := fun _ _ _ => .ofProc (pure ())

end ZkProofAuthenticatorV1

/-! ## The manager of the module -/

/-- The types that are no composites, with their names. -/
def leafTypes : List (Bytes × RegisteredAuthenticator ρ) :=
  [(SignatureVerification.type, SignatureVerification.registered host),
    (MessageFilter.type, MessageFilter.registered host),
    (CosmwasmAuthenticator.type, CosmwasmAuthenticator.registered host),
    (ZkProofAuthenticatorV1.type, ZkProofAuthenticatorV1.registered host)]

/-- A manager with the composite types, those four, and no others. -/
structure ModuleManager (ρ : Type) extends Manager ρ where
  host : Host ρ
  leaves : ∀ type, compositeOf type = none → getAuthenticatorByType type = (leafTypes host).lookup type

def ModuleManager.of (nested : NestedJSON) (host : Host ρ) : ModuleManager ρ where
  toManager := .ofLeaves nested fun type => (leafTypes host).lookup type
  host := host
  leaves := fun _ => Manager.ofLeaves_of_none

end SmartAccount
