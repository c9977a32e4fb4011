/-
  The keeper: the module's parameters, the authenticators of the accounts, and the module's messages.
-/
import TerpCore.SmartAccount.Types

namespace SmartAccount

open Lib Proc

variable {ρ : Type}

/-! ## Keys -/

/-- `fmt.Sprint` of an id. -/
def decimal (n : UInt64) : Bytes := (Nat.toDigits 10 n.toNat).map fun c => UInt8.ofNat c.toNat

def keySeparator : Bytes := ascii "|"

def buildKey (elements : List Bytes) : Bytes := keySeparator.intercalate elements ++ keySeparator

def paramsKey : Bytes := [0x00]

/-- `fmt.Sprint` shows the prefix `[]byte{0x01}` as a list. -/
def keyNextAccountAuthenticatorId : Bytes := buildKey [ascii "[1]"]

/-! ## Metered access -/

def consumeGas (amount : UInt64) : Proc (Context ρ) Err Unit :=
  .zoom Context.gasMeter (fun ctx m => { ctx with gasMeter := m }) (GasMeter.consumeGas amount)

structure Keeper (ρ : Type) where
  circuitBreakerGovernor : Bytes
  authenticatorManager : Bytes → Option (RegisteredAuthenticator ρ)
  /-- `AccAddress.String` -/
  accString : Bytes → Bytes
  accAddressFromBech32 : Bytes → Option Bytes
  /-- the gas of reading a row -/
  readGas : Bytes → Option Row → UInt64
  /-- the gas of writing a row, or of deleting it -/
  writeGas : Bytes → Option Row → UInt64

/-- The accounts of x/auth. -/
structure AccountKeeper where
  readGas : Bytes → Option Account → UInt64
  writeGas : Bytes → Account → UInt64

namespace AccountKeeper

variable (ak : AccountKeeper)

def getAccount (address : Bytes) : Proc (Context ρ) Err (Option Account) := do
  let ctx ← get
  consumeGas (ak.readGas address (ctx.store.accounts.get address))
  pure (ctx.store.accounts.get address)

def setAccount (address : Bytes) (account : Account) : Proc (Context ρ) Err Unit := do
  consumeGas (ak.writeGas address account)
  modify fun ctx =>
    { ctx with store := { ctx.store with accounts := ctx.store.accounts.set address account } }

end AccountKeeper

namespace Keeper

variable (k : Keeper ρ)

def keyAccountId (account : Bytes) (id : UInt64) : Bytes :=
  buildKey [ascii "[2]", k.accString account, decimal id]

def get (key : Bytes) : Proc (Context ρ) Err (Option Row) := do
  let ctx ← Proc.get
  consumeGas (k.readGas key (ctx.store.smartAccount.get key))
  pure (ctx.store.smartAccount.get key)

def set (key : Bytes) (row : Row) : Proc (Context ρ) Err Unit := do
  consumeGas (k.writeGas key (some row))
  modify fun ctx =>
    { ctx with store := { ctx.store with smartAccount := ctx.store.smartAccount.set key row } }

def delete (key : Bytes) : Proc (Context ρ) Err Unit := do
  consumeGas (k.writeGas key none)
  modify fun ctx =>
    { ctx with store := { ctx.store with smartAccount := ctx.store.smartAccount.delete key } }

/-! ## Parameters -/

/-- A row that is no parameters does not unmarshal. -/
def getParams : Proc (Context ρ) Err Params := do
  match ← k.get paramsKey with
  | some (.params params) => pure params
  | _ => pure defaultParams

/-- `params.Validate() == nil`: the types leave only the controllers to check. -/
def validParams (params : Params) : Bool :=
  params.circuitBreakerControllers.all fun addr => (k.accAddressFromBech32 addr).isSome

def setParams (params : Params) : Proc (Context ρ) Err Unit := do
  if !k.validParams params then .ofOutcome .panicked
  k.set paramsKey (.params params)

def getIsSmartAccountActive : Proc (Context ρ) Err Bool := do
  let params ← k.getParams
  pure params.isSmartAccountActive

def setActiveState (active : Bool) : Proc (Context ρ) Err Unit := do
  let params ← k.getParams
  k.setParams { params with isSmartAccountActive := active }

/-! ## Authenticators -/

def getSelectedAuthenticatorData (account : Bytes) (selectedAuthenticator : UInt64) :
    Proc (Context ρ) Err AccountAuthenticator := do
  match ← k.get (k.keyAccountId account selectedAuthenticator) with
  | none => .fail (.authenticatorNotFound selectedAuthenticator account)
  | some (.authenticator data) => pure data
  | some _ => .fail .unmarshalAuthenticator

/-- If `Initialize` returns nil without an error, there is no error to wrap: the result is the zero value. -/
def getInitializedAuthenticatorForAccount (account : Bytes) (selectedAuthenticator : UInt64) :
    Proc (Context ρ) Err (InitializedAuthenticator ρ) := do
  let data ← k.getSelectedAuthenticatorData account selectedAuthenticator
  match k.authenticatorManager data.type with
  | none => .fail (.notRegisteredInManager selectedAuthenticator data.type)
  | some uninitialized =>
    match uninitialized.initializeConfig data.config with
    | .error e => .fail (.failedToInitialize e selectedAuthenticator data.type)
    | .panicked => .ofOutcome .panicked
    | .ok none => pure ⟨0, none⟩
    | .ok (some authenticator) => pure ⟨data.id, some authenticator⟩

def firstAuthenticatorId : UInt64 := 1

def setNextAuthenticatorId (authenticatorId : UInt64) : Proc (Context ρ) Err Unit :=
  k.set keyNextAccountAuthenticatorId (.nextId authenticatorId)

def initializeOrGetNextAuthenticatorId : Proc (Context ρ) Err UInt64 := do
  match ← k.get keyNextAccountAuthenticatorId with
  | none =>
    k.setNextAuthenticatorId firstAuthenticatorId
    pure firstAuthenticatorId
  | some (.nextId id) => pure id
  | some _ => .ofOutcome .panicked

def addAuthenticator (account authenticatorType config : Bytes) : Proc (Context ρ) Err UInt64 := do
  match k.authenticatorManager authenticatorType with
  | none => .fail (.typeNotRegistered authenticatorType)
  | some impl =>
    let id ← k.initializeOrGetNextAuthenticatorId
    .mapError (.onAdded · authenticatorType) (impl.onAuthenticatorAdded account config (decimal id)).exec
    k.setNextAuthenticatorId (id + 1)
    k.set (k.keyAccountId account id) (.authenticator ⟨id, authenticatorType, config⟩)
    pure id

def removeAuthenticator (account : Bytes) (authenticatorId : UInt64) : Proc (Context ρ) Err Unit := do
  match ← k.get (k.keyAccountId account authenticatorId) with
  | none => .fail (.doesNotExist authenticatorId account)
  | some (.authenticator existing) =>
    match k.authenticatorManager existing.type with
    | none => .fail (.typeNotRegistered existing.type)
    | some impl =>
      .mapError (.onRemoved · existing.type)
        (impl.onAuthenticatorRemoved account existing.config (decimal authenticatorId)).exec
      k.delete (k.keyAccountId account authenticatorId)
  | some _ => .fail .unmarshalAuthenticator

/-- `GetAuthenticatorExtension`: the first extension option that unpacks. -/
def getAuthenticatorExtension (exts : List (Option (List UInt64))) : Option (List UInt64) :=
  exts.findSome? id

/-! ## Messages -/

def handleAddAuthenticator (sender authenticatorType data : Bytes) : Proc (Context ρ) Err Unit := do
  let isSmartAccountActive ← k.getIsSmartAccountActive
  require isSmartAccountActive .notActive
  match k.accAddressFromBech32 sender with
  | none => .fail .invalidSender
  | some account =>
    let _ ← k.addAuthenticator account authenticatorType data
    pure ()

def handleRemoveAuthenticator (sender : Bytes) (id : UInt64) : Proc (Context ρ) Err Unit := do
  let isSmartAccountActive ← k.getIsSmartAccountActive
  require isSmartAccountActive .notActive
  match k.accAddressFromBech32 sender with
  | none => .fail .invalidSender
  | some account => k.removeAuthenticator account id

/-- `msgServer.SetActiveState`; `GetSigners` panics on an invalid sender. -/
def handleSetActiveState (sender : Bytes) (active : Bool) : Proc (Context ρ) Err Unit := do
  let signer ← .ofOutcome (.ofOption (k.accAddressFromBech32 sender))
  if active then
    require (signer = k.circuitBreakerGovernor) .notGovernor
  else
    let params ← k.getParams
    require (params.circuitBreakerControllers.any fun controller => controller = k.accString signer)
      .notController
  k.setActiveState active

end Keeper

end SmartAccount
