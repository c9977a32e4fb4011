/-
  The genesis of the smart accounts.
-/
import TerpCore.SmartAccount.Ante
import TerpCore.Lib.Split

namespace SmartAccount

open Lib

variable {ρ : Type}

structure AuthenticatorData where
  address : Bytes
  authenticators : List AccountAuthenticator
  deriving DecidableEq

structure GenesisState where
  params : Params
  nextAuthenticatorId : UInt64
  authenticatorData : List AuthenticatorData
  deriving DecidableEq

def GenesisState.firstId (genState : GenesisState) : UInt64 :=
  if genState.nextAuthenticatorId = 0 then Keeper.firstAuthenticatorId else genState.nextAuthenticatorId

def keyAccountAuthenticatorsPrefixId : Bytes := buildKey [ascii "[2]"]

/-- An authenticator goes to the last account if it is its own, and opens an account otherwise. -/
def appendAuthenticator (accountAuthenticators : List AuthenticatorData) (accountAddr : Bytes)
    (authenticator : AccountAuthenticator) : List AuthenticatorData :=
  match accountAuthenticators.getLast? with
  | some last =>
    if last.address ≠ accountAddr then accountAuthenticators ++ [⟨accountAddr, [authenticator]⟩]
    else accountAuthenticators.dropLast ++ [{ last with authenticators := last.authenticators ++ [authenticator] }]
  | none => [⟨accountAddr, [authenticator]⟩]

/-- `parse`: the address is the second part of the key; a key without one panics. -/
def parseAuthenticator (accountAuthenticators : List AuthenticatorData) (key : Bytes) :
    Row → Outcome Err (List AuthenticatorData)
  | .authenticator authenticator => do
    let accountAddr ← .ofOption (split 0x7c key)[1]?
    return appendAuthenticator accountAuthenticators accountAddr authenticator
  | _ => .error .unmarshalAuthenticator

namespace Keeper

variable (k : Keeper ρ)

/-- The loop over the rows, which are read one by one. -/
def parseAll (accountAuthenticators : List AuthenticatorData) :
    List (Bytes × Row) → Proc (Context ρ) Err (List AuthenticatorData)
  | [] => pure accountAuthenticators
  | (key, row) :: rows => do
    consumeGas (k.readGas key (some row))
    let accountAuthenticators ← .ofOutcome (parseAuthenticator accountAuthenticators key row)
    parseAll accountAuthenticators rows

def getAllAuthenticatorData : Proc (Context ρ) Err (List AuthenticatorData) := do
  let ctx ← Proc.get
  k.parseAll [] ((ctx.store.smartAccount.iterator keyAccountAuthenticatorsPrefixId).map fun e =>
    (keyAccountAuthenticatorsPrefixId ++ e.1, e.2))

def exportGenesis : Proc (Context ρ) Err GenesisState := do
  let params ← k.getParams
  let nextAuthenticatorId ← k.initializeOrGetNextAuthenticatorId
  let allAuthenticators ← .catchError k.getAllAuthenticatorData fun _ => .ofOutcome .panicked
  pure ⟨params, nextAuthenticatorId, allAuthenticators⟩

/-- `GenesisState.Validate() == nil`. -/
def validateGenesis (gs : GenesisState) : Bool := k.validParams gs.params

def addAuthenticatorWithId (account authenticatorType config : Bytes) (id : UInt64) : Proc (Context ρ) Err Unit := do
  match k.authenticatorManager authenticatorType with
  | none => .fail (.typeNotRegistered authenticatorType)
  | some impl =>
    neverWrite (impl.onAuthenticatorAdded account config (decimal id)).exec
    k.set (k.keyAccountId account id) (.authenticator ⟨id, authenticatorType, config⟩)

/-- The authenticators of one account; an error panics. -/
def initAuthenticators (accAddr : Bytes) (authenticators : List AccountAuthenticator) : Proc (Context ρ) Err Unit := do
  let _ ← .forEach (fun _ (data : AccountAuthenticator) =>
    .catchError (k.addAuthenticatorWithId accAddr data.type data.config data.id) fun _ =>
      .ofOutcome .panicked) 0 authenticators

def initGenesis (genState : GenesisState) : Proc (Context ρ) Err Unit := do
  k.setParams genState.params
  k.setNextAuthenticatorId genState.firstId
  let _ ← .forEach (fun _ (data : AuthenticatorData) =>
    match k.accAddressFromBech32 data.address with
    | none => .ofOutcome .panicked
    | some accAddr => k.initAuthenticators accAddr data.authenticators) 0 genState.authenticatorData

end Keeper

end SmartAccount
