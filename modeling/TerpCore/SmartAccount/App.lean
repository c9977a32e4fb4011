/-
  The application around the smart accounts: the circuit breaker, the chain of ante handlers, the post handler,
  and the execution of a transaction.
-/
import TerpCore.SmartAccount.Ante

namespace SmartAccount

open Lib

variable {ρ : Type}

/-! ## The circuit breaker -/

/-- `IsSelectedAuthenticatorTxExtensionMissing`: the selected authenticators, unless they are missing. -/
def selectedAuthenticators (tx : Tx) : Option (List UInt64) :=
  match tx.extensions.bind Keeper.getAuthenticatorExtension with
  | none | some [] => none
  | some selected => some selected

/-- `IsCircuitBreakActive`: `none` if it is, and the selected authenticators if it is not. -/
def Keeper.isCircuitBreakActive (k : Keeper ρ) (tx : Tx) : Proc (Context ρ) Err (Option (List UInt64)) := do
  let isSmartAccountActive ← k.getIsSmartAccountActive
  if !isSmartAccountActive then pure none else pure (selectedAuthenticators tx)

/-! ## Sequence numbers -/

/-- `SigVerificationDecorator`, as far as it compares the sequence numbers. -/
def verifySequences (ak : AccountKeeper) (tx : Tx) : Proc (Context ρ) Err Unit := do
  let txSigs ← .ofOutcome (getSignerAndSignatures tx)
  let _ ← .forEach (fun _ (s : Bytes × SignatureV2) => do
    match ← ak.getAccount s.1 with
    | none => .fail (.external (ascii "unknown address"))
    | some acc => Proc.require (s.2.sequence = acc.sequence) (.sequenceMismatch acc.sequence s.2.sequence))
    0 (txSigs.1.zip txSigs.2)

def incrementSequence (ak : AccountKeeper) (tx : Tx) : Proc (Context ρ) Err Unit := do
  match tx.sigTx with
  | none => .fail .invalidTxType
  | some sigTx =>
    match sigTx.signers with
    | none => .fail (.external (ascii "GetSigners"))
    | some signers =>
      let _ ← .forEach (fun _ signer => do
        match ← ak.getAccount signer with
        | none => .ofOutcome .panicked
        | some acc => ak.setAccount signer { acc with sequence := acc.sequence + 1 }) 0 signers

/-! ## Ante handlers -/

inductive Flow where
  | classic
  | authenticator
  deriving DecidableEq

/-- The application, with the code of other modules that it calls. -/
structure App (ρ : Type) where
  decorator : AuthenticatorDecorator ρ
  /-- the decorators before the circuit breaker -/
  setUp : Tx → Code ρ
  /-- `EmitPubKeyDecoratorEvents` and `ValidateSigCountDecorator` -/
  checkSignatures : Tx → Code ρ
  /-- the decorators between the fee and the sequence numbers of the classic flow -/
  setPubKeys : Tx → Code ρ
  /-- the rest of `SigVerificationDecorator` -/
  verifySignatures : Tx → Code ρ
  redundantRelay : Tx → Code ρ
  /-- the messages of other modules -/
  router : Msg → Code ρ

namespace App

variable (app : App ρ)

def keeper : Keeper ρ := app.decorator.smartAccountKeeper

def authenticatorFlow (tx : Tx) : Proc (TxContext ρ) Err Unit := do
  onContext (app.checkSignatures tx).exec
  app.decorator.anteHandle tx false (onContext (incrementSequence app.decorator.accountKeeper tx))

def classicFlow (tx : Tx) : Proc (TxContext ρ) Err Unit := onContext do
  app.decorator.deductFeeDecorator.exec tx false
  (app.setPubKeys tx).exec
  verifySequences app.decorator.accountKeeper tx
  (app.verifySignatures tx).exec
  incrementSequence app.decorator.accountKeeper tx
  (app.redundantRelay tx).exec

/-- `NewAnteHandler`, and the flow that `CircuitBreakerDecorator` chose. -/
def anteHandler (tx : Tx) : Proc (TxContext ρ) Err Flow := do
  onContext (app.setUp tx).exec
  match ← onContext (app.keeper.isCircuitBreakActive tx) with
  | none =>
    app.classicFlow tx
    pure .classic
  | some _ =>
    app.authenticatorFlow tx
    pure .authenticator

/-! ## Messages -/

def handle (msg : Msg) : Proc (Context ρ) Err Unit :=
  match msg.call with
  | .addAuthenticator sender authenticatorType data =>
    app.keeper.handleAddAuthenticator sender authenticatorType data
  | .removeAuthenticator sender id => app.keeper.handleRemoveAuthenticator sender id
  | .setActiveState sender active => app.keeper.handleSetActiveState sender active
  | .other => (app.router msg).exec

def runMsgs (tx : Tx) : Proc (Context ρ) Err Unit := do
  let _ ← .forEach (fun _ msg => app.handle msg) 0 tx.msgs

end App

/-! ## The post handler -/

/-- A call of `ConfirmExecution`: the message, its account and the authenticator it selects. -/
structure Confirmation where
  msgIndex : ℕ
  account : Bytes
  selectedId : UInt64
  success : Bool
  deriving DecidableEq

/-- The context, and the calls of `ConfirmExecution` so far. -/
structure PostState (ρ : Type) where
  ctx : Context ρ
  confirmations : List Confirmation

def PostState.onCtx {α : Type} : Proc (Context ρ) Err α → Proc (PostState ρ) Err α :=
  .zoom PostState.ctx fun s ctx => { s with ctx := ctx }

/-- A call of `ConfirmExecution` that is ready. -/
structure Confirm (ρ : Type) where
  ath : Authenticator ρ
  authenticationRequest : AuthenticationRequest
  account : Bytes
  selectedId : UInt64

namespace App

variable (app : App ρ)

/-- One turn of the post handler's loop, up to the call of `ConfirmExecution`.  Without an authenticator the id in the
error is zero. -/
def prepareConfirm (feeTx : FeeTx) (selectedFromExtension : List UInt64) (tx : Tx) (msgIndex : ℕ) (msg : Msg) :
    Proc (Context ρ) Err (Confirm ρ) :=
  match msg.signers with
  | none => .fail (.external (ascii "GetMsgV1Signers"))
  | some [] => .ofOutcome .panicked
  | some (account :: _) => do
    let selectedId ← .ofOutcome (.ofOption selectedFromExtension[msgIndex]?)
    let selected ← .mapError (.getAuthenticator · account 0 msgIndex msg.typeURL)
      (app.keeper.getInitializedAuthenticatorForAccount account selectedId)
    let request ← .mapError (.generateRequest · account selected.id msgIndex msg.typeURL)
      (generateAuthenticationRequest app.decorator.accountKeeper app.decorator.getSignBytes
        ⟨account, feeTx.feePayer, feeTx.feeGranter, feeTx.fee, msg, tx, msgIndex, false⟩ noReplayProtection)
    -- a nil authenticator is dereferenced here
    let ath ← .ofOutcome (.ofOption selected.authenticator)
    pure ⟨ath, { request with authenticatorId := decimal selected.id }, account, selectedId⟩

/-- The call of `ConfirmExecution`. -/
def confirm (c : Confirm ρ) (msgIndex : ℕ) (msg : Msg) : Proc (PostState ρ) Err Unit := fun s =>
  let r := Proc.mapError (.blocked · c.account c.selectedId msgIndex msg.typeURL)
    (c.ath.confirmExecution c.authenticationRequest).exec s.ctx
  (r.1, ⟨r.2, s.confirmations ++ [⟨msgIndex, c.account, c.selectedId, r.1.isOk⟩]⟩)

def confirmMsg (feeTx : FeeTx) (selectedFromExtension : List UInt64) (tx : Tx) (msgIndex : ℕ) (msg : Msg) :
    Proc (PostState ρ) Err Unit := do
  let c ← PostState.onCtx (app.prepareConfirm feeTx selectedFromExtension tx msgIndex msg)
  confirm c msgIndex msg

/-- `AuthenticatorPostDecorator.PostHandle`; both the next handlers do nothing. -/
def postHandle (tx : Tx) : Proc (PostState ρ) Err Unit := do
  match ← PostState.onCtx (app.keeper.isCircuitBreakActive tx) with
  | none => pure ()
  | some selectedFromExtension =>
    match tx.feeTx with
    | none => .fail .notFeeTx
    | some feeTx =>
      let _ ← .forEach (app.confirmMsg feeTx selectedFromExtension tx) 0 tx.msgs

/-! ## Transactions -/

/-- The meter that `SetUpContextDecorator` sets. -/
def gasMeterOf (header : Header) (tx : Tx) : GasMeter :=
  if header.blockHeight = 0 then ⟨none, 0⟩ else .new ((tx.feeTx.map FeeTx.gas).getD 0)

def txContext (header : Header) (s : MultiStore ρ) (tx : Tx) : TxContext ρ :=
  ⟨s, header, s, gasMeterOf header tx⟩

structure TxResult (ρ : Type) where
  /-- the state of the block after the transaction -/
  store : MultiStore ρ
  /-- the flow of the ante handler, if it succeeded -/
  flow : Option Flow
  msgsOk : Bool
  /-- what the messages and the post handler wrote is in the state -/
  committed : Bool
  confirmations : List Confirmation

/-- The messages and the post handler, in a branch of the stores that the ante handler left. -/
def runMsgsAndPost (tx : Tx) (flow : Flow) (ctx : Context ρ) : TxResult ρ :=
  match app.runMsgs tx ctx with
  | (.ok _, ctx') =>
    let post := app.postHandle tx ⟨ctx', []⟩
    ⟨if post.1.isOk then post.2.ctx.store else ctx.store, some flow, true, post.1.isOk, post.2.confirmations⟩
  | (.error _, ctx') =>
    -- the post handler runs whether the messages succeeded or not
    ⟨ctx.store, some flow, false, false, (app.postHandle tx ⟨ctx', []⟩).2.confirmations⟩
  | (_, _) => ⟨ctx.store, some flow, false, false, []⟩

/-- `runTx` in a block: what the ante handler wrote stays if it succeeds, else only what it has flushed. -/
def runTx (header : Header) (s : MultiStore ρ) (tx : Tx) : TxResult ρ :=
  match app.anteHandler tx (txContext header s tx) with
  | (.ok flow, t) => app.runMsgsAndPost tx flow t.ctx
  | (_, t) => ⟨t.block, none, false, false, []⟩

end App

/-- An application around the sample accounts. -/
def Sample.app : App Unit where
  decorator := decorator
  setUp := fun _ => returns true
  checkSignatures := fun _ => returns true
  setPubKeys := fun _ => returns true
  verifySignatures := fun _ => returns true
  redundantRelay := fun _ => returns true
  router := fun _ => returns true

end SmartAccount
