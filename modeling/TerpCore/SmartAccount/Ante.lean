/-
  The ante handler of the smart accounts: it authenticates the messages of a transaction, and takes the fee
  once the fee payer is authenticated.
-/
import TerpCore.SmartAccount.Request

namespace SmartAccount

open Lib Proc

variable {ρ : Type}

/-- The context of a transaction: the state of the block, and the stores as seen through the cache of the transaction.
-/
structure TxContext (ρ : Type) where
  block : MultiStore ρ
  ctx : Context ρ

def onContext {α : Type} : Proc (Context ρ) Err α → Proc (TxContext ρ) Err α :=
  .zoom TxContext.ctx fun t ctx => { t with ctx := ctx }

/-- The SDK's decorator that deducts the fee.  It reads the payer's account through the gas meter, so it does not
return past the gas limit. -/
structure DeductFeeDecorator (ρ : Type) where
  anteHandle : Tx → (simulate : Bool) → Code ρ
  metered : ∀ tx simulate ctx, (anteHandle tx simulate ctx).exit = .ok () → ctx.gasMeter.isPastLimit = false

def DeductFeeDecorator.exec (d : DeductFeeDecorator ρ) (tx : Tx) (simulate : Bool) : Proc (Context ρ) Err Unit := do
  (d.anteHandle tx simulate).exec
  modify fun ctx => { ctx with store := { ctx.store with fees := tx :: ctx.store.fees } }

structure AuthenticatorDecorator (ρ : Type) where
  smartAccountKeeper : Keeper ρ
  accountKeeper : AccountKeeper
  getSignBytes : SignBytes
  deductFeeDecorator : DeductFeeDecorator ρ

/-! ## Checks -/

def validateAuthenticatorFeePayer (tx : Tx) : Outcome Err Unit :=
  match tx.feeTx with
  | none => .error .notFeeTx
  | some feeTx =>
    match tx.msgs with
    | [] => .error .noMessage
    | msg :: _ =>
      match msg.signers with
      | none => .error .signers
      | some [] => .error .noSigner
      | some (signer :: _) => .require (feeTx.feePayer = signer) .feePayerNotFirstSigner

def getSelectedAuthenticators (tx : Tx) (msgCount : ℕ) : Outcome Err (List UInt64) :=
  match tx.extensions with
  | none => .error .notExtensionOptionsTx
  | some exts =>
    match Keeper.getAuthenticatorExtension exts with
    | none => .error .noTxOptions
    | some selected =>
      if selected.length ≠ msgCount then .error (.selectedMismatch msgCount selected.length)
      else .ok selected

/-- What the handler reads off a transaction before it authenticates the messages. -/
structure TxFee where
  feePayer : Bytes
  feeGranter : Bytes
  fee : List Coin
  selectedAuthenticators : List UInt64

def readTx (tx : Tx) : Outcome Err TxFee :=
  match tx.msgs with
  | [] => .error .noMessagesInTransaction
  | msg :: _ =>
    match tx.feeTx, msg.signers with
    | none, _ => .error .notFeeTx
    | some _, none => .error .signers
    | some _, some [] => .panicked
    | some feeTx, some (feePayer :: _) => do
      let selected ← getSelectedAuthenticators tx tx.msgs.length
      .ok ⟨feePayer, feeTx.feeGranter, feeTx.fee, selected⟩

/-! ## Messages -/

/-- A call of `Track` that waits until all messages are authenticated. -/
structure Track (ρ : Type) where
  ath : Authenticator ρ
  authenticationRequest : AuthenticationRequest
  account : Bytes
  stringId : Bytes
  msgIndex : ℕ

def Track.run (t : Track ρ) : Proc (Context ρ) Err Unit :=
  .mapError (.track · t.account t.stringId t.ath.type t.msgIndex)
    (t.ath.track t.authenticationRequest).exec

/-- Code in a cache of its own that is never written. -/
def neverWrite {α : Type} : Proc (Context ρ) Err α → Proc (Context ρ) Err α :=
  .zoom id fun ctx ctx' => { ctx' with store := ctx.store }

namespace AuthenticatorDecorator

variable (ad : AuthenticatorDecorator ρ)

/-- One turn of the loop over the messages, up to the call of `Authenticate`. -/
def authenticateMsg (f : TxFee) (tx : Tx) (simulate : Bool) (msgIndex : ℕ) (msg : Msg) :
    Proc (Context ρ) Err (Track ρ) := do
  match msg.signers with
  | none => .fail .signers
  | some [account] =>
    let selectedId ← .ofOutcome (.ofOption f.selectedAuthenticators[msgIndex]?)
    let selected ← .mapError (.getAuthenticator · account selectedId msgIndex msg.typeURL)
      (ad.smartAccountKeeper.getInitializedAuthenticatorForAccount account selectedId)
    let request ← .mapError (.generateRequest · account selected.id msgIndex msg.typeURL)
      (generateAuthenticationRequest ad.accountKeeper ad.getSignBytes
        ⟨account, f.feePayer, f.feeGranter, f.fee, msg, tx, msgIndex, simulate⟩ sequenceMatch)
    -- a nil authenticator is dereferenced here
    let ath ← .ofOutcome (.ofOption selected.authenticator)
    let request := { request with authenticatorId := decimal selected.id }
    consumeGas ath.staticGas
    .mapError (.authentication · msgIndex selected.id ath.type)
      (neverWrite (ath.authenticate request).exec)
    pure ⟨ath, request, account, decimal selected.id, msgIndex⟩
  | some _ => .fail .notOneSigner

end AuthenticatorDecorator

/-! ## The handler -/

/-- The variables of the handler.  The context has the meter of the fee payer until the fee is paid. -/
structure AnteState (ρ : Type) where
  block : MultiStore ρ
  header : Header
  store : MultiStore ρ
  originalGasMeter : GasMeter
  payerGasMeter : GasMeter
  feesPaid : Bool

namespace AnteState

def ctx (s : AnteState ρ) : Context ρ :=
  ⟨s.header, s.store, if s.feesPaid then s.originalGasMeter else s.payerGasMeter⟩

def withCtx (s : AnteState ρ) (ctx : Context ρ) : AnteState ρ :=
  if s.feesPaid then { s with header := ctx.header, store := ctx.store, originalGasMeter := ctx.gasMeter }
  else { s with header := ctx.header, store := ctx.store, payerGasMeter := ctx.gasMeter }

def onCtx {α : Type} : Proc (Context ρ) Err α → Proc (AnteState ρ) Err α := .zoom ctx withCtx

def enter (maximumUnauthenticatedGas : UInt64) (t : TxContext ρ) : AnteState ρ :=
  ⟨t.block, t.ctx.header, t.ctx.store, t.ctx.gasMeter, .new maximumUnauthenticatedGas, false⟩

/-- The caller is left with the original meter. -/
def leave (s : AnteState ρ) : TxContext ρ := ⟨s.block, s.header, s.store, s.originalGasMeter⟩

def onTx {α : Type} : Proc (TxContext ρ) Err α → Proc (AnteState ρ) Err α :=
  .zoom (fun s => ⟨s.block, s.ctx⟩) fun s t => { s.withCtx t.ctx with block := t.block }

end AnteState

open AnteState

/-- The deferred function of the handler. -/
def recoverOutOfGas {α : Type} (limit : UInt64) (p : Proc (AnteState ρ) Err α) :
    Proc (AnteState ρ) Err α := fun s =>
  match p s with
  | (.outOfGas, t) => (.error (.payerOutOfGas limit t.payerGasMeter.consumed), t)
  | r => r

namespace AuthenticatorDecorator

variable (ad : AuthenticatorDecorator ρ)

/-- The fee payer is authenticated: the gas so far goes to the original meter, the fee is deducted, and the cache is
written to the block. -/
def payFee (tx : Tx) (simulate : Bool) : Proc (AnteState ρ) Err Unit := do
  let s ← get
  .zoom originalGasMeter (fun s m => { s with originalGasMeter := m })
    (GasMeter.consumeGas s.payerGasMeter.consumed)
  onCtx (ad.deductFeeDecorator.exec tx simulate)
  modify fun s => { s with block := s.store, feesPaid := true }

/-- One turn of the loop over the messages. -/
def processMsg (f : TxFee) (tx : Tx) (simulate : Bool) (msgIndex : ℕ) (msg : Msg) :
    Proc (AnteState ρ) Err (Track ρ) := do
  let track ← onCtx (ad.authenticateMsg f tx simulate msgIndex msg)
  let s ← get
  if !s.feesPaid && track.account = f.feePayer then ad.payFee tx simulate
  pure track

def processMsgs (tx : Tx) (simulate : Bool) (next : Proc (TxContext ρ) Err Unit) : Proc (AnteState ρ) Err Unit := do
  let f ← .ofOutcome (readTx tx)
  let tracks ← .forEach (ad.processMsg f tx simulate) 0 tx.msgs
  let _ ← onCtx (.forEach (fun _ (t : Track ρ) => t.run) 0 tracks)
  onTx next

/-- `AuthenticatorDecorator.AnteHandle`. -/
def anteHandle (tx : Tx) (simulate : Bool) (next : Proc (TxContext ρ) Err Unit) : Proc (TxContext ρ) Err Unit := do
  .ofOutcome (validateAuthenticatorFeePayer tx)
  let params ← onContext ad.smartAccountKeeper.getParams
  .zoom (enter params.maximumUnauthenticatedGas) (fun _ s => s.leave)
    (recoverOutOfGas params.maximumUnauthenticatedGas (ad.processMsgs tx simulate next))

end AuthenticatorDecorator

/-! Accounts with an authenticator that accepts a signature for the current sequence number, one that accepts
nothing, and one that does not confirm the execution. -/

namespace Sample

def returns (b : Bool) : Code Unit := fun ctx =>
  ⟨if b then .ok () else .error (.external []), ctx.store, ctx.gasMeter.consumed⟩

def authenticator (type : Bytes) (accepts : AuthenticationRequest → Bool) (confirms : Bool) :
    RegisteredAuthenticator Unit where
  initializeConfig := fun _ =>
    .ok (some ⟨type, 10, fun request => returns (accepts request), fun _ => returns true,
      fun _ => returns confirms⟩)
  onAuthenticatorAdded := fun _ _ _ => returns true
  onAuthenticatorRemoved := fun _ _ _ => returns true

/-- The signature is the sequence number. -/
def signed (request : AuthenticationRequest) : Bool :=
  request.signature = decimal request.txData.accountSequence

def keeper : Keeper Unit where
  circuitBreakerGovernor := ascii "gov"
  authenticatorManager := fun type =>
    if type = ascii "accept" then some (authenticator type signed true)
    else if type = ascii "reject" then some (authenticator type (fun _ => false) true)
    else if type = ascii "limit" then some (authenticator type signed false)
    else none
  accString := id
  accAddressFromBech32 := some
  readGas := fun _ _ => 1
  writeGas := fun _ _ => 1

theorem manager_cases {type : Bytes} {registered : RegisteredAuthenticator Unit}
    (h : keeper.authenticatorManager type = some registered) :
    ∃ accepts confirms, (∀ request, accepts request = true → signed request = true) ∧
      registered = authenticator type accepts confirms := by
  simp only [keeper] at h
  split at h
  · exact ⟨signed, true, fun _ => id, (Option.some.inj h).symm⟩
  · split at h
    · exact ⟨fun _ => false, true, by simp, (Option.some.inj h).symm⟩
    · split at h
      · exact ⟨signed, false, fun _ => id, (Option.some.inj h).symm⟩
      · cases h

def decorator : AuthenticatorDecorator Unit where
  smartAccountKeeper := keeper
  accountKeeper := ⟨fun _ _ => 1, fun _ _ => 1⟩
  getSignBytes := fun _ _ => .ok []
  deductFeeDecorator :=
    { anteHandle := fun _ _ ctx => returns (!ctx.gasMeter.isPastLimit) ctx
      metered := by
        intro tx simulate ctx h
        cases hpast : ctx.gasMeter.isPastLimit with
        | false => rfl
        | true => simp [returns, hpast] at h }

def alice : Bytes := ascii "alice"

def bob : Bytes := ascii "bob"

def store : MultiStore Unit where
  smartAccount :=
    (((KVStore.empty.set paramsKey (.params { defaultParams with circuitBreakerControllers := [alice] })).set
      (keeper.keyAccountId alice 1) (.authenticator ⟨1, ascii "accept", []⟩)).set
      (keeper.keyAccountId bob 2) (.authenticator ⟨2, ascii "reject", []⟩)).set
      (keeper.keyAccountId alice 3) (.authenticator ⟨3, ascii "limit", []⟩)
  accounts := (KVStore.empty.set alice ⟨0, 0⟩).set bob ⟨1, 0⟩
  fees := []
  rest := ()

/-- A transaction with one message for each account, which selects an authenticator and asks for something. -/
def txOf (msgs : List (Bytes × UInt64 × Call)) : Tx where
  msgs := msgs.map fun m => ⟨ascii "m", some [], some [m.1], m.2.2⟩
  feeTx := some ⟨(msgs.map Prod.fst).headD [], [], [], 1000⟩
  extensions := some [some (msgs.map fun m => m.2.1)]
  sigTx := some ⟨some (msgs.map Prod.fst), some (msgs.map fun _ => ⟨some (decimal 0), 0⟩)⟩
  timeoutHeight := some 0
  memo := some []

def header : Header := ⟨1, ascii "terp", false⟩

def entry : TxContext Unit := ⟨store, header, store, .new 1000⟩

end Sample

end SmartAccount
