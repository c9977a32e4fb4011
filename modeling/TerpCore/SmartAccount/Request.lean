/-
  The request that is made from a transaction for the authenticator of one of its messages.
-/
import TerpCore.SmartAccount.Keeper

namespace SmartAccount

open Lib Proc

variable {ρ : Type}

abbrev ReplayProtection := ExplicitTxData → SignatureV2 → Outcome Err Unit

def sequenceMatch : ReplayProtection := fun txData signature =>
  .require (signature.sequence = txData.accountSequence)
    (.sequenceMismatch txData.accountSequence signature.sequence)

def noReplayProtection : ReplayProtection := fun _ _ => .ok ()

def getSignerAndSignatures (tx : Tx) : Outcome Err (List Bytes × List SignatureV2) :=
  match tx.sigTx with
  | none => .error .invalidTxType
  | some sigTx =>
    match sigTx.signatures, sigTx.signers with
    | none, _ => .error (.external (ascii "GetSignaturesV2"))
    | some _, none => .error (.external (ascii "GetSigners"))
    | some signatures, some signers =>
      if signatures.length ≠ signers.length then .error (.signerCount signers.length signatures.length)
      else .ok (signers, signatures)

structure SignerData where
  chainID : Bytes
  accountNumber : UInt64
  sequence : UInt64
  deriving DecidableEq

/-- Without an account the sequence is 0, and after the genesis block its number is a nil dereference. -/
def getSignerData (ak : AccountKeeper) (account : Bytes) : Proc (Context ρ) Err SignerData := do
  let baseAccount ← ak.getAccount account
  let ctx ← get
  match baseAccount with
  | some acc =>
    pure ⟨ctx.header.chainID, if ctx.header.blockHeight = 0 then 0 else acc.number, acc.sequence⟩
  | none =>
    if ctx.header.blockHeight = 0 then pure ⟨ctx.header.chainID, 0, 0⟩ else .ofOutcome .panicked

def encodeMsgs : List Msg → Outcome Err (List LocalAny)
  | [] => .ok []
  | msg :: msgs =>
    match msg.value with
    | none => .error .encodeMsg
    | some value => do
      let rest ← encodeMsgs msgs
      .ok (⟨msg.typeURL, value⟩ :: rest)

def extractExplicitTxData (tx : Tx) (signerData : SignerData) : Outcome Err ExplicitTxData :=
  match tx.timeoutHeight, tx.memo with
  | none, _ => .error .notTimeoutHeightTx
  | some _, none => .error .notMemoTx
  | some timeoutHeight, some memo => do
    let msgs ← encodeMsgs tx.msgs
    .ok ⟨signerData.chainID, signerData.accountNumber, signerData.sequence, timeoutHeight, msgs, memo⟩

/-- The loop of `extractSignatures`: the signatures so far, and that of the account. -/
def extractSignatures (txData : ExplicitTxData) (account : Bytes) (replayProtection : ReplayProtection) :
    List (Bytes × SignatureV2) → List Bytes → Bytes → Outcome Err (List Bytes × Bytes)
  | [], signatures, msgSignature => .ok (signatures, msgSignature)
  | (signer, signature) :: rest, signatures, msgSignature =>
    match signature.single with
    | none => .error .notSingleSignature
    | some single =>
      if signer = account then do
        replayProtection txData signature
        extractSignatures txData account replayProtection rest (signatures ++ [single]) single
      else extractSignatures txData account replayProtection rest (signatures ++ [single]) msgSignature

/-- `GetSignBytesAdapter` in the direct mode. -/
abbrev SignBytes := SignerData → Tx → Outcome Err Bytes

/-- The transaction and the message that a request is made for. -/
structure RequestArgs where
  account : Bytes
  feePayer : Bytes
  feeGranter : Bytes
  fee : List Coin
  msg : Msg
  tx : Tx
  msgIndex : ℕ
  simulate : Bool

def generateAuthenticationRequest (ak : AccountKeeper) (getSignBytes : SignBytes) (args : RequestArgs)
    (replayProtection : ReplayProtection) : Proc (Context ρ) Err AuthenticationRequest := do
  match args.msg.signers with
  | none => .fail (.external (ascii "GetMsgV1Signers"))
  | some [] => .ofOutcome .panicked
  | some (signer :: _) =>
    require (signer = args.account) .invalidSigner
    let txSigs ← .mapError .getSignersAndSignatures (.ofOutcome (getSignerAndSignatures args.tx))
    let signerData ← getSignerData ak args.account
    let txData ← .mapError .getTxData (.ofOutcome (extractExplicitTxData args.tx signerData))
    let sigs ← .mapError .getSignatures
      (.ofOutcome (extractSignatures txData args.account replayProtection (txSigs.1.zip txSigs.2) [] []))
    let msg ← .ofOutcome (.ofOption txData.msgs[args.msgIndex]?)
    let ctx ← get
    let authRequest : AuthenticationRequest :=
      { authenticatorId := []
        account := args.account
        feePayer := args.feePayer
        feeGranter := args.feeGranter
        fee := args.fee
        msg := msg
        msgIndex := UInt64.ofNat args.msgIndex
        signature := sigs.2
        signModeTxData := ⟨ascii "signBytes", []⟩
        txData := txData
        signatureData := ⟨txSigs.1, sigs.1⟩
        simulate := args.simulate
        authenticatorParams := [] }
    -- no sign bytes for the simulation of a check
    if args.simulate && ctx.header.isCheckTx then pure authRequest
    else
      let signBytes ← .mapError .getSignBytes (.ofOutcome (getSignBytes signerData args.tx))
      pure { authRequest with signModeTxData := ⟨signBytes, []⟩ }

end SmartAccount
