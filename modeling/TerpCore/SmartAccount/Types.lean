/-
  The data of the smart accounts: transactions, what the module stores, and the requests that authenticators
  are given.
-/
import TerpCore.Lib.Coins
import TerpCore.Lib.KVStore
import TerpCore.Lib.Proc
import TerpCore.SmartAccount.Pattern

namespace SmartAccount

open Lib

/-! ## Transactions -/

/-- What a message asks for: one of the module's own messages, or another one. -/
inductive Call where
  | addAuthenticator (sender authenticatorType data : Bytes)
  | removeAuthenticator (sender : Bytes) (id : UInt64)
  | setActiveState (sender : Bytes) (active : Bool)
  | other
  deriving DecidableEq

structure Msg where
  typeURL : Bytes
  /-- the encoding of the message; `none` is an error -/
  value : Option Bytes
  /-- `GetMsgV1Signers`; `none` is an error -/
  signers : Option (List Bytes)
  call : Call
  deriving DecidableEq

structure FeeTx where
  feePayer : Bytes
  feeGranter : Bytes
  fee : List Coin
  gas : UInt64
  deriving DecidableEq

structure SignatureV2 where
  /-- the signature of a `SingleSignatureData`; `none` is other data -/
  single : Option Bytes
  sequence : UInt64
  deriving DecidableEq

structure SigTx where
  /-- `GetSigners`; `none` is an error -/
  signers : Option (List Bytes)
  /-- `GetSignaturesV2`; `none` is an error -/
  signatures : Option (List SignatureV2)
  deriving DecidableEq

/-- A transaction, with a part for each interface that the module asks of it. -/
structure Tx where
  msgs : List Msg
  feeTx : Option FeeTx
  /-- the non-critical extension options, each with the authenticators it selects if it can be unpacked -/
  extensions : Option (List (Option (List UInt64)))
  sigTx : Option SigTx
  timeoutHeight : Option UInt64
  memo : Option Bytes
  deriving DecidableEq

/-! ## Stores -/

structure Params where
  maximumUnauthenticatedGas : UInt64
  isSmartAccountActive : Bool
  circuitBreakerControllers : List Bytes
  deriving DecidableEq

def defaultParams : Params := ⟨120000, true, []⟩

structure AccountAuthenticator where
  id : UInt64
  type : Bytes
  config : Bytes
  deriving DecidableEq

/-- A row of the module's store. -/
inductive Row where
  | params (params : Params)
  | nextId (id : UInt64)
  | authenticator (data : AccountAuthenticator)
  deriving DecidableEq

structure Account where
  number : UInt64
  sequence : UInt64
  deriving DecidableEq

/-- The stores of the application.  `fees` is not in the code: it records the transactions that paid, and is rolled
back with the rest. -/
structure MultiStore (ρ : Type) where
  smartAccount : KVStore Row
  accounts : KVStore Account
  fees : List Tx
  rest : ρ

structure Header where
  blockHeight : Int64
  chainID : Bytes
  isCheckTx : Bool
  deriving DecidableEq

structure Context (ρ : Type) where
  header : Header
  store : MultiStore ρ
  gasMeter : GasMeter

/-! ## Requests -/

structure SignModeData where
  direct : Bytes
  textual : Bytes
  deriving DecidableEq

structure LocalAny where
  typeURL : Bytes
  value : Bytes
  deriving DecidableEq

structure SimplifiedSignatureData where
  signers : List Bytes
  signatures : List Bytes
  deriving DecidableEq

structure ExplicitTxData where
  chainID : Bytes
  accountNumber : UInt64
  accountSequence : UInt64
  timeoutHeight : UInt64
  msgs : List LocalAny
  memo : Bytes
  deriving DecidableEq

structure AuthenticationRequest where
  authenticatorId : Bytes
  account : Bytes
  feePayer : Bytes
  feeGranter : Bytes
  fee : List Coin
  msg : LocalAny
  msgIndex : UInt64
  signature : Bytes
  signModeTxData : SignModeData
  txData : ExplicitTxData
  signatureData : SimplifiedSignatureData
  simulate : Bool
  authenticatorParams : Bytes
  deriving DecidableEq

/-! ## Errors -/

inductive CompositeKind where
  | allOf
  | anyOf
  deriving DecidableEq

inductive SudoKind where
  | onAuthenticatorAdded
  | onAuthenticatorRemoved
  | authenticate
  | track
  | confirmExecution
  deriving DecidableEq

inductive LeafErr where
  /-- an error of `encoding/json` -/
  | json
  | pubKeySize (expected got : ℕ)
  | pubKeyNotSet
  | signatureVerification (accountNumber accountSequence : UInt64) (chainID : Bytes)
  | invalidPattern
  | numbersInPattern
  | resolveMsg
  | unmarshalMsg
  | marshalMsg
  | patternJSON (first : Bool)
  | mismatch (e : Mismatch)
  | noMatch (cause : LeafErr)
  | parseInitData (cause : LeafErr)
  | missingContract
  | invalidContract
  | paramsNotJSON
  | marshalSudo (kind : SudoKind)
  | zkEmptyConfig
  | zkParseConfig
  | zkIdRequired
  | zkEmptyPayload
  | zkParsePayload
  | zkProofRequired
  | zkInstancesRequired
  | zkProofTooLong (length maxProofBytes : UInt64)
  | zkNotWired (zkID : UInt64) (piLayout : Bytes) (requirePin : Bool)
  | zkVerifyFailed
  deriving DecidableEq

def LeafErr.message : LeafErr → String
  | json => ""
  | pubKeySize .. => "invalid secp256k1 public key size, expected %d, got %d. pubkey: %d"
  | pubKeyNotSet => "pubkey on not set on account or authenticator"
  | signatureVerification .. =>
    "signature verification failed; please verify account number (%d), sequence (%d) and chain-id (%s)"
  | invalidPattern => "invalid json representation of message"
  | numbersInPattern => "invalid json representation of message. Numbers should be encoded as strings"
  | resolveMsg => "failed to resolve message type"
  | unmarshalMsg => "failed to unmarshal message"
  | marshalMsg => "failed to marshal message to JSON"
  | patternJSON true => "error unmarshaling first JSON: %v"
  | patternJSON false => "error unmarshaling second JSON: %v"
  | mismatch e => e.message
  | noMatch _ => "message does not match pattern"
  | parseInitData _ => "failed to parse initialization data"
  | missingContract => "missing contract address"
  | invalidContract => "invalid contract address"
  | paramsNotJSON => "params must be valid json bytes"
  | marshalSudo .onAuthenticatorAdded => "failed to marshall OnAuthenticatorAddedRequest"
  | marshalSudo .onAuthenticatorRemoved => "failed to marshall OnAuthenticatorRemovedRequest"
  | marshalSudo .authenticate => "failed to marshall AuthenticationRequest"
  | marshalSudo .track => "failed to marshall TrackRequest"
  | marshalSudo .confirmExecution => "failed to marshall ConfirmExecutionRequest"
  | zkEmptyConfig => "ZkProofAuthenticatorV1: empty config"
  | zkParseConfig => "ZkProofAuthenticatorV1: parse config"
  | zkIdRequired => "ZkProofAuthenticatorV1: zk_id required"
  | zkEmptyPayload => "ZkProofAuthenticatorV1: empty auth payload"
  | zkParsePayload => "ZkProofAuthenticatorV1: parse auth payload"
  | zkProofRequired => "ZkProofAuthenticatorV1: proof required"
  | zkInstancesRequired => "ZkProofAuthenticatorV1: instances required"
  | zkProofTooLong .. => "ZkProofAuthenticatorV1: proof len %d > max %d"
  | zkNotWired .. =>
    "ZkProofAuthenticatorV1 Path A not wired (zk_id=%d layout=%q require_pin=%v): fail-closed — inject GlobalPathAVerifier or CosmWasm Path A contract; see docs/research/ZKPROOF-AUTHENTICATOR-AND-DUAL-FFI.md"
  | zkVerifyFailed => "ZkProofAuthenticatorV1 verify failed: %v"

inductive Err where
  | notFeeTx
  | noMessage
  | noMessagesInTransaction
  | signers
  | noSigner
  | feePayerNotFirstSigner
  | notOneSigner
  | notExtensionOptionsTx
  | noTxOptions
  | selectedMismatch (msgCount selected : ℕ)
  | authenticatorNotFound (id : UInt64) (account : Bytes)
  | unmarshalAuthenticator
  | notRegisteredInManager (id : UInt64) (type : Bytes)
  | failedToInitialize (cause : Err) (id : UInt64) (type : Bytes)
  | typeNotRegistered (type : Bytes)
  | onAdded (cause : Err) (type : Bytes)
  | onRemoved (cause : Err) (type : Bytes)
  | doesNotExist (id : UInt64) (account : Bytes)
  | notActive
  | invalidSender
  | notGovernor
  | notController
  | invalidSigner
  | invalidTxType
  | signerCount (expected got : ℕ)
  | getSignersAndSignatures (cause : Err)
  | notTimeoutHeightTx
  | notMemoTx
  | encodeMsg
  | getTxData (cause : Err)
  | notSingleSignature
  | sequenceMismatch (expected got : UInt64)
  | getSignatures (cause : Err)
  | getSignBytes (cause : Err)
  | getAuthenticator (cause : Err) (account : Bytes) (id : UInt64) (msgIndex : ℕ) (typeURL : Bytes)
  | generateRequest (cause : Err) (account : Bytes) (id : UInt64) (msgIndex : ℕ) (typeURL : Bytes)
  | authentication (cause : Err) (msgIndex : ℕ) (id : UInt64) (type : Bytes)
  | track (cause : Err) (account : Bytes) (id : Bytes) (type : Bytes) (msgIndex : ℕ)
  | blocked (cause : Err) (account : Bytes) (id : UInt64) (msgIndex : ℕ) (typeURL : Bytes)
  | payerOutOfGas (limit consumed : UInt64)
  | noSubAuthenticators
  | parseSignatures
  | numberOfSignatures
  | allFailedToAuthenticate (errors : List (Bytes × Bytes × String))
  | allFailedToConfirm (errors : List (Bytes × Bytes × String))
  | subTrack (cause : Err) (id : Bytes)
  | parseInitData
  | tooFewSubAuthenticators (kind : CompositeKind)
  | initializeSub (cause : Err) (type : Bytes)
  | unmarshalInitData
  | tooFewProvided (provided : ℕ)
  | subNotRegistered (added : Bool)
  | subAdded (cause : Err) (id : Bytes)
  | subRemoved (cause : Err) (id : Bytes)
  | leaf (e : LeafErr)
  /-- an error of code outside the module -/
  | external (code : Bytes)
  deriving DecidableEq

/-- The message of an error, with the verbs of its values; a wrapped error goes on with its cause. -/
def Err.message : Err → String
  | notFeeTx => "Tx must be a FeeTx"
  | noMessage => "Tx must contain at least one message"
  | noMessagesInTransaction => "no messages in transaction"
  | signers => "failed to get signers"
  | noSigner => "Tx message must contain at least one signer"
  | feePayerNotFirstSigner =>
    "fee payer must be the first signer, or signer must have an active feegrant allowance from feepayer"
  | notOneSigner => "messages must have exactly one signer"
  | notExtensionOptionsTx => "Tx must be a HasExtensionOptionsTx to use Authenticators"
  | noTxOptions => "Cannot get AuthenticatorTxOptions from tx"
  | selectedMismatch .. =>
    "Mismatch between the number of selected authenticators and messages, msg count %d, got %d selected authenticators"
  | authenticatorNotFound .. => "authenticator %d not found for account %s"
  | unmarshalAuthenticator => "failed to unmarshal account authenticator"
  | notRegisteredInManager .. =>
    "authenticator id %d failed to initialize, authenticator type %s not registered in manager"
  | failedToInitialize .. => "authenticator %d with type %s failed to initialize"
  | typeNotRegistered .. => "authenticator type %s is not registered"
  | onAdded .. => "`OnAuthenticatorAdded` failed on authenticator type %s"
  | onRemoved .. => "`OnAuthenticatorRemoved` failed on authenticator type %s"
  | doesNotExist .. => "authenticator with id %d does not exist for account %s"
  | notActive => "smartaccount module is not active"
  | invalidSender => "invalid sender address"
  | notGovernor => "signer is not the circuit breaker governor"
  | notController => "signer is not a circuit breaker controller"
  | invalidSigner => "invalid signer"
  | invalidTxType => "invalid transaction type"
  | signerCount .. => "invalid number of signer;  expected: %d, got %d"
  | getSignersAndSignatures _ => "failed to get signers and signatures"
  | notTimeoutHeightTx => "failed to cast tx to TxWithTimeoutHeight"
  | notMemoTx => "failed to cast tx to TxWithMemo"
  | encodeMsg => "failed to encode msg"
  | getTxData _ => "failed to get explicit tx data"
  | notSingleSignature => "failed to cast signature to SingleSignatureData"
  | sequenceMismatch .. => "account sequence mismatch, expected %d, got %d"
  | getSignatures _ => "failed to get signatures"
  | getSignBytes _ => "failed to get signBytes"
  | getAuthenticator .. =>
    "failed to get initialized authenticator (account = %s, authenticator id = %d, msg index = %d, msg type url = %s)"
  | generateRequest .. =>
    "failed to generate authentication data (account = %s, authenticator id = %d, msg index = %d, msg type url = %s)"
  | authentication .. => "authentication failed for message %d, authenticator id %d, type %s"
  | track .. =>
    "track failed (account = %s, authenticator id = %s, authenticator type, %s, msg index = %d)"
  | blocked .. =>
    "execution blocked by authenticator (account = %s, authenticator id = %d, msg index = %d, msg type url = %s)"
  | payerOutOfGas .. =>
    "FeePayer must be authenticated first because gas consumption has exceeded the free gas limit for authentication process. The gas limit has been reduced to %d. Gas consumed: %d"
  | noSubAuthenticators => "no sub-authenticators provided"
  | parseSignatures => "failed to parse signatures"
  | numberOfSignatures => "invalid number of signatures"
  | allFailedToAuthenticate _ => "all sub-authenticators failed to authenticate: %s"
  | allFailedToConfirm _ => "all sub-authenticators failed to confirm execution: %s"
  | subTrack .. => "sub-authenticator track failed (sub-authenticator id = %s)"
  | parseInitData => "failed to parse sub-authenticators initialization data"
  | tooFewSubAuthenticators .allOf => "allOf must have at least 2 sub-authenticators"
  | tooFewSubAuthenticators .anyOf => "anyOf must have at least 2 sub-authenticators"
  | initializeSub .. => "failed to initialize sub-authenticator (type = %s)"
  | unmarshalInitData => "failed to unmarshal sub-authenticator init data"
  | tooFewProvided _ => "at least 2 sub-authenticators must be provided, but got %d"
  | subNotRegistered true =>
    "sub-authenticator failed to be added in function `OnAuthenticatorAdded` as type is not registered in manager"
  | subNotRegistered false =>
    "sub-authenticator failed to be removed in function `OnAuthenticatorRemoved` as type is not registered in manager"
  | subAdded .. => "sub-authenticator `OnAuthenticatorAdded` failed (sub-authenticator id = %s)"
  | subRemoved .. => "sub-authenticator `OnAuthenticatorRemoved` failed (sub-authenticator id = %s)"
  | leaf e => e.message
  | external _ => ""

/-! ## Authenticators -/

/-- What code outside the module did: how it ended, the stores it left and the gas it consumed. -/
structure Effect (ρ : Type) where
  exit : Exit Err Unit
  store : MultiStore ρ
  gasConsumed : UInt64

/-- Code outside the module.  It may write all stores, but not the record of fees; it consumes gas, but does not
change the limit. -/
abbrev Code (ρ : Type) := Context ρ → Effect ρ

def Code.exec {ρ : Type} (code : Code ρ) : Proc (Context ρ) Err Unit := fun ctx =>
  ((code ctx).exit,
    { ctx with
      store := { (code ctx).store with fees := ctx.store.fees }
      gasMeter := { ctx.gasMeter with consumed := (code ctx).gasConsumed } })

/-- An `Authenticator` that has been initialized. -/
structure Authenticator (ρ : Type) where
  type : Bytes
  staticGas : UInt64
  authenticate : AuthenticationRequest → Code ρ
  track : AuthenticationRequest → Code ρ
  confirmExecution : AuthenticationRequest → Code ρ

/-- An `Authenticator` as it is registered.  `Initialize` may return nil. -/
structure RegisteredAuthenticator (ρ : Type) where
  initializeConfig : Bytes → Outcome Err (Option (Authenticator ρ))
  onAuthenticatorAdded : (account config authenticatorId : Bytes) → Code ρ
  onAuthenticatorRemoved : (account config authenticatorId : Bytes) → Code ρ

structure InitializedAuthenticator (ρ : Type) where
  id : UInt64
  authenticator : Option (Authenticator ρ)

end SmartAccount
