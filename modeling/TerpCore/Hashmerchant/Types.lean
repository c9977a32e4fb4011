/-
  The data of the hashmerchant module: messages, records, parameters, store keys and errors.

  Strings and byte slices are `Bytes`, and a pointer that may be nil is an `Option`.
-/
import TerpCore.Lib.Coins
import TerpCore.Lib.KVStore
import TerpCore.Lib.Outcome

namespace Hashmerchant

open Lib Outcome

/-! ## Records -/

/-- Enumerations are numbers, and a message may hold any. -/
abbrev OracleSourceKind := Int32

/-- The key that an oracle source signs with. -/
structure CustodyAuthenticator where
  pubkey : Bytes
  algorithm : Bytes
  scope : Bytes
  deriving DecidableEq

/-- An oracle of a chain. -/
structure OracleSource where
  sourceId : Bytes
  kind : OracleSourceKind
  endpoint : Bytes
  merklePrefix : List Bytes
  authenticator : Option CustodyAuthenticator
  enabled : Bool
  deriving DecidableEq

/-- A value that an oracle attests. -/
structure OracleAttestation where
  sourceId : Bytes
  value : Bytes
  height : UInt64
  timestamp : Int64
  custodySignature : Bytes
  ics23Proof : Bytes
  deriving DecidableEq

/-- A foreign chain. -/
structure RegisteredChain where
  chainUid : Bytes
  name : Bytes
  rpcEndpoints : List Bytes
  hashAlgos : List Bytes
  enabled : Bool
  oracleSources : List (Option OracleSource)
  deriving DecidableEq

/-- A contract that is told of the roots of a chain. -/
structure RegisteredContract where
  contractAddr : Bytes
  chainUid : Bytes
  substoreKeys : List Bytes
  enabled : Bool
  deriving DecidableEq

/-- The deposit of a contract and the height until which it lasts. -/
structure EscrowRecord where
  contractAddr : Bytes
  amount : Coin
  paidUntilHeight : UInt64
  lastPruneHeight : UInt64
  deriving DecidableEq

/-- The last confirmed root of a chain. -/
structure HashRoot where
  chainUid : Bytes
  algo : Bytes
  height : UInt64
  root : Bytes
  attestationCount : UInt32
  blockTime : Int64
  attestations : List OracleAttestation
  deriving DecidableEq

/-- What a validator says of a chain in its vote extension. -/
structure VoteExtensionHashData where
  runtimeId : Bytes
  chainUid : Bytes
  algo : Bytes
  root : Bytes
  foreignHeight : UInt64
  foreignBlockTime : Int64
  ics23Proof : Bytes
  attestations : List (Option OracleAttestation)
  deriving DecidableEq

/-- One vote of the commit, as `abci.ExtendedVoteInfo` has it. -/
structure ExtendedVoteInfo where
  address : Bytes
  power : Int64
  voteExtension : Bytes
  deriving DecidableEq

/-- The votes of the last commit. -/
structure ExtendedCommitInfo where
  votes : List ExtendedVoteInfo
  deriving DecidableEq

/-! ## Errors -/

/-- The errors of the module. -/
inductive Err where
  | chainNotFound (chainUid : Bytes)
  | chainAlreadyExists (chainUid : Bytes)
  | chainDisabled (chainUid : Bytes)
  | contractNotFound (contractAddr : Bytes)
  | escrowNotFound (contractAddr : Bytes)
  | hashRootNotFound (chainUid algo : Bytes)
  | escrowDenom (expected got : Bytes)
  | escrowBelowMinimum (minimum got : ℤ)
  | invalidSigner (expected got : Bytes)
  | invalidSender
  | invalidAuthority
  | contractAddrEmpty
  | chainUidEmpty
  | escrowNotPositive
  | amountNotPositive
  | quorumFractionOutOfRange (fraction : LegacyDec)
  | pruneIntervalZero
  | escrowDenomEmpty
  | minEscrowAmountNegative
  | genesisChainUidEmpty
  | genesisChainTwice (chainUid : Bytes)
  | decode (what : String)
  | unregisteredSource (sourceId : Bytes)
  | missingAuthenticator (sourceId : Bytes)
  | unsupportedAlgorithm (algorithm sourceId : Bytes)
  | invalidPubkeyLength (sourceId : Bytes)
  | custodySignatureFailed (sourceId : Bytes)
  /-- whatever the bank keeper answers -/
  | bank
  deriving DecidableEq

/-- The text of an error, as a format; a wrapped error ends with the text of its class. -/
def Err.format : Err → String
  | chainNotFound _ => "chain_uid: %s: registered chain not found"
  | chainAlreadyExists _ => "chain_uid: %s: chain UID already registered"
  | chainDisabled _ => "chain_uid: %s: chain is disabled"
  | contractNotFound _ => "contract: %s: registered contract not found"
  | escrowNotFound _ => "contract: %s: escrow record not found"
  | hashRootNotFound _ _ => "chain=%s algo=%s: hash root not found"
  | escrowDenom _ _ => "expected denom %s, got %s: escrow amount below minimum"
  | escrowBelowMinimum _ _ => "minimum %s, got %s: escrow amount below minimum"
  | invalidSigner _ _ =>
    "unauthorised: expected %s, got %s: expected gov account as only signer for proposal message"
  | invalidSender => "invalid sender: %s: unauthorized"
  | invalidAuthority => "invalid authority: %s: unauthorized"
  | contractAddrEmpty => "contract_addr must not be empty: registered contract not found"
  | chainUidEmpty => "chain_uid must not be empty: invalid chain UID"
  | escrowNotPositive => "escrow must be positive: escrow amount below minimum"
  | amountNotPositive => "amount must be positive: escrow amount below minimum"
  | quorumFractionOutOfRange _ =>
    "quorum_fraction must be in [0, 1], got %s: invalid module parameters"
  | pruneIntervalZero => "prune_interval must be > 0: invalid module parameters"
  | escrowDenomEmpty => "escrow_denom must not be empty: invalid module parameters"
  | minEscrowAmountNegative => "min_escrow_amount must be >= 0: invalid module parameters"
  | genesisChainUidEmpty => "genesis chain has empty chain_uid: invalid chain UID"
  | genesisChainTwice _ => "duplicate chain_uid %s in genesis: chain UID already registered"
  | decode what => what
  | unregisteredSource _ => "unregistered oracle source %q"
  | missingAuthenticator _ => "source %q missing custody authenticator"
  | unsupportedAlgorithm _ _ => "unsupported custody algorithm %q for source %q"
  | invalidPubkeyLength _ => "invalid custody pubkey length for source %q"
  | custodySignatureFailed _ => "custody signature verification failed for source %q"
  | bank => "%s"

/-! ## Parameters -/

/-- An enumeration of protobuf, which may have any value. -/
abbrev MarketMode := Int32

def marketModeOpen : MarketMode := 1

/-- The parameters of the module. -/
structure Params where
  quorumFraction : LegacyDec
  pruneInterval : UInt64
  escrowDenom : Bytes
  minEscrowAmount : ℤ
  marketMode : MarketMode
  contractGasLimit : UInt64
  deriving DecidableEq

/-- 32 MiB of instance memory at three gas per byte. -/
def defaultContractGasLimit : UInt64 := ((32 : UInt64) <<< 20) * 3

def defaultParams : Params where
  quorumFraction := ⟨667 * 10 ^ 15⟩
  pruneInterval := 1000
  escrowDenom := ascii "uterp"
  minEscrowAmount := 1000000
  marketMode := marketModeOpen
  contractGasLimit := defaultContractGasLimit

/-- Zero, which older parameters have, stands for the default. -/
def Params.sudoGasLimit (p : Params) : UInt64 :=
  if p.contractGasLimit = 0 then defaultContractGasLimit else p.contractGasLimit

/-- `Validate` of the parameters. -/
def Params.validate (p : Params) : Outcome Err Unit := do
  require (0 ≤ p.quorumFraction.num && p.quorumFraction.num ≤ LegacyDec.unit)
    (.quorumFractionOutOfRange p.quorumFraction)
  require (p.pruneInterval != 0) .pruneIntervalZero
  require (p.escrowDenom != []) .escrowDenomEmpty
  require (0 ≤ p.minEscrowAmount) .minEscrowAmountNegative

/-! ## Store -/

/-- What a row of the module's store holds.  Rows that two kinds of data may share stay raw. -/
inductive Value where
  | params (p : Params)
  | chain (c : RegisteredChain)
  | contract (c : RegisteredContract)
  | escrow (r : EscrowRecord)
  | hashRoot (r : HashRoot)
  | raw (b : Bytes)
  deriving DecidableEq

/-- The store of x/hashmerchant. -/
abbrev Store := KVStore Value

def keyPrefixRegisteredChains : Bytes := [0x01]
def keyPrefixRegisteredContracts : Bytes := [0x02]
def keyPrefixEscrow : Bytes := [0x03]
def keyPrefixHashRoots : Bytes := [0x04]
def keyPrefixParams : Bytes := [0x05]
def keyPrefixPruneEpoch : Bytes := [0x06]
def oracleSourcesKeyPrefix : Bytes := [0x06]

def keyRegisteredChain (chainUID : Bytes) : Bytes := keyPrefixRegisteredChains ++ chainUID
def keyRegisteredContract (contractAddr : Bytes) : Bytes :=
  keyPrefixRegisteredContracts ++ contractAddr
def keyEscrow (contractAddr : Bytes) : Bytes := keyPrefixEscrow ++ contractAddr
def keyHashRoot (chainUID algo : Bytes) : Bytes :=
  keyPrefixHashRoots ++ chainUID ++ ascii "|" ++ algo
def oracleSourcesKey (chainUID : Bytes) : Bytes := oracleSourcesKeyPrefix ++ chainUID

end Hashmerchant
