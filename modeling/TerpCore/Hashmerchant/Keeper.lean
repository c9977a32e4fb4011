/-
  The keeper: what it is built from, and its access to the store.

  Code that does not belong to the module is a field of `Keeper`; the theorems hold for every choice of these
  fields, except where a hypothesis says what is expected of one.
-/
import TerpCore.Hashmerchant.Types
import TerpCore.Lib.SliceSort

namespace Hashmerchant

open Lib

/-! ## The keeper -/

/-- An attestation as a contract is told of it. -/
structure HashMerchantSudoOracleAttestation where
  sourceID : Bytes
  value : Bytes
  height : UInt64
  deriving DecidableEq

/-- The payload of the sudo message sent to contracts. -/
structure HashMerchantSudoPayload where
  chainUID : Bytes
  algo : Bytes
  height : UInt64
  root : Bytes
  attestationCount : UInt32
  blockTime : Int64
  oracleSources : List HashMerchantSudoOracleAttestation
  deriving DecidableEq

/-- The state a block works on: the module's store, and the state `β` of the other modules. -/
structure State (β : Type) where
  store : Store
  app : β

/-- How a call of a contract ends. -/
inductive SudoResult (β : Type) where
  | ok (s : State β)
  | error
  | outOfGas
  | panicked

/-- The keeper: the codecs, the bank, the signature check and the contracts it calls. -/
structure Keeper (β : Type) where
  authority : Bytes
  /-- `k.cdc.Unmarshal` of a vote extension -/
  unmarshalVoteExtension : Bytes → Option VoteExtensionHashData
  /-- `ExtendedCommitInfo.Unmarshal` -/
  unmarshalCommit : Bytes → Option ExtendedCommitInfo
  /-- `json.Unmarshal` of an oracle bundle -/
  unmarshalBundle : Bytes → Option (List OracleAttestation)
  /-- `json.Marshal` and `json.Unmarshal` of a list of sources -/
  marshalSources : List OracleSource → Bytes
  unmarshalSources : Bytes → Option (List OracleSource)
  sha256 : Bytes → Bytes
  ed25519Verify : (pubkey message signature : Bytes) → Bool
  sliceSort : SliceSort
  accAddressFromBech32 : Bytes → Option Bytes
  /-- `wasmKeeper.Sudo` with a gas limit -/
  wasmSudo : State β → (contract : Bytes) → HashMerchantSudoPayload → (gasLimit : UInt64) → SudoResult β
  /-- `bankKeeper.SendCoinsFromAccountToModule` to the module account; `none` is an error -/
  sendCoinsFromAccountToModule : β → (sender : Bytes) → List Coin → Option β

/-! ## Store access

  A row of the wrong kind does not occur under a key of its own; reading one is a decoding error. -/

/-- `GetParams`; without a record these are the defaults. -/
def getParams (s : Store) : Outcome Err Params :=
  match s.get keyPrefixParams with
  | none => .ok defaultParams
  | some (.params p) => .ok p
  | some _ => .error (.decode "params")

def setParams (s : Store) (p : Params) : Store := s.set keyPrefixParams (.params p)

def setRegisteredChain (s : Store) (c : RegisteredChain) : Store :=
  s.set (keyRegisteredChain c.chainUid) (.chain c)

def getRegisteredChain (s : Store) (chainUID : Bytes) : Outcome Err RegisteredChain :=
  match s.get (keyRegisteredChain chainUID) with
  | none => .error (.chainNotFound chainUID)
  | some (.chain c) => .ok c
  | some _ => .error (.decode "registered chain")

def hasRegisteredChain (s : Store) (chainUID : Bytes) : Bool := s.has (keyRegisteredChain chainUID)

def setRegisteredContract (s : Store) (c : RegisteredContract) : Store :=
  s.set (keyRegisteredContract c.contractAddr) (.contract c)

def getRegisteredContract (s : Store) (contractAddr : Bytes) : Outcome Err RegisteredContract :=
  match s.get (keyRegisteredContract contractAddr) with
  | none => .error (.contractNotFound contractAddr)
  | some (.contract c) => .ok c
  | some _ => .error (.decode "registered contract")

/-- The contracts `IterateRegisteredContracts` visits. -/
def registeredContracts (s : Store) : List RegisteredContract :=
  (s.iterator keyPrefixRegisteredContracts).filterMap fun
    | (_, .contract c) => some c
    | _ => none

def setEscrowRecord (s : Store) (r : EscrowRecord) : Store :=
  s.set (keyEscrow r.contractAddr) (.escrow r)

def getEscrowRecord (s : Store) (contractAddr : Bytes) : Outcome Err EscrowRecord :=
  match s.get (keyEscrow contractAddr) with
  | none => .error (.escrowNotFound contractAddr)
  | some (.escrow r) => .ok r
  | some _ => .error (.decode "escrow record")

/-- The records `IterateEscrowRecords` visits. -/
def escrowRecords (s : Store) : List EscrowRecord :=
  (s.iterator keyPrefixEscrow).filterMap fun
    | (_, .escrow r) => some r
    | _ => none

def setHashRoot (s : Store) (r : HashRoot) : Store :=
  s.set (keyHashRoot r.chainUid r.algo) (.hashRoot r)

def getHashRoot (s : Store) (chainUID algo : Bytes) : Outcome Err HashRoot :=
  match s.get (keyHashRoot chainUID algo) with
  | none => .error (.hashRootNotFound chainUID algo)
  | some (.hashRoot r) => .ok r
  | some _ => .error (.decode "hash root")

/-- The roots `IterateHashRoots` visits. -/
def hashRoots (s : Store) (chainUID : Bytes) : List HashRoot :=
  (s.iterator (keyPrefixHashRoots ++ (chainUID ++ ascii "|"))).filterMap fun
    | (_, .hashRoot r) => some r
    | _ => none

/-- A row shorter than eight bytes makes the decoder panic. -/
def getPruneEpoch (s : Store) : Outcome Err UInt64 :=
  match s.get keyPrefixPruneEpoch with
  | none => .ok 0
  | some (.raw b) => .ofOption (getBE64 b)
  | some _ => .panicked

/-- `SetPruneEpoch`, as eight bytes. -/
def setPruneEpoch (s : Store) (height : UInt64) : Store :=
  s.set keyPrefixPruneEpoch (.raw (be64 height))

variable {β : Type} (k : Keeper β)

def Keeper.setOracleSources (s : Store) (chainUID : Bytes) (sources : List OracleSource) : Store :=
  s.set (oracleSourcesKey chainUID) (.raw (k.marshalSources sources))

/-- `GetOracleSources`; a chain without a row has none. -/
def Keeper.getOracleSources (s : Store) (chainUID : Bytes) : Outcome Err (List OracleSource) :=
  match s.get (oracleSourcesKey chainUID) with
  | none => .ok []
  | some (.raw b) =>
    match k.unmarshalSources b with
    | some sources => .ok sources
    | none => .error (.decode "oracle sources")
  | some _ => .error (.decode "oracle sources")

/-! ## Keepers that run

  Concrete executions need concrete outside functions.  A table lists the values they take on the
  inputs at hand; on other inputs a decoder fails and a signature is invalid. -/

structure Tables where
  extensions : List (Bytes × VoteExtensionHashData) := []
  commits : List (Bytes × ExtendedCommitInfo) := []
  sources : List (Bytes × List OracleSource) := []
  hashes : List (Bytes × Bytes) := []
  signatures : List (Bytes × Bytes × Bytes) := []

def plainExtension (chainUid algo root : Bytes) : VoteExtensionHashData where
  runtimeId := []
  chainUid := chainUid
  algo := algo
  root := root
  foreignHeight := 0
  foreignBlockTime := 0
  ics23Proof := []
  attestations := []

/-- Its encoding, for fields of less than 128 bytes. -/
def plainExtensionBytes (chainUid algo root : Bytes) : Bytes :=
  field 0x12 chainUid ++ field 0x1a algo ++ field 0x22 root
where
  field (tag : UInt8) (b : Bytes) : Bytes :=
    if b = [] then [] else tag :: UInt8.ofNat b.length :: b

def Tables.keeper (t : Tables) : Keeper Unit where
  authority := []
  unmarshalVoteExtension b := t.extensions.lookup b
  unmarshalCommit b := t.commits.lookup b
  unmarshalBundle _ := none
  marshalSources l := ((t.sources.find? fun e => e.2 == l).map Prod.fst).getD []
  unmarshalSources b := t.sources.lookup b
  sha256 b := (t.hashes.lookup b).getD (List.replicate 32 0)
  ed25519Verify pubkey message signature := (pubkey, message, signature) ∈ t.signatures
  sliceSort := .insertion
  accAddressFromBech32 _ := none
  wasmSudo s _ _ _ := .ok s
  sendCoinsFromAccountToModule app _ _ := some app

theorem Tables.length_sha256 (t : Tables) (h : ∀ e ∈ t.hashes, e.2.length = 32) (b : Bytes) :
    (t.keeper.sha256 b).length = 32 := by
  change ((t.hashes.lookup b).getD (List.replicate 32 0)).length = 32
  revert h
  induction t.hashes with
  | nil => exact fun _ => rfl
  | cons e hashes ih =>
    intro h
    rw [List.lookup_cons]
    split
    · exact h e (by simp)
    · exact ih fun e he => h e (by simp [he])

end Hashmerchant
