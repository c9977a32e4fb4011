/-
  Oracle attestations: custody signatures, the canonical list, and the root that commits to it.
-/
import TerpCore.Hashmerchant.Keeper

namespace Hashmerchant

open Lib Outcome

variable {β : Type} (k : Keeper β)

/-! ## Custody signatures -/

/-- The domain separates the scopes of a source's authenticator. -/
def Keeper.custodyDomain (scope sourceID : Bytes) : Bytes :=
  k.sha256 (ascii "hashmerchant/custody/" ++ scope ++ ascii "/" ++ sourceID)

/-- The message signed by a source's custody authenticator. -/
def Keeper.custodyPayload (scope sourceID value : Bytes) (height : UInt64) (timestamp : Int64) : Bytes :=
  k.custodyDomain scope sourceID ++ value ++ le64 height ++ le64 timestamp.toUInt64

def findOracleSource (sources : List OracleSource) (sourceID : Bytes) : Option OracleSource :=
  sources.find? fun src => src.sourceId == sourceID && src.enabled

/-- The checks on one attestation. -/
def Keeper.verifyAttestation (sources : List OracleSource) (att : OracleAttestation) : Outcome Err Unit :=
  match findOracleSource sources att.sourceId with
  | none => .error (.unregisteredSource att.sourceId)
  | some src =>
    match src.authenticator with
    | none => .error (.missingAuthenticator att.sourceId)
    | some auth => do
      require (auth.algorithm == ascii "ed25519")
        (.unsupportedAlgorithm auth.algorithm att.sourceId)
      require (auth.pubkey.length == 32) (.invalidPubkeyLength att.sourceId)
      require
        (k.ed25519Verify auth.pubkey
          (k.custodyPayload auth.scope att.sourceId att.value att.height att.timestamp)
          att.custodySignature)
        (.custodySignatureFailed att.sourceId)

/-- The loop over the attestations, which stops at the first error. -/
def Keeper.verifyEach (sources : List OracleSource) : List OracleAttestation → Outcome Err Unit
  | [] => .ok ()
  | att :: atts => do
    k.verifyAttestation sources att
    Keeper.verifyEach sources atts

/-- An empty list is valid, for sidecars that do not attest. -/
def Keeper.verifyOracleAttestations (s : Store) (chainUID : Bytes)
    (attestations : List OracleAttestation) : Outcome Err Unit :=
  if attestations = [] then .ok ()
  else do
    let sources ← k.getOracleSources s chainUID
    let _params ← getParams s
    k.verifyEach sources attestations

/-! ## The canonical list -/

/-- By source, value, height and timestamp. -/
def attestationLess (a b : OracleAttestation) : Bool :=
  if a.sourceId ≠ b.sourceId then Bytes.lt a.sourceId b.sourceId
  else if compare a.value b.value ≠ .eq then Bytes.lt a.value b.value
  else if a.height ≠ b.height then a.height < b.height
  else a.timestamp < b.timestamp

def Keeper.sortOracleAttestations (attestations : List OracleAttestation) : List OracleAttestation :=
  k.sliceSort.sort attestationLess attestations

/-- The loop of the deduplication: `seen` holds the sources met so far. -/
def dedupeLoop (seen : List Bytes) : List OracleAttestation → List OracleAttestation
  | [] => []
  | att :: atts =>
    if att.sourceId ∈ seen then dedupeLoop seen atts
    else att :: dedupeLoop (att.sourceId :: seen) atts

/-- Keeps the first attestation of each source. -/
def dedupeOracleAttestationsBySourceID (attestations : List OracleAttestation) : List OracleAttestation :=
  dedupeLoop [] attestations

/-- The list that is stored, hashed and sent to contracts. -/
def Keeper.canonical (attestations : List OracleAttestation) : List OracleAttestation :=
  dedupeOracleAttestationsBySourceID (k.sortOracleAttestations attestations)

/-- What the hash takes from one attestation. -/
def attestationDigestInput (att : OracleAttestation) : Bytes :=
  att.sourceId ++ att.value ++ le64 att.height

/-- The commitment over the canonical list; nil for no attestations. -/
def Keeper.aggregateAttestationRoot (attestations : List OracleAttestation) : Bytes :=
  if attestations = [] then []
  else k.sha256 ((k.canonical attestations).flatMap attestationDigestInput)

end Hashmerchant
