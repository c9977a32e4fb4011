/-
  Vote extensions: their verification, and the tally that turns a commit into stored hash roots.

  Two loops range over Go maps, so their order is a parameter (`TallyOrder`).
-/
import TerpCore.Hashmerchant.Oracle
import TerpCore.Lib.GoMap

namespace Hashmerchant

open Lib

variable {β : Type} (k : Keeper β)

/-! ## Verification -/

def oracleBundleMagic : Bytes := ascii "HMOR"

/-- The attestations of a legacy bundle; without the magic there are none. -/
def Keeper.unpackOracleBundle (bz : Bytes) : Outcome Err (List OracleAttestation) :=
  if bz.length < oracleBundleMagic.length then .ok []
  else if bz.take oracleBundleMagic.length ≠ oracleBundleMagic then .ok []
  else
    match k.unmarshalBundle (bz.drop oracleBundleMagic.length) with
    | some atts => .ok atts
    | none => .error (.decode "decode oracle bundle: %w")

/-- The attestations of an extension: its own field, or else the legacy bundle, whose errors are
dropped. -/
def Keeper.voteExtensionAttestations (data : VoteExtensionHashData) : List OracleAttestation :=
  if data.attestations ≠ [] then data.attestations.filterMap id
  else
    match k.unpackOracleBundle data.ics23Proof with
    | .ok legacy => legacy
    | _ => []

/-- The answer to a vote extension. -/
inductive VerifyStatus where
  | accept
  | reject
  deriving DecidableEq

def Keeper.verifyVoteExtension (s : Store) (voteExtension : Bytes) : VerifyStatus :=
  if voteExtension = [] then .accept
  else
    match k.unmarshalVoteExtension voteExtension with
    | none => .reject
    | some data =>
      match getRegisteredChain s data.chainUid with
      | .ok chain =>
        if !chain.enabled then .reject
        else
          let attestations := k.voteExtensionAttestations data
          match k.verifyOracleAttestations s data.chainUid attestations with
          | .ok _ =>
            if attestations ≠ [] ∧ data.root ≠ [] ∧
                data.root ≠ k.aggregateAttestationRoot attestations then .reject
            else .accept
          | _ => .reject
      | _ => .reject

/-! ## The tally -/

/-- A vote as it is tallied under its root. -/
structure RootVote where
  root : Bytes
  height : UInt64
  blockTime : Int64
  votingPower : Int64
  attestations : List OracleAttestation
  deriving DecidableEq

/-- What is voted on. -/
structure TallyKey where
  chainUID : Bytes
  algo : Bytes
  deriving DecidableEq

/-- The votes of one (chain, algo), by the hexadecimal form of their root. -/
abbrev RootMap := GoMap Bytes (List RootVote)

/-- The votes by key and by root. -/
abbrev Tally := GoMap TallyKey RootMap

/-- The orders in which the loops range over the tally and over the map of each key. -/
structure TallyOrder where
  outer : GoMap.RangeOrder TallyKey RootMap
  inner : TallyKey → GoMap.RangeOrder Bytes (List RootVote)

/-- A vote is appended under its key and root. -/
def Tally.add (t : Tally) (key : TallyKey) (rootHex : Bytes) (v : RootVote) : Tally :=
  let roots := (t.lookup key).getD ∅
  t.insert key (roots.insert rootHex ((roots.lookup rootHex).getD [] ++ [v]))

/-- The vote that an extension casts. -/
def Keeper.rootVote (power : Int64) (data : VoteExtensionHashData) : RootVote where
  root := data.root
  height := data.foreignHeight
  blockTime := data.foreignBlockTime
  votingPower := power
  attestations := k.voteExtensionAttestations data

/-- One round of the loop over the votes: every vote adds to the total power, and a vote whose
extension decodes adds to the tally. -/
def Keeper.tallyVote (st : Tally × Int64) (vote : ExtendedVoteInfo) : Tally × Int64 :=
  let totalPower := st.2 + vote.power
  if vote.voteExtension = [] then (st.1, totalPower)
  else
    match k.unmarshalVoteExtension vote.voteExtension with
    | none => (st.1, totalPower)
    | some data =>
      (Tally.add st.1 ⟨data.chainUid, data.algo⟩ (hex data.root) (k.rootVote vote.power data),
        totalPower)

/-- The loop over the votes of the commit, with their total power. -/
def Keeper.tallyVotes (votes : List ExtendedVoteInfo) : Tally × Int64 :=
  votes.foldl k.tallyVote (∅, 0)

/-- The power that a root needs. -/
def Params.quorumThreshold (p : Params) (totalPower : Int64) : Option Int64 := do
  let d ← p.quorumFraction.mulInt64 totalPower
  let n ← d.truncateInt
  SdkInt.int64 n

/-! ## The winners -/

/-- A root with its votes. -/
structure Winner where
  key : TallyKey
  votes : List RootVote
  power : Int64
  deriving DecidableEq

/-- `var best winner; best.power = -1`. -/
def zeroWinner : Winner := ⟨⟨[], []⟩, [], -1⟩

/-- The sum of the voting powers, in 64 bits. -/
def votesPower (votes : List RootVote) : Int64 := votes.foldl (fun power v => power + v.votingPower) 0

/-- One round of the loop over the roots of a key; the second component is `bestRootHex`. -/
def considerRoot (threshold : Int64) (key : TallyKey) (best : Winner × Bytes)
    (entry : Bytes × List RootVote) : Winner × Bytes :=
  let power := votesPower entry.2
  if power < threshold then best
  else if best.1.power < power ∨
      power = best.1.power ∧ (best.2 = [] ∨ Bytes.lt entry.1 best.2) then
    (⟨key, entry.2, power⟩, entry.1)
  else best

/-- The loop over the roots of a key. -/
def bestRoot (threshold : Int64) (key : TallyKey) (entries : List (Bytes × List RootVote)) : Winner :=
  (entries.foldl (considerRoot threshold key) (zeroWinner, [])).1

/-- The winner of one entry of the tally, if its power meets the threshold. -/
def entryWinner (o : TallyOrder) (threshold : Int64) (entry : TallyKey × RootMap) : Option Winner :=
  let best := bestRoot threshold entry.1 ((o.inner entry.1).items entry.2)
  if threshold ≤ best.power then some best else none

/-- The winners in the order in which the loop over the tally appends them. -/
def collectWinners (o : TallyOrder) (threshold : Int64) (tally : Tally) : List Winner :=
  (o.outer.items tally).filterMap (entryWinner o threshold)

/-- By chain, then by algorithm. -/
def winnerLess (a b : Winner) : Bool :=
  if a.key.chainUID ≠ b.key.chainUID then Bytes.lt a.key.chainUID b.key.chainUID
  else Bytes.lt a.key.algo b.key.algo

/-- `selectWinners`: the best root of each key, sorted. -/
def Keeper.selectWinners (o : TallyOrder) (threshold : Int64) (tally : Tally) : List Winner :=
  k.sliceSort.sort winnerLess (collectWinners o threshold tally)

/-! ## Writing the roots -/

/-- What a block does besides its writes, in order. -/
inductive Effect where
  | setHashRoot (root : HashRoot)
  | sudoCall (contract : Bytes) (payload : HashMerchantSudoPayload)
  | rootConfirmed (chainUID algo : Bytes) (attestations : Nat)
  deriving DecidableEq

/-- The call runs on a cache that is written back only if it returns; running out of gas is an error, any other panic
goes on. -/
def Keeper.sudoBounded (s : State β) (contract : Bytes) (payload : HashMerchantSudoPayload)
    (limit : UInt64) : Outcome Err (State β) :=
  match k.wasmSudo s contract payload (if limit = 0 then defaultContractGasLimit else limit) with
  | .ok s' => .ok s'
  | .error | .outOfGas => .ok s
  | .panicked => .panicked

/-- What a contract is told of a root. -/
def Keeper.sudoPayload (root : HashRoot) (attestations : List OracleAttestation) :
    HashMerchantSudoPayload where
  chainUID := root.chainUid
  algo := root.algo
  height := root.height
  root := root.root
  attestationCount := root.attestationCount
  blockTime := root.blockTime
  oracleSources := (k.canonical attestations).map fun att => ⟨att.sourceId, att.value, att.height⟩

/-- The callback to one contract: it must be enabled for the chain and its escrow must be paid. -/
def Keeper.dispatchTo (blockHeight limit : UInt64) (root : HashRoot)
    (attestations : List OracleAttestation) (s : State β) (c : RegisteredContract) :
    Outcome Err (State β × List Effect) :=
  if c.chainUid ≠ root.chainUid ∨ !c.enabled then .ok (s, [])
  else
    match getEscrowRecord s.store c.contractAddr with
    | .ok escrow =>
      if escrow.paidUntilHeight < blockHeight then .ok (s, [])
      else
        match k.accAddressFromBech32 c.contractAddr with
        | none => .ok (s, [])
        | some contract => do
          let payload := k.sudoPayload root attestations
          let s' ← k.sudoBounded s contract payload limit
          .ok (s', [.sudoCall contract payload])
    | _ => .ok (s, [])

/-- The callbacks one after the other. -/
def Keeper.dispatchEach (blockHeight limit : UInt64) (root : HashRoot)
    (attestations : List OracleAttestation) (s : State β) :
    List RegisteredContract → Outcome Err (State β × List Effect)
  | [] => .ok (s, [])
  | c :: cs => do
    let (s', es) ← k.dispatchTo blockHeight limit root attestations s c
    let (s'', es') ← Keeper.dispatchEach blockHeight limit root attestations s' cs
    .ok (s'', es ++ es')

/-- The contracts are those of the store at the start of the iteration. -/
def Keeper.dispatchSudoCallbacks (blockHeight : UInt64) (s : State β) (root : HashRoot)
    (attestations : List OracleAttestation) : Outcome Err (State β × List Effect) :=
  let limit :=
    match getParams s.store with
    | .ok params => params.sudoGasLimit
    | _ => defaultContractGasLimit
  k.dispatchEach blockHeight limit root attestations s (registeredContracts s.store)

/-- The record of a winner, filled from its first vote. -/
def Keeper.hashRootOf (w : Winner) (representative : RootVote) : HashRoot where
  chainUid := w.key.chainUID
  algo := w.key.algo
  height := representative.height
  root := representative.root
  attestationCount := UInt32.ofNat w.votes.length
  blockTime := representative.blockTime
  attestations := k.canonical representative.attestations

/-- One round of the loop over the winners; `w.votes[0]` panics for a winner without votes. -/
def Keeper.writeWinner (blockHeight : UInt64) (s : State β) (w : Winner) : Outcome Err (State β × List Effect) :=
  match w.votes with
  | [] => .panicked
  | representative :: _ => do
    let root := k.hashRootOf w representative
    let (s', calls) ← k.dispatchSudoCallbacks blockHeight
      { s with store := setHashRoot s.store root } root root.attestations
    .ok (s', .setHashRoot root :: calls ++
      [.rootConfirmed w.key.chainUID w.key.algo w.votes.length])

/-- The loop of `ProcessVoteExtensions` over the winners. -/
def Keeper.writeWinners (blockHeight : UInt64) (s : State β) :
    List Winner → Outcome Err (State β × List Effect)
  | [] => .ok (s, [])
  | w :: ws => do
    let (s', es) ← k.writeWinner blockHeight s w
    let (s'', es') ← Keeper.writeWinners blockHeight s' ws
    .ok (s'', es ++ es')

def Keeper.processVoteExtensions (o : TallyOrder) (blockHeight : UInt64) (s : State β)
    (commit : ExtendedCommitInfo) : Outcome Err (State β × List Effect) := do
  let params ← getParams s.store
  let tally := k.tallyVotes commit.votes
  let threshold ← Outcome.ofOption (params.quorumThreshold tally.2)
  k.writeWinners blockHeight s (k.selectWinners o threshold tally.1)

/-! ## Proposals -/

/-- The bytes of `HMVE`. -/
def injectedVoteExtensionPrefix : Bytes := [0x48, 0x4D, 0x56, 0x45]

/-- The answer to a proposal. -/
inductive ProposalStatus where
  | accept
  | reject
  deriving DecidableEq

/-- `ProcessProposalHandler`: an injected commit must decode; every other tx is left alone. -/
def Keeper.processProposal (txs : List Bytes) : ProposalStatus :=
  match txs with
  | [] => .accept
  | tx :: _ =>
    match tx.dropPrefix? injectedVoteExtensionPrefix with
    | none => .accept
    | some data => if (k.unmarshalCommit data).isSome then .accept else .reject

/-- The commit that the first tx of a block injects. -/
def Keeper.injectedCommit (txs : List Bytes) : Option ExtendedCommitInfo := do
  let tx ← txs.head?
  let data ← tx.dropPrefix? injectedVoteExtensionPrefix
  k.unmarshalCommit data

/-- `ProcessInjectedVoteExtension`: an error is logged and leaves the state as it was. -/
def Keeper.processInjectedVoteExtension (o : TallyOrder) (blockHeight : UInt64) (s : State β)
    (txs : List Bytes) : Outcome Err (State β × List Effect × Bool) :=
  match k.injectedCommit txs with
  | none => .ok (s, [], false)
  | some commit =>
    match k.processVoteExtensions o blockHeight s commit with
    | .ok (s', es) => .ok (s', es, true)
    | .error _ => .ok (s, [], false)
    | .panicked => .panicked

end Hashmerchant
