/-
  Stored attestations and the root they are stored with.
-/
import TerpCore.Hashmerchant.Canonical
import TerpCore.Hashmerchant.Writes

namespace Hashmerchant

open Lib

variable {β : Type}

/-! ## What verification accepts -/

/-- The checks of the verification handler on the decoded extension. -/
structure Keeper.Admissible (k : Keeper β) (s : Store) (data : VoteExtensionHashData) : Prop where
  chain : ∃ chain, getRegisteredChain s data.chainUid = .ok chain ∧ chain.enabled
  signed : k.verifyOracleAttestations s data.chainUid (k.voteExtensionAttestations data) = .ok ()
  bound : k.voteExtensionAttestations data ≠ [] → data.root ≠ [] →
    data.root = k.aggregateAttestationRoot (k.voteExtensionAttestations data)

theorem verifyVoteExtension_eq_accept {k : Keeper β} {s : Store} {ext : Bytes} :
    k.verifyVoteExtension s ext = .accept ↔
      ext = [] ∨ ∃ data, k.unmarshalVoteExtension ext = some data ∧ k.Admissible s data := by
  unfold Keeper.verifyVoteExtension
  by_cases hext : ext = []
  · simp [hext]
  rw [if_neg hext, or_iff_right hext]
  cases hdata : k.unmarshalVoteExtension ext with
  | none => simp
  | some data =>
    simp only [Option.some.injEq, exists_eq_left']
    constructor
    · intro h
      cases hchain : getRegisteredChain s data.chainUid with
      | error | panicked => simp [hchain] at h
      | ok chain =>
        cases henabled : chain.enabled with
        | false => simp [hchain, henabled] at h
        | true =>
          cases hsigned : k.verifyOracleAttestations s data.chainUid
              (k.voteExtensionAttestations data) with
          | error | panicked => simp [hchain, hsigned] at h
          | ok u =>
            refine ⟨⟨chain, hchain, henabled⟩, hsigned, fun hatts hroot => ?_⟩
            by_contra hne
            simp [hchain, hsigned, hatts, hroot, hne] at h
    · rintro ⟨⟨chain, hchain, henabled⟩, hsigned, hbound⟩
      simp only [hchain, henabled, hsigned]
      rw [if_neg (by simp), if_neg]
      rintro ⟨hatts, hroot, hne⟩
      exact hne (hbound hatts hroot)

theorem admissible_of_accept {k : Keeper β} {s : Store} {vote : ExtendedVoteInfo}
    {data : VoteExtensionHashData} (h : k.verifyVoteExtension s vote.voteExtension = .accept)
    (hdata : k.decoded vote = some data) : k.Admissible s data := by
  unfold Keeper.decoded at hdata
  split_ifs at hdata with hext
  rcases verifyVoteExtension_eq_accept.mp h with hempty | ⟨data', hdata', hadm⟩
  · exact absurd hempty hext
  · obtain rfl : data = data' := Option.some.inj (hdata.symm.trans hdata')
    exact hadm

/-! ## The binding -/

/-- The keeper over other contracts. -/
def Keeper.withContracts (k : Keeper β)
    (call : State β → Bytes → HashMerchantSudoPayload → UInt64 → SudoResult β) : Keeper β :=
  { k with wasmSudo := call }

/-- What a contract is told about an attestation. -/
def OracleAttestation.projection (att : OracleAttestation) : HashMerchantSudoOracleAttestation :=
  ⟨att.sourceId, att.value, att.height⟩

/-- Whatever the contracts do and in whatever order the loops run: a root stored with attestations is their aggregate,
and each callback carries a stored root with the projections of its attestations. -/
structure AttestationsBound (k : Keeper β) (store : Store) (commit : ExtendedCommitInfo) : Prop where
  root : ∀ call o blockHeight app s' es root,
    (k.withContracts call).processVoteExtensions o blockHeight ⟨store, app⟩ commit = .ok (s', es) →
    .setHashRoot root ∈ es → root.attestations ≠ [] →
    root.root = k.aggregateAttestationRoot root.attestations
  calls : ∀ call o blockHeight app s' es contract payload,
    (k.withContracts call).processVoteExtensions o blockHeight ⟨store, app⟩ commit = .ok (s', es) →
    .sudoCall contract payload ∈ es →
    ∃ root, .setHashRoot root ∈ es ∧ payload.chainUID = root.chainUid ∧ payload.algo = root.algo ∧
      payload.root = root.root ∧ payload.oracleSources = root.attestations.map OracleAttestation.projection

variable {k : Keeper β} {store : Store} {commit : ExtendedCommitInfo}

variable {o : TallyOrder} {blockHeight : UInt64} {s s' : State β} {es : List Effect}

theorem canonical_of_written {root : HashRoot} (h : k.processVoteExtensions o blockHeight s commit = .ok (s', es))
    (hroot : .setHashRoot root ∈ es) : k.canonical root.attestations = root.attestations := by
  obtain ⟨params, threshold, key, r, v, -, -, -, -, rfl⟩ := written_spec h hroot
  exact canonical_canonical v.attestations

theorem calls_projection {contract : Bytes} {payload : HashMerchantSudoPayload}
    (h : k.processVoteExtensions o blockHeight s commit = .ok (s', es)) (hcall : .sudoCall contract payload ∈ es) :
    ∃ root, .setHashRoot root ∈ es ∧ payload.chainUID = root.chainUid ∧ payload.algo = root.algo ∧
      payload.root = root.root ∧ payload.oracleSources = root.attestations.map OracleAttestation.projection := by
  obtain ⟨root, hroot, rfl⟩ := sudoCall_spec h hcall
  refine ⟨root, hroot, rfl, rfl, rfl, ?_⟩
  rw [Keeper.sudoPayload, canonical_of_written h hroot]
  rfl

theorem root_eq_aggregate {root : HashRoot}
    (haccept : ∀ v ∈ commit.votes, k.verifyVoteExtension s.store v.voteExtension = .accept)
    (h : k.processVoteExtensions o blockHeight s commit = .ok (s', es)) (hroot : .setHashRoot root ∈ es)
    (hatts : root.attestations ≠ []) (hne : root.root ≠ []) :
    root.root = k.aggregateAttestationRoot root.attestations := by
  obtain ⟨params, threshold, key, r, v, -, -, -, hv, rfl⟩ := written_spec h hroot
  obtain ⟨vote, hvote, data, hdata, hfor, rfl⟩ := mem_votesFor.mp (List.mem_of_head? hv)
  have hadm := admissible_of_accept (haccept vote hvote) hdata
  change data.root = k.aggregateAttestationRoot (k.canonical (k.voteExtensionAttestations data))
  rw [aggregateAttestationRoot_canonical]
  exact hadm.bound (mt canonical_eq_nil.mpr hatts) hne

/-! ## The empty root -/

section withContracts

variable (call : State β → Bytes → HashMerchantSudoPayload → UInt64 → SudoResult β)
variable {votes : List ExtendedVoteInfo} {threshold : Int64} {key : TallyKey} {root : Bytes}

theorem withContracts_verifyEach (sources : List OracleSource) : ∀ atts : List OracleAttestation,
    (k.withContracts call).verifyEach sources atts = k.verifyEach sources atts
  | [] => rfl
  | att :: atts => by
    have hatt : (k.withContracts call).verifyAttestation sources att = k.verifyAttestation sources att := rfl
    rw [Keeper.verifyEach, Keeper.verifyEach, hatt, withContracts_verifyEach sources atts]

theorem withContracts_verifyVoteExtension (s : Store) (ext : Bytes) :
    (k.withContracts call).verifyVoteExtension s ext = k.verifyVoteExtension s ext := by
  have hsigned : ∀ chainUID atts, (k.withContracts call).verifyOracleAttestations s chainUID atts =
      k.verifyOracleAttestations s chainUID atts := by
    intro chainUID atts
    simp only [Keeper.verifyOracleAttestations, withContracts_verifyEach]
    rfl
  simp only [Keeper.verifyVoteExtension, hsigned]
  rfl

theorem withContracts_leads : (k.withContracts call).Leads votes threshold key root ↔
    k.Leads votes threshold key root :=
  ⟨fun h => ⟨h.voted, h.threshold_le, h.floor_le, h.highest⟩, fun h => ⟨h.voted, h.threshold_le, h.floor_le, h.highest⟩⟩

theorem withContracts_unmet : (k.withContracts call).Unmet votes threshold key ↔ k.Unmet votes threshold key :=
  ⟨fun h => ⟨h.voted, h.threshold_le, h.below⟩, fun h => ⟨h.voted, h.threshold_le, h.below⟩⟩

end withContracts

/-- A leading empty root is stored by some run, with the attestations of its first vote. -/
theorem exists_run_of_emptyRoot (app : β) {params : Params} {threshold : Int64} {key : TallyKey}
    {v : RootVote} (hparams : getParams store = .ok params)
    (hth : params.quorumThreshold (k.totalPower commit.votes) = some threshold)
    (hmet : ∀ key, ¬ k.Unmet commit.votes threshold key)
    (hlead : k.Leads commit.votes threshold key [])
    (hv : (k.votesFor commit.votes key []).head? = some v) :
    ∃ call o blockHeight s' es root,
      (k.withContracts call).processVoteExtensions o blockHeight ⟨store, app⟩ commit = .ok (s', es) ∧
      .setHashRoot root ∈ es ∧ root.root = [] ∧ root.attestations = k.canonical v.attestations := by
  let call : State β → Bytes → HashMerchantSudoPayload → UInt64 → SudoResult β :=
    fun _ _ _ _ => .error
  have hlead' := (withContracts_leads call).mpr hlead
  obtain ⟨⟨o, ho⟩, -⟩ := exists_order_iff_canWin.mpr ⟨hlead', .inl hlead'⟩
  have hvotes := votes_ne_of_winner (o := o)
    fun key h => hmet key ((withContracts_unmet call).mp h)
  obtain ⟨s', es, hws⟩ := writeWinners_of_failing (k := k.withContracts call)
    (fun _ _ _ _ => rfl) 0 ⟨store, app⟩ _ hvotes
  have hrun := processVoteExtensions_eq_ok (k := k.withContracts call).mpr
    ⟨params, threshold, hparams, hth, hws⟩
  obtain ⟨v', hv', hmem⟩ := written_of_winner (k := k.withContracts call) hparams hth hrun ho
  obtain rfl : v = v' := Option.some.inj (hv.symm.trans hv')
  exact ⟨call, o, 0, s', es, _, hrun, hmem, root_of_mem_votesFor (List.mem_of_head? hv), rfl⟩

/-- The condition: the call panics, or the first vote for an empty root that leads carries no attestations. -/
def EmptyRootsUnattested (k : Keeper β) (store : Store) (commit : ExtendedCommitInfo) : Prop :=
  ∀ params threshold, getParams store = .ok params →
    params.quorumThreshold (k.totalPower commit.votes) = some threshold →
    (∃ key, k.Unmet commit.votes threshold key) ∨
      ∀ key v, k.Leads commit.votes threshold key [] →
        (k.votesFor commit.votes key []).head? = some v → v.attestations = []

/-- **Stored attestations are bound by the stored root**, for accepted extensions, exactly if no empty root with
attestations can be stored. -/
theorem attestationsBound_iff [Inhabited β] (k : Keeper β) (store : Store)
    (commit : ExtendedCommitInfo) (hsha : ∀ b, (k.sha256 b).length = 32)
    (haccept : ∀ v ∈ commit.votes, k.verifyVoteExtension store v.voteExtension = .accept) :
    AttestationsBound k store commit ↔ EmptyRootsUnattested k store commit := by
  constructor
  · intro hbound params threshold hparams hth
    by_cases hunmet : ∃ key, k.Unmet commit.votes threshold key
    · exact .inl hunmet
    refine .inr fun key v hlead hv => ?_
    by_contra hatts
    obtain ⟨call, o, blockHeight, s', es, root, hrun, hmem, hempty, hstored⟩ :=
      exists_run_of_emptyRoot default hparams hth (fun key h => hunmet ⟨key, h⟩) hlead hv
    have hne : root.attestations ≠ [] := by
      rw [hstored]
      exact mt canonical_eq_nil.mp hatts
    have hagg := hbound.root call o blockHeight default s' es root hrun hmem hne
    have hlen := congrArg List.length hagg
    simp [hempty, Keeper.aggregateAttestationRoot, if_neg hne, hsha] at hlen
  · intro hcond
    refine ⟨?_, fun call o blockHeight app s' es contract payload => calls_projection⟩
    intro call o blockHeight app s' es root hrun hmem hatts
    by_cases hempty : root.root = []
    · obtain ⟨params, threshold, key, r, v, hparams, hth, hwin, hv, rfl⟩ := written_spec hrun hmem
      have hvroot : v.root = r := root_of_mem_votesFor (List.mem_of_head? hv)
      obtain rfl : r = [] := hvroot.symm.trans hempty
      have hmet := not_unmet_of_ok (fun params' h => by
        obtain rfl : params = params' := Outcome.ok.inj (hparams.symm.trans h)
        exact hth) hrun
      have hunattested := (hcond params threshold hparams hth).resolve_left (by
        rintro ⟨key, h⟩
        exact hmet key ((withContracts_unmet call).mpr h))
      have hnil : v.attestations = [] :=
        hunattested key v ((withContracts_leads call).mp hwin.1) hv
      exact absurd (canonical_eq_nil.mpr hnil) hatts
    · have haccept' : ∀ v ∈ commit.votes,
          (k.withContracts call).verifyVoteExtension store v.voteExtension = .accept := by
        intro v hv
        rw [withContracts_verifyVoteExtension]
        exact haccept v hv
      exact root_eq_aggregate (k := k.withContracts call) haccept' hrun hmem hatts hempty

/-! A chain `c` with one source `s`, and extensions that carry a signed attestation of it. -/

/-- The source. -/
def sampleSource : OracleSource where
  sourceId := ascii "s"
  kind := 0
  endpoint := []
  merklePrefix := []
  authenticator := some
    { pubkey := beBytes 32 0xd75a980182b10ab7d54bfed3c964073a0ee172f3daa62325af021a68f707511a
      algorithm := ascii "ed25519"
      scope := ascii "x" }
  enabled := true

/-- The row of its table. -/
def sampleSources : Bytes :=
  ascii "[\x7b\"source_id\":\"s\",\"authenticator\":\x7b\"pubkey\":" ++
    ascii "\"11qYAYKxCrfVS/7TyWQHOg7hcvPapiMlrwIaaPcHURo=\"," ++
    ascii "\"algorithm\":\"ed25519\",\"scope\":\"x\"\x7d,\"enabled\":true\x7d]"

/-- The signature of the attestation. -/
def sampleSignature : Bytes :=
  beBytes 32 0x831b7bba354850aa7d7a2cc2e3d0acd3e69f0723b64ffdd3477511a739694f01 ++
    beBytes 32 0xb1312bc8e02c497a0382967b460b1786660f2998f4ddc8654f9eda1fe3d86201

/-- An attestation of the source. -/
def sampleAttestation : OracleAttestation where
  sourceId := ascii "s"
  value := [1]
  height := 5
  timestamp := 7
  custodySignature := sampleSignature
  ics23Proof := []

/-- The hash of `hashmerchant/custody/x/s`. -/
def sampleDomain : Bytes :=
  beBytes 32 0xf3f8cd3efbdba86301025e12340005c3b21d85cf0b0214c7e5a23dc8e64b717a

/-- The hash of the attestation. -/
def sampleAggregate : Bytes :=
  beBytes 32 0x44e6e76e191a110766a04903f3e9a832be37b637b8f078aa96a533ed8755bce7

/-- A vote for a root with the attestation. -/
def attestedExtension (root : Bytes) : VoteExtensionHashData :=
  { plainExtension (ascii "c") (ascii "a") root with attestations := [some sampleAttestation] }

/-- The encoded vote. -/
def attestedExtensionBytes (root : Bytes) : Bytes :=
  plainExtensionBytes (ascii "c") (ascii "a") root ++
    [0x42, 0x4c, 0x0a, 1, 0x73, 0x12, 1, 1, 0x18, 5, 0x20, 7, 0x2a, 0x40] ++ sampleSignature

/-- A keeper that decodes and verifies these votes. -/
def attestedKeeper : Keeper Unit :=
  Tables.keeper
    { extensions := [[], sampleAggregate].map fun root =>
        (attestedExtensionBytes root, attestedExtension root)
      sources := [(sampleSources, [sampleSource])]
      hashes := [(ascii "hashmerchant/custody/x/s", sampleDomain),
        (ascii "s" ++ [1] ++ le64 5, sampleAggregate)]
      signatures := [(beBytes 32 0xd75a980182b10ab7d54bfed3c964073a0ee172f3daa62325af021a68f707511a,
        sampleDomain ++ [1] ++ le64 5 ++ le64 7, sampleSignature)] }

/-- The chain with its table. -/
def attestedStore : Store :=
  attestedKeeper.setOracleSources (setRegisteredChain .empty ⟨ascii "c", [], [], [], true, []⟩) (ascii "c")
    [sampleSource]

/-- Two validators vote for a root, one for the empty root, and one not at all. -/
def attestedCommit (root : Bytes) : ExtendedCommitInfo :=
  ⟨[⟨[3], 1, attestedExtensionBytes []⟩, ⟨[1], 10, attestedExtensionBytes root⟩,
    ⟨[2], 10, attestedExtensionBytes root⟩, ⟨[4], 2, []⟩]⟩

theorem attestedKeeper_sha256 : ∀ b, (attestedKeeper.sha256 b).length = 32 :=
  Tables.length_sha256 _ (by decide)

/-- With the aggregate as the root of the majority, the attestation is stored and bound. -/
theorem attestedCommit_bound : (∀ b, (attestedKeeper.sha256 b).length = 32) ∧
      (∀ v ∈ (attestedCommit sampleAggregate).votes,
        attestedKeeper.verifyVoteExtension attestedStore v.voteExtension = .accept) ∧
      AttestationsBound attestedKeeper attestedStore (attestedCommit sampleAggregate) := by
  have haccept : ∀ v ∈ (attestedCommit sampleAggregate).votes,
      attestedKeeper.verifyVoteExtension attestedStore v.voteExtension = .accept := by decide
  refine ⟨attestedKeeper_sha256, haccept, (attestationsBound_iff _ _ _ attestedKeeper_sha256 haccept).mpr ?_⟩
  intro params threshold hparams hth
  refine .inr fun key v hlead hv => ?_
  -- the vote for the empty root does not meet the threshold
  obtain ⟨vote, hvote, data, hdata, hfor, -⟩ := mem_votesFor.mp (List.mem_of_head? hv)
  have hkeys : ∀ u ∈ (attestedCommit sampleAggregate).votes, ∀ data ∈ attestedKeeper.decoded u,
      data.chainUid = ascii "c" ∧ data.algo = ascii "a" := by decide
  obtain ⟨hchain, halgo⟩ := hkeys vote hvote data hdata
  obtain rfl : key = ⟨ascii "c", ascii "a"⟩ := by
    rw [← hchain, ← halgo, hfor.1, hfor.2.1]
  obtain rfl : defaultParams = params := Outcome.ok.inj hparams
  have hless : (defaultParams.quorumThreshold (attestedKeeper.totalPower (attestedCommit sampleAggregate).votes)).all
      (attestedKeeper.power (attestedCommit sampleAggregate).votes ⟨ascii "c", ascii "a"⟩ [] < ·) = true := by decide
  rw [hth] at hless
  exact absurd (of_decide_eq_true hless) (Int64.not_lt.mpr hlead.threshold_le)

/-- With an empty root the extension is accepted and the attestation stored beside a root it does not aggregate to. -/
theorem attestedCommit_unbound : (∀ v ∈ (attestedCommit []).votes,
        attestedKeeper.verifyVoteExtension attestedStore v.voteExtension = .accept) ∧
      (storedRoots (attestedKeeper.processVoteExtensions ⟨.kept, fun _ => .kept⟩ 1
        ⟨attestedStore, ()⟩ (attestedCommit []))).map (List.map fun r => (r.root, r.attestations)) =
        some [([], [sampleAttestation])] ∧
      ¬ AttestationsBound attestedKeeper attestedStore (attestedCommit []) := by
  have hstored : storedRoots (attestedKeeper.processVoteExtensions ⟨.kept, fun _ => .kept⟩ 1
      ⟨attestedStore, ()⟩ (attestedCommit [])) =
        some [⟨ascii "c", ascii "a", 0, [], 3, 0, [sampleAttestation]⟩] := by decide
  refine ⟨by decide, by rw [hstored]; rfl, fun hbound => ?_⟩
  obtain ⟨s', es, hrun, hmem⟩ := mem_storedRoots hstored
  have hroot := hbound.root attestedKeeper.wasmSudo _ _ _ _ _ _ hrun
    ((hmem _).mp List.mem_cons_self) (by decide)
  exact absurd hroot (by decide)

end Hashmerchant
