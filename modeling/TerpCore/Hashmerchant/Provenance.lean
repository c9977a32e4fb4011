/-
  Which votes a stored root rests on.

  The commit is whatever the block's first tx decodes to, so the proposer decides which votes stand in it.
-/
import TerpCore.Hashmerchant.Binding
import TerpCore.Hashmerchant.Quorum

namespace Hashmerchant

open Lib List Option

variable {β : Type} {k : Keeper β}

/-- The (chain, algo) of a record. -/
def HashRoot.key (root : HashRoot) : TallyKey := ⟨root.chainUid, root.algo⟩

/-! ## The stored metadata -/

theorem bmod_le_self {n : ℤ} (h : 0 ≤ n) : n.bmod (2 ^ 64) ≤ n := by
  rw [Int.bmod_def]
  split_ifs <;> omega

theorem first_vote {votes : List ExtendedVoteInfo} {key : TallyKey} {r : Bytes} {v : RootVote}
    (h : (k.votesFor votes key r).head? = some v) :
    ∃ before vote after data, votes = before ++ vote :: after ∧
      (∀ u ∈ before, k.voteFor key r u = none) ∧ k.decoded vote = some data ∧ data.IsFor key r ∧
      v = k.rootVote vote.power data := by
  rw [Keeper.votesFor, List.head?_filterMap, List.findSome?_eq_some_iff] at h
  obtain ⟨before, vote, after, hsplit, hvote, hbefore⟩ := h
  obtain ⟨data, hdata, hv⟩ := bind_eq_some_iff.mp hvote
  obtain ⟨hfor, hv⟩ := ite_none_right_eq_some.mp hv
  exact ⟨before, vote, after, data, hsplit, hbefore, hdata, hfor, (Option.some.inj hv).symm⟩

/-- **What the quorum covers.**  The votes for the (chain, algo, root) of a stored record hold the threshold; its
height, time and attestations are those of the first such vote. -/
theorem stored_from_first_vote {o : TallyOrder} {blockHeight : UInt64} {s s' : State β}
    {commit : ExtendedCommitInfo} {es : List Effect} {root : HashRoot}
    (hpow : NonNegative commit.votes)
    (hrun : k.processVoteExtensions o blockHeight s commit = .ok (s', es))
    (hroot : .setHashRoot root ∈ es) :
    ∃ params threshold, getParams s.store = .ok params ∧
      params.quorumThreshold (k.totalPower commit.votes) = some threshold ∧
      threshold.toInt ≤ k.exactPower commit.votes root.key root.root ∧
      ∃ before vote after data, commit.votes = before ++ vote :: after ∧
        (∀ u ∈ before, k.voteFor root.key root.root u = none) ∧ k.decoded vote = some data ∧
        data.IsFor root.key root.root ∧ root.height = data.foreignHeight ∧
        root.blockTime = data.foreignBlockTime ∧
        root.attestations = k.canonical (k.voteExtensionAttestations data) := by
  obtain ⟨params, threshold, key, r, v, hparams, hth, hwin, hv, rfl⟩ := written_spec hrun hroot
  obtain rfl : v.root = r := root_of_mem_votesFor (mem_of_head? hv)
  have hpower : threshold.toInt ≤ k.exactPower commit.votes key v.root := by
    have hle := Int64.le_iff_toInt_le.mp hwin.1.threshold_le
    rw [power_toInt] at hle
    exact hle.trans (bmod_le_self (exactPower_nonneg hpow))
  obtain ⟨before, vote, after, data, hsplit, hbefore, hdata, hfor, hvdata⟩ := first_vote hv
  refine ⟨params, threshold, hparams, hth, hpower, before, vote, after, data, hsplit, hbefore, hdata, hfor, ?_, ?_, ?_⟩
  all_goals
    rw [hvdata]
    rfl

/-! Three validators of power 1 vote for the root `ab`; the first reports the foreign height 999, the
others report 10. -/

/-- A vote that reports a height. -/
def heightExtension (height : UInt64) : VoteExtensionHashData :=
  { plainExtension (ascii "c") (ascii "a") [0xab] with foreignHeight := height }

/-- The encoded vote, by the encoded height. -/
def heightExtensionBytes (varint : Bytes) : Bytes :=
  plainExtensionBytes (ascii "c") (ascii "a") [0xab] ++ 0x28 :: varint

/-- A keeper that decodes these votes. -/
def heightKeeper : Keeper Unit :=
  Tables.keeper { extensions :=
    [(heightExtensionBytes [0x0a], heightExtension 10),
      (heightExtensionBytes [0xe7, 0x07], heightExtension 999)] }

/-- The three votes. -/
def heightCommit : ExtendedCommitInfo :=
  ⟨[⟨[1], 1, heightExtensionBytes [0xe7, 0x07]⟩, ⟨[2], 1, heightExtensionBytes [0x0a]⟩,
    ⟨[3], 1, heightExtensionBytes [0x0a]⟩]⟩

theorem heightCommit_stored : storedRoots (heightKeeper.processVoteExtensions
    ⟨.kept, fun _ => .kept⟩ 1 ⟨.empty, ()⟩ heightCommit) =
      some [⟨ascii "c", ascii "a", 999, [0xab], 3, 0, []⟩] := by
  decide

/-- The power of the votes that agree with a stored record in height and block time as well. -/
def Keeper.metadataPower (k : Keeper β) (votes : List ExtendedVoteInfo) (root : HashRoot) : ℤ :=
  (votes.map fun vote =>
    match k.decoded vote with
    | some data =>
      if data.IsFor root.key root.root ∧ data.foreignHeight = root.height ∧
        data.foreignBlockTime = root.blockTime then vote.power.toInt else 0
    | none => 0).sum

/-- The stored height is the first validator's alone: the votes that agree with it hold 1, below the threshold 2. -/
theorem heightCommit_minority_metadata :
    storedRoots (heightKeeper.processVoteExtensions ⟨.kept, fun _ => .kept⟩ 1 ⟨.empty, ()⟩
        heightCommit) = some [⟨ascii "c", ascii "a", 999, [0xab], 3, 0, []⟩] ∧
      defaultParams.quorumThreshold (heightKeeper.totalPower heightCommit.votes) = some 2 ∧
      heightKeeper.metadataPower heightCommit.votes ⟨ascii "c", ascii "a", 999, [0xab], 3, 0, []⟩ = 1 := by
  exact ⟨heightCommit_stored, by decide, by decide⟩

theorem heightCommit_first_vote :
    NonNegative heightCommit.votes ∧ ∃ s' es,
      heightKeeper.processVoteExtensions ⟨.kept, fun _ => .kept⟩ 1 ⟨.empty, ()⟩ heightCommit = .ok (s', es) ∧
      .setHashRoot ⟨ascii "c", ascii "a", 999, [0xab], 3, 0, []⟩ ∈ es ∧
      ∃ params threshold, getParams (.empty : Store) = .ok params ∧
        params.quorumThreshold (heightKeeper.totalPower heightCommit.votes) = some threshold ∧
        threshold.toInt ≤ heightKeeper.exactPower heightCommit.votes ⟨ascii "c", ascii "a"⟩ [0xab] := by
  have hpow : NonNegative heightCommit.votes := by
    unfold NonNegative
    decide
  obtain ⟨s', es, hrun, hmem⟩ := mem_storedRoots heightCommit_stored
  have hroot := (hmem _).mp mem_cons_self
  obtain ⟨params, threshold, hparams, hth, hpower, -⟩ := stored_from_first_vote hpow hrun hroot
  exact ⟨hpow, s', es, hrun, hroot, params, threshold, hparams, hth, hpower⟩

/-! ## Injected commits -/

/-- The votes of a commit that count towards a root. -/
def Keeper.counted (k : Keeper β) (commit : ExtendedCommitInfo) (root : HashRoot) : List ExtendedVoteInfo :=
  commit.votes.filter fun vote => (k.voteFor root.key root.root vote).isSome

variable {commit : ExtendedCommitInfo} {txs : List Bytes}

theorem mem_counted {root : HashRoot} {vote : ExtendedVoteInfo} :
    vote ∈ k.counted commit root ↔ vote ∈ commit.votes ∧ ∃ data, k.decoded vote = some data ∧
      data.IsFor root.key root.root := by
  simp [Keeper.counted, Keeper.voteFor, isSome_iff_exists, bind_eq_some_iff]

theorem length_counted (commit : ExtendedCommitInfo) (root : HashRoot) :
    (k.counted commit root).length = (k.votesFor commit.votes root.key root.root).length := by
  rw [Keeper.counted, Keeper.votesFor]
  induction commit.votes with
  | nil => rfl
  | cons vote votes ih =>
    cases h : k.voteFor root.key root.root vote <;> simp [h, ih]

/-- The sum that the loop makes of the powers wraps around. -/
theorem power_eq_counted (commit : ExtendedCommitInfo) (root : HashRoot) :
    (k.power commit.votes root.key root.root).toInt = (exactTotal (k.counted commit root)).bmod (2 ^ 64) := by
  rw [power_toInt, exactPower_eq_sum, Keeper.counted, exactTotal]
  refine congrArg (Int.bmod · (2 ^ 64)) ?_
  induction commit.votes with
  | nil => rfl
  | cons vote votes ih =>
    cases h : k.voteFor root.key root.root vote <;> simp [Keeper.share, h, ih]

theorem processProposal_of_injected (h : k.injectedCommit txs = some commit) : k.processProposal txs = .accept := by
  cases txs with
  | nil => rfl
  | cons =>
    simp only [Keeper.injectedCommit, List.head?_cons, bind_eq_bind, bind_some,
      bind_eq_some_iff] at h
    obtain ⟨data, hdata, hcommit⟩ := h
    simp [Keeper.processProposal, hdata, hcommit]

theorem processInjected_eq_ok {o : TallyOrder} {blockHeight : UInt64} {s s' : State β} {es : List Effect}
    {done : Bool} {root : HashRoot} (h : k.processInjectedVoteExtension o blockHeight s txs = .ok (s', es, done))
    (hroot : .setHashRoot root ∈ es) :
    ∃ commit, k.injectedCommit txs = some commit ∧ k.processVoteExtensions o blockHeight s commit = .ok (s', es) := by
  unfold Keeper.processInjectedVoteExtension at h
  cases hcommit : k.injectedCommit txs with
  | none =>
    simp only [hcommit] at h
    obtain ⟨-, rfl, -⟩ := h
    simp at hroot
  | some commit =>
    cases hrun : k.processVoteExtensions o blockHeight s commit with
    | ok r =>
      simp only [hcommit, hrun, Outcome.ok.injEq, Prod.mk.injEq] at h
      obtain ⟨hs, hes, -⟩ := h
      exact ⟨commit, rfl, by rw [hrun, ← hs, ← hes]⟩
    | error e =>
      simp only [hcommit, hrun] at h
      obtain ⟨-, rfl, -⟩ := h
      simp at hroot
    | panicked =>
      simp only [hcommit, hrun] at h
      cases h

/-- **What an injected commit is checked for.**  The proposal handler accepts every block from which a root is
stored.  The votes counted are the entries of the injected commit with an extension for the root, each once, and the
power that meets the threshold is their sum in 64 bits.  The checks of the verification handler hold for them if the
commit holds accepted extensions only; they come from different validators if it names none twice. -/
theorem injected_counted {o : TallyOrder} {blockHeight : UInt64} {s s' : State β}
    {txs : List Bytes} {es : List Effect} {done : Bool} {root : HashRoot}
    (h : k.processInjectedVoteExtension o blockHeight s txs = .ok (s', es, done))
    (hroot : .setHashRoot root ∈ es) :
    k.processProposal txs = .accept ∧ ∃ commit, k.injectedCommit txs = some commit ∧
      root.attestationCount = UInt32.ofNat (k.counted commit root).length ∧
      (∃ params threshold, getParams s.store = .ok params ∧
        params.quorumThreshold (k.totalPower commit.votes) = some threshold ∧
        threshold ≤ k.power commit.votes root.key root.root) ∧
      (k.power commit.votes root.key root.root).toInt = (exactTotal (k.counted commit root)).bmod (2 ^ 64) ∧
      (∀ vote ∈ k.counted commit root, vote.voteExtension ≠ [] ∧
        ∃ data, k.unmarshalVoteExtension vote.voteExtension = some data ∧
          data.IsFor root.key root.root) ∧
      ((∀ vote ∈ commit.votes, k.verifyVoteExtension s.store vote.voteExtension = .accept) →
        ∀ vote ∈ k.counted commit root, ∃ data, k.decoded vote = some data ∧
          k.Admissible s.store data) ∧
      ((commit.votes.map ExtendedVoteInfo.address).Nodup →
        ((k.counted commit root).map ExtendedVoteInfo.address).Nodup) := by
  obtain ⟨commit, hcommit, hrun⟩ := processInjected_eq_ok h hroot
  obtain ⟨params, threshold, key, r, v, hparams, hth, hwin, hv, rfl⟩ := written_spec hrun hroot
  obtain rfl : v.root = r := root_of_mem_votesFor (mem_of_head? hv)
  refine ⟨processProposal_of_injected hcommit, commit, hcommit, ?_,
    ⟨params, threshold, hparams, hth, hwin.1.threshold_le⟩, power_eq_counted commit _, ?_, ?_, ?_⟩
  · rw [length_counted]
    rfl
  · intro vote hvote
    obtain ⟨-, data, hdata, hfor⟩ := mem_counted.mp hvote
    unfold Keeper.decoded at hdata
    split_ifs at hdata with hext
    exact ⟨hext, data, hdata, hfor⟩
  · intro haccept vote hvote
    obtain ⟨hmem, data, hdata, -⟩ := mem_counted.mp hvote
    exact ⟨data, hdata, admissible_of_accept (haccept vote hmem) hdata⟩
  · intro hnodup
    exact hnodup.sublist (filter_sublist.map _)

/-! A proposer injects a commit in which the validator `01` votes twice for a root of the chain `c`,
which is not registered. -/

/-- The vote, twice. -/
def forgedCommit : ExtendedCommitInfo := ⟨[vote, vote]⟩
where
  vote : ExtendedVoteInfo := ⟨[1], 1, plainExtensionBytes (ascii "c") (ascii "a") [0xab]⟩

/-- The encoded votes. -/
def forgedCommitBytes : Bytes := entry ++ entry
where
  entry : Bytes := [0x12, 0x12, 0x0a, 5, 0x0a, 1, 1, 0x18, 1, 0x1a, 9] ++
    plainExtensionBytes (ascii "c") (ascii "a") [0xab]

/-- A keeper that decodes them. -/
def forgedKeeper : Keeper Unit :=
  Tables.keeper
    { extensions := [(plainExtensionBytes (ascii "c") (ascii "a") [0xab],
        plainExtension (ascii "c") (ascii "a") [0xab])]
      commits := [(forgedCommitBytes, forgedCommit)] }

/-- The block of the proposer. -/
def forgedBlock : List Bytes := [injectedVoteExtensionPrefix ++ forgedCommitBytes]

/-- The record of the root. -/
def forgedRoot : HashRoot := ⟨ascii "c", ascii "a", 0, [0xab], 2, 0, []⟩

theorem forgedBlock_stored : storedRoots (forgedKeeper.processVoteExtensions
    ⟨.kept, fun _ => .kept⟩ 1 ⟨.empty, ()⟩ forgedCommit) = some [forgedRoot] := by
  decide

theorem processInjected_of_commit {o : TallyOrder} {blockHeight : UInt64} {s s' : State β} {es : List Effect}
    (hcommit : k.injectedCommit txs = some commit)
    (hrun : k.processVoteExtensions o blockHeight s commit = .ok (s', es)) :
    k.processInjectedVoteExtension o blockHeight s txs = .ok (s', es, true) := by
  simp only [Keeper.processInjectedVoteExtension, hcommit, hrun]

/-- The proposal is accepted and the root stored, from extensions that the verification handler rejects, with the
power of one validator counted twice. -/
theorem forgedBlock_unverified :
    forgedKeeper.processProposal forgedBlock = .accept ∧
      (∃ s' es, forgedKeeper.processInjectedVoteExtension ⟨.kept, fun _ => .kept⟩ 1 ⟨.empty, ()⟩
        forgedBlock = .ok (s', es, true) ∧ .setHashRoot forgedRoot ∈ es) ∧
      (∀ vote ∈ forgedKeeper.counted forgedCommit forgedRoot,
        forgedKeeper.verifyVoteExtension .empty vote.voteExtension = .reject) ∧
      (forgedKeeper.counted forgedCommit forgedRoot).map ExtendedVoteInfo.address = [[1], [1]] := by
  obtain ⟨s', es, hrun, hmem⟩ := mem_storedRoots forgedBlock_stored
  have hcommit : forgedKeeper.injectedCommit forgedBlock = some forgedCommit := by decide
  exact ⟨by decide, ⟨s', es, processInjected_of_commit hcommit hrun, (hmem _).mp mem_cons_self⟩, by decide, by decide⟩

/-! Two validators vote for the root, and the chain is registered. -/

/-- The votes of the validators `01` and `02`. -/
def honestCommit : ExtendedCommitInfo := ⟨[forgedCommit.vote, { forgedCommit.vote with address := [2] }]⟩

/-- The encoded votes. -/
def honestCommitBytes : Bytes := forgedCommitBytes.entry ++ forgedCommitBytes.entry.set 6 2

/-- A keeper that decodes them. -/
def honestKeeper : Keeper Unit :=
  Tables.keeper
    { extensions := [(plainExtensionBytes (ascii "c") (ascii "a") [0xab],
        plainExtension (ascii "c") (ascii "a") [0xab])]
      commits := [(honestCommitBytes, honestCommit), (forgedCommitBytes.entry, ⟨[forgedCommit.vote]⟩)] }

/-- The block of a proposer that injects them. -/
def honestBlock : List Bytes := [injectedVoteExtensionPrefix ++ honestCommitBytes]

/-- A state with the chain registered. -/
def honestState : State Unit := ⟨setRegisteredChain .empty ⟨ascii "c", [], [], [], true, []⟩, ()⟩

/-- The record of the root. -/
def honestRoot : HashRoot := ⟨ascii "c", ascii "a", 0, [0xab], 2, 0, []⟩

theorem honestBlock_stored : storedRoots (honestKeeper.processVoteExtensions
    ⟨.kept, fun _ => .kept⟩ 1 honestState honestCommit) = some [honestRoot] := by
  decide

theorem honestBlock_verified :
    ∃ s' es, honestKeeper.processInjectedVoteExtension ⟨.kept, fun _ => .kept⟩ 1 honestState
        honestBlock = .ok (s', es, true) ∧
      .setHashRoot honestRoot ∈ es ∧
      (honestKeeper.power honestCommit.votes honestRoot.key honestRoot.root).toInt = (2 : ℤ).bmod (2 ^ 64) ∧
      ((honestKeeper.counted honestCommit honestRoot).map ExtendedVoteInfo.address).Nodup ∧
      ∀ vote ∈ honestKeeper.counted honestCommit honestRoot, ∃ data, honestKeeper.decoded vote = some data ∧
          honestKeeper.Admissible honestState.store data := by
  obtain ⟨s', es, hrun, hmem⟩ := mem_storedRoots honestBlock_stored
  have hcommit : honestKeeper.injectedCommit honestBlock = some honestCommit := by decide
  have h := processInjected_of_commit hcommit hrun
  have hroot := (hmem _).mp mem_cons_self
  obtain ⟨-, commit, hcommit', -, -, hpower, -, hverified, hnodup⟩ := injected_counted h hroot
  obtain rfl : honestCommit = commit := Option.some.inj (hcommit.symm.trans hcommit')
  exact ⟨s', es, h, hroot, hpower, hnodup (by decide), hverified (by decide)⟩

end Hashmerchant
