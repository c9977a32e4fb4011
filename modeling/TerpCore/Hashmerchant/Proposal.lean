/-
  Block proposals: the last commit, with its vote extensions, is put in front of the transactions.
-/
import TerpCore.Hashmerchant.Provenance

namespace Hashmerchant

open Lib

variable {β : Type}

structure RequestPrepareProposal where
  maxTxBytes : Int64
  txs : List Bytes
  localLastCommit : ExtendedCommitInfo
  /-- `LocalLastCommit.Marshal()`; `none` is an error -/
  commitBytes : Option Bytes

def RequestPrepareProposal.hasExtensions (req : RequestPrepareProposal) : Bool :=
  req.localLastCommit.votes.any fun v => v.voteExtension ≠ []

def prepareProposal (req : RequestPrepareProposal) : List Bytes :=
  if !req.hasExtensions then req.txs
  else match req.commitBytes with
    | none => req.txs
    | some bz => (injectedVoteExtensionPrefix ++ bz) :: req.txs

def txBytes (txs : List Bytes) : ℤ := (txs.map fun tx => (tx.length : ℤ)).sum

/-- What a proposal has to meet: it fits, it is at most a commit followed by transactions of the request in their
order, and the other validators accept it. -/
structure Proposable (k : Keeper β) (req : RequestPrepareProposal) (txs : List Bytes) : Prop where
  fits : txBytes txs ≤ req.maxTxBytes.toInt
  shape : ∃ injected rest, txs = injected ++ rest ∧ injected.length ≤ 1 ∧
    (∀ tx ∈ injected, injectedVoteExtensionPrefix <+: tx) ∧ rest.Sublist req.txs
  accepted : k.processProposal txs = .accept

/-- There is room for the commit, if one is put in. -/
def RequestPrepareProposal.HasRoom (req : RequestPrepareProposal) : Prop :=
  req.hasExtensions = true → ∀ bz, req.commitBytes = some bz →
    4 + bz.length + txBytes req.txs ≤ req.maxTxBytes.toInt

theorem processProposal_of_plain {k : Keeper β} {txs : List Bytes}
    (h : ∀ tx ∈ txs, ¬ injectedVoteExtensionPrefix <+: tx) : k.processProposal txs = .accept := by
  cases txs with
  | nil => rfl
  | cons tx txs =>
    have hnone : tx.dropPrefix? injectedVoteExtensionPrefix = none := by
      rw [Option.eq_none_iff_forall_ne_some]
      intro data hdata
      rw [KVStore.dropPrefix?_eq_some] at hdata
      exact h tx (by simp) ⟨data, hdata.symm⟩
    simp only [Keeper.processProposal, hnone]

/-- A proposal is in order exactly if there is room for the commit that is put in. -/
theorem proposable_iff (k : Keeper β) (req : RequestPrepareProposal) (hsize : txBytes req.txs ≤ req.maxTxBytes.toInt)
    (hplain : ∀ tx ∈ req.txs, ¬ injectedVoteExtensionPrefix <+: tx)
    (hcodec : ∀ bz, req.commitBytes = some bz → k.unmarshalCommit bz = some req.localLastCommit) :
    Proposable k req (prepareProposal req) ↔ req.HasRoom := by
  have hsame : Proposable k req req.txs :=
    ⟨hsize, ⟨[], req.txs, rfl, Nat.zero_le 1, by simp, List.Sublist.refl _⟩, processProposal_of_plain hplain⟩
  unfold prepareProposal RequestPrepareProposal.HasRoom
  cases hext : req.hasExtensions with
  | false => simpa using hsame
  | true =>
    cases hbz : req.commitBytes with
    | none => simpa using hsame
    | some bz =>
      have hlength : txBytes ((injectedVoteExtensionPrefix ++ bz) :: req.txs) = 4 + bz.length + txBytes req.txs := by
        simp [txBytes, injectedVoteExtensionPrefix]
        omega
      have hcommit : k.injectedCommit ((injectedVoteExtensionPrefix ++ bz) :: req.txs) = some req.localLastCommit := by
        have hdrop : (injectedVoteExtensionPrefix ++ bz).dropPrefix? injectedVoteExtensionPrefix =
            some bz := KVStore.dropPrefix?_eq_some.mpr rfl
        simp [Keeper.injectedCommit, hdrop, hcodec bz hbz]
      simp only [Option.some.injEq, forall_eq', true_imp_iff]
      constructor
      · intro h
        rw [← hlength]
        exact h.fits
      · intro hroom
        refine ⟨hlength.trans_le hroom, ⟨[injectedVoteExtensionPrefix ++ bz], req.txs, rfl, le_rfl, ?_,
          List.Sublist.refl _⟩, processProposal_of_injected hcommit⟩
        intro tx htx
        rw [List.mem_singleton.mp htx]
        exact List.prefix_append _ _

/-! A mempool transaction of ten bytes and a commit with one extension. -/

def fullRequest (maxTxBytes : Int64) : RequestPrepareProposal where
  maxTxBytes := maxTxBytes
  txs := [List.replicate 10 0]
  localLastCommit := ⟨[forgedCommit.vote]⟩
  commitBytes := some forgedCommitBytes.entry

/-- The transaction fills the block, and the commit is put in front of it. -/
theorem fullRequest_not_proposable :
    txBytes (fullRequest 10).txs = 10 ∧ txBytes (prepareProposal (fullRequest 10)) = 34 ∧
      ¬ Proposable honestKeeper (fullRequest 10) (prepareProposal (fullRequest 10)) := by
  have hbytes : txBytes (prepareProposal (fullRequest 10)) = 34 := by decide
  refine ⟨by decide, hbytes, fun h => ?_⟩
  have hfits := h.fits
  exact absurd hfits (by decide)

theorem fullRequest_proposable :
    txBytes (fullRequest 34).txs ≤ 34 ∧ (fullRequest 34).HasRoom ∧
      Proposable honestKeeper (fullRequest 34) (prepareProposal (fullRequest 34)) := by
  have hroom : (fullRequest 34).HasRoom := by
    intro _ bz hbz
    rw [← Option.some.inj hbz]
    decide
  refine ⟨by decide, hroom, (proposable_iff honestKeeper _ (by decide) (by decide) ?_).mpr hroom⟩
  intro bz hbz
  rw [← Option.some.inj hbz]
  decide

end Hashmerchant
