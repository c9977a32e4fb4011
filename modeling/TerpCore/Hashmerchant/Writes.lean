/-
  What the write loop leaves behind: one stored root for each winner, filled from its first vote, and
  callbacks that carry the attestations of the root they follow.
-/
import TerpCore.Hashmerchant.Winners

namespace Hashmerchant

open Lib Outcome List Keeper

variable {β : Type} {k : Keeper β}

/-! ## Callbacks -/

/-- The callbacks for a root store nothing and send the payload of the root. -/
def CallsOnly (payload : HashMerchantSudoPayload) (es : List Effect) : Prop :=
  ∀ e ∈ es, ∃ contract, e = .sudoCall contract payload

variable {blockHeight : UInt64} {root : HashRoot} {atts : List OracleAttestation} {threshold : Int64}

theorem dispatchTo_callsOnly {limit : UInt64} {s s' : State β} {c : RegisteredContract} {es : List Effect}
    (h : k.dispatchTo blockHeight limit root atts s c = .ok (s', es)) :
    CallsOnly (k.sudoPayload root atts) es := by
  unfold dispatchTo at h
  split_ifs at h with hskip
  · cases h
    simp [CallsOnly]
  split at h
  · split_ifs at h with hpaid
    · cases h
      simp [CallsOnly]
    split at h
    · cases h
      simp [CallsOnly]
    · obtain ⟨s₁, -, h⟩ := bind_eq_ok.mp h
      cases h
      simp [CallsOnly]
  · cases h
    simp [CallsOnly]

theorem dispatchEach_callsOnly {limit : UInt64} : ∀ {s s' : State β} {cs : List RegisteredContract}
    {es : List Effect}, k.dispatchEach blockHeight limit root atts s cs = .ok (s', es) →
    CallsOnly (k.sudoPayload root atts) es
  | s, s', [], es, h => by
    cases h
    simp [CallsOnly]
  | s, s', c :: cs, es, h => by
    obtain ⟨⟨s₁, es₁⟩, h₁, h⟩ := bind_eq_ok.mp h
    obtain ⟨⟨s₂, es₂⟩, h₂, h⟩ := bind_eq_ok.mp h
    cases h
    intro e he
    rcases mem_append.mp he with he | he
    · exact dispatchTo_callsOnly h₁ e he
    · exact dispatchEach_callsOnly h₂ e he

/-! ## Winners -/

/-- What a winner leaves behind: its root, the calls that carry it, and the event. -/
structure Wrote (k : Keeper β) (w : Winner) (es : List Effect) : Prop where
  votes_ne : w.votes ≠ []
  effects : ∃ v, w.votes.head? = some v ∧ ∃ calls,
    CallsOnly (k.sudoPayload (k.hashRootOf w v) (k.hashRootOf w v).attestations) calls ∧
    es = .setHashRoot (k.hashRootOf w v) :: calls ++
      [.rootConfirmed w.key.chainUID w.key.algo w.votes.length]

theorem writeWinner_wrote {s s' : State β} {w : Winner} {es : List Effect}
    (h : k.writeWinner blockHeight s w = .ok (s', es)) : Wrote k w es := by
  unfold writeWinner at h
  split at h
  · cases h
  · rename_i v vs hv
    obtain ⟨⟨s₁, calls⟩, h₁, h⟩ := bind_eq_ok.mp h
    cases h
    exact ⟨by simp [hv], v, by simp [hv], calls, dispatchEach_callsOnly h₁, rfl⟩

/-- Every winner of a completed loop wrote its root, and every effect belongs to a winner. -/
theorem writeWinners_wrote : ∀ {s s' : State β} {ws : List Winner}
    {es : List Effect}, k.writeWinners blockHeight s ws = .ok (s', es) →
    (∀ w ∈ ws, ∃ es₁, Wrote k w es₁ ∧ ∀ e ∈ es₁, e ∈ es) ∧
      ∀ e ∈ es, ∃ w ∈ ws, ∃ es₁, Wrote k w es₁ ∧ e ∈ es₁ ∧ ∀ e ∈ es₁, e ∈ es
  | s, s', [], es, h => by
    cases h
    simp
  | s, s', w :: ws, es, h => by
    obtain ⟨⟨s₁, es₁⟩, h₁, h⟩ := bind_eq_ok.mp h
    obtain ⟨⟨s₂, es₂⟩, h₂, h⟩ := bind_eq_ok.mp h
    cases h
    have hw := writeWinner_wrote h₁
    obtain ⟨hall, hfrom⟩ := writeWinners_wrote h₂
    have hleft : ∀ e ∈ es₁, e ∈ es₁ ++ es₂ := fun e he => mem_append_left _ he
    have hright : ∀ e ∈ es₂, e ∈ es₁ ++ es₂ := fun e he => mem_append_right _ he
    constructor
    · intro w' hw'
      rcases mem_cons.mp hw' with rfl | hw'
      · exact ⟨es₁, hw, hleft⟩
      · obtain ⟨es', hes', hsub⟩ := hall w' hw'
        exact ⟨es', hes', fun e he => hright e (hsub e he)⟩
    · intro e he
      rcases mem_append.mp he with he | he
      · exact ⟨w, by simp, es₁, hw, he, hleft⟩
      · obtain ⟨w', hw', es', hes', he', hsub⟩ := hfrom e he
        exact ⟨w', by simp [hw'], es', hes', he', fun e he => hright e (hsub e he)⟩

/-! ## Whole calls -/

variable {o : TallyOrder} {blockHeight : UInt64} {s s' : State β} {commit : ExtendedCommitInfo}
variable {es : List Effect}

theorem mem_selectWinners {tally : Tally} {w : Winner} :
    w ∈ k.selectWinners o threshold tally ↔ w ∈ collectWinners o threshold tally :=
  (k.sliceSort.perm _ _).mem_iff

theorem processVoteExtensions_eq_ok :
    k.processVoteExtensions o blockHeight s commit = .ok (s', es) ↔ ∃ params threshold, getParams s.store = .ok params ∧
        params.quorumThreshold (k.totalPower commit.votes) = some threshold ∧
        k.writeWinners blockHeight s (k.selectWinners o threshold (k.tally commit.votes)) = .ok (s', es) := by
  simp only [processVoteExtensions, bind_eq_ok, ofOption_eq_ok]
  constructor
  · rintro ⟨params, hparams, threshold, hth, hws⟩
    exact ⟨params, threshold, hparams, hth, hws⟩
  · rintro ⟨params, threshold, hparams, hth, hws⟩
    exact ⟨params, hparams, threshold, hth, hws⟩

theorem not_unmet_of_ok (hth : ∀ params, getParams s.store = .ok params →
      params.quorumThreshold (k.totalPower commit.votes) = some threshold)
    (h : k.processVoteExtensions o blockHeight s commit = .ok (s', es)) (key : TallyKey) :
    ¬ k.Unmet commit.votes threshold key := by
  intro hunmet
  obtain ⟨params, threshold', hparams, hth', hws⟩ := processVoteExtensions_eq_ok.mp h
  obtain rfl : threshold = threshold' := Option.some.inj ((hth params hparams).symm.trans hth')
  have hzero := mem_selectWinners (k := k).mpr (zeroWinner_mem_iff (o := o).mpr ⟨key, hunmet⟩)
  obtain ⟨es₁, hwrote, -⟩ := (writeWinners_wrote hws).1 _ hzero
  exact hwrote.votes_ne rfl

/-- **Every stored root** is the record of a root that can win, filled from its first vote. -/
theorem written_spec (h : k.processVoteExtensions o blockHeight s commit = .ok (s', es))
    (hroot : .setHashRoot root ∈ es) :
    ∃ params threshold key r v, getParams s.store = .ok params ∧
      params.quorumThreshold (k.totalPower commit.votes) = some threshold ∧
      k.CanWin commit.votes threshold key r ∧
      (k.votesFor commit.votes key r).head? = some v ∧
      root = k.hashRootOf (k.winnerOf commit.votes key r) v := by
  obtain ⟨params, threshold, hparams, hth, hws⟩ := processVoteExtensions_eq_ok.mp h
  obtain ⟨w, hw, es₁, hwrote, he, -⟩ := (writeWinners_wrote hws).2 _ hroot
  obtain ⟨hne, v, hv, calls, hcalls, rfl⟩ := hwrote
  have hwroot : root = k.hashRootOf w v := by
    rcases mem_append.mp he with he | he
    · rcases mem_cons.mp he with he | he
      · exact Effect.setHashRoot.inj he
      · obtain ⟨contract, hcall⟩ := hcalls _ he
        cases hcall
    · simp at he
  have hcollect := mem_selectWinners.mp hw
  rcases winner_cases hcollect with ⟨key, r, hlead, rfl⟩ | ⟨rfl, -⟩
  · have hwin := exists_order_iff_canWin.mp ⟨⟨o, hcollect⟩, hlead.voted⟩
    exact ⟨params, threshold, key, r, v, hparams, hth, hwin, hv, hwroot⟩
  · exact absurd rfl hne

theorem sudoCall_spec {contract : Bytes} {payload : HashMerchantSudoPayload}
    (h : k.processVoteExtensions o blockHeight s commit = .ok (s', es))
    (hcall : .sudoCall contract payload ∈ es) :
    ∃ root, .setHashRoot root ∈ es ∧ payload = k.sudoPayload root root.attestations := by
  obtain ⟨params, threshold, hparams, hth, hws⟩ := processVoteExtensions_eq_ok.mp h
  obtain ⟨w, hw, es₁, ⟨hne, v, hv, calls, hcalls, rfl⟩, he, hsub⟩ := (writeWinners_wrote hws).2 _ hcall
  refine ⟨k.hashRootOf w v, hsub _ (by simp), ?_⟩
  rcases mem_append.mp he with he | he
  · rcases mem_cons.mp he with he | he
    · cases he
    · obtain ⟨contract', heq⟩ := hcalls _ he
      exact (Effect.sudoCall.inj heq).2
  · simp at he

/-- The roots a call stores, in order; `none` if it does not complete. -/
def storedRoots (x : Outcome Err (State β × List Effect)) : Option (List HashRoot) :=
  match x with
  | .ok (_, es) => some (es.filterMap fun
      | .setHashRoot root => some root
      | _ => none)
  | _ => none

theorem mem_storedRoots {x : Outcome Err (State β × List Effect)} {roots : List HashRoot}
    (h : storedRoots x = some roots) :
    ∃ s' es, x = .ok (s', es) ∧ ∀ root, root ∈ roots ↔ .setHashRoot root ∈ es := by
  cases x with
  | ok r =>
    obtain ⟨s', es⟩ := r
    refine ⟨s', es, rfl, fun root => ?_⟩
    rw [← Option.some.inj h, mem_filterMap]
    constructor
    · rintro ⟨e, he, hroot⟩
      cases e <;> simp_all
    · intro he
      exact ⟨_, he, rfl⟩
  | error | panicked => cases h

/-! ## Calls that complete -/

theorem writeWinners_cons {s₁ s₂ : State β} {w : Winner} {ws : List Winner} {es₁ es₂ : List Effect}
    (h₁ : k.writeWinner blockHeight s w = .ok (s₁, es₁))
    (h₂ : k.writeWinners blockHeight s₁ ws = .ok (s₂, es₂)) :
    k.writeWinners blockHeight s (w :: ws) = .ok (s₂, es₁ ++ es₂) := by
  simp only [writeWinners, h₁, h₂, ok_bind]

section failing

variable (hsudo : ∀ s c p g, k.wasmSudo s c p g = .error)
include hsudo

theorem sudoBounded_of_failing (s : State β) (contract : Bytes) (payload : HashMerchantSudoPayload)
    (limit : UInt64) : k.sudoBounded s contract payload limit = .ok s := by
  simp [sudoBounded, hsudo]

theorem dispatchTo_of_failing (blockHeight limit : UInt64) (root : HashRoot)
    (atts : List OracleAttestation) (s : State β) (c : RegisteredContract) :
    ∃ es, k.dispatchTo blockHeight limit root atts s c = .ok (s, es) := by
  unfold dispatchTo
  split_ifs with hskip
  · exact ⟨[], rfl⟩
  split
  · split_ifs with hpaid
    · exact ⟨[], rfl⟩
    split
    · exact ⟨[], rfl⟩
    · simp [sudoBounded_of_failing hsudo]
  · exact ⟨[], rfl⟩

theorem dispatchEach_of_failing (blockHeight limit : UInt64) (root : HashRoot)
    (atts : List OracleAttestation) (s : State β) : ∀ cs : List RegisteredContract,
    ∃ es, k.dispatchEach blockHeight limit root atts s cs = .ok (s, es)
  | [] => ⟨[], rfl⟩
  | c :: cs => by
    obtain ⟨es₁, h₁⟩ := dispatchTo_of_failing hsudo blockHeight limit root atts s c
    obtain ⟨es₂, h₂⟩ := dispatchEach_of_failing blockHeight limit root atts s cs
    exact ⟨es₁ ++ es₂, by simp only [dispatchEach, h₁, h₂, ok_bind]⟩

theorem writeWinner_of_failing (blockHeight : UInt64) (s : State β) (w : Winner)
    (hne : w.votes ≠ []) : ∃ s' es, k.writeWinner blockHeight s w = .ok (s', es) := by
  unfold writeWinner
  split
  · contradiction
  · rename_i v vs hv
    simp only [dispatchSudoCallbacks]
    obtain ⟨es, h⟩ := dispatchEach_of_failing hsudo blockHeight _ (k.hashRootOf w v)
      (k.hashRootOf w v).attestations { s with store := setHashRoot s.store (k.hashRootOf w v) }
      (registeredContracts (setHashRoot s.store (k.hashRootOf w v)))
    exact ⟨_, _, by rw [h]; rfl⟩

theorem writeWinners_of_failing (blockHeight : UInt64) : ∀ (s : State β) (ws : List Winner),
    (∀ w ∈ ws, w.votes ≠ []) → ∃ s' es, k.writeWinners blockHeight s ws = .ok (s', es)
  | s, [], _ => ⟨s, [], rfl⟩
  | s, w :: ws, hne => by
    obtain ⟨s₁, es₁, h₁⟩ := writeWinner_of_failing hsudo blockHeight s w (hne w (by simp))
    obtain ⟨s₂, es₂, h₂⟩ := writeWinners_of_failing blockHeight s₁ ws fun w' hw' => hne w' (by simp [hw'])
    exact ⟨s₂, _, writeWinners_cons h₁ h₂⟩

end failing

/-! ## A state without contracts -/

theorem registeredContracts_setHashRoot (s : Store) (r : HashRoot) :
    registeredContracts (setHashRoot s r) = registeredContracts s := by
  rw [registeredContracts, registeredContracts, setHashRoot, KVStore.iterator_set_of_ne]
  intro key h
  simp [keyHashRoot, keyPrefixHashRoots, keyPrefixRegisteredContracts] at h

theorem writeWinners_of_noContracts (blockHeight : UInt64) : ∀ (s : State β) (ws : List Winner),
    registeredContracts s.store = [] → (∀ w ∈ ws, w.votes ≠ []) →
    ∃ s' es, k.writeWinners blockHeight s ws = .ok (s', es)
  | s, [], _, _ => ⟨s, [], rfl⟩
  | s, w :: ws, hs, hne => by
    obtain ⟨v, vs, hv⟩ := exists_cons_of_ne_nil (hne w (by simp))
    have hw : k.writeWinner blockHeight s w =
        .ok ({ s with store := setHashRoot s.store (k.hashRootOf w v) },
          [.setHashRoot (k.hashRootOf w v),
            .rootConfirmed w.key.chainUID w.key.algo w.votes.length]) := by
      rw [writeWinner, hv]
      simp [dispatchSudoCallbacks, registeredContracts_setHashRoot, hs, dispatchEach]
    obtain ⟨s₂, es₂, h₂⟩ := writeWinners_of_noContracts blockHeight
      { s with store := setHashRoot s.store (k.hashRootOf w v) } ws
      ((registeredContracts_setHashRoot _ _).trans hs) fun w' hw' => hne w' (by simp [hw'])
    exact ⟨s₂, _, writeWinners_cons hw h₂⟩

theorem written_of_winner {key : TallyKey} {r : Bytes} {params : Params} (hparams : getParams s.store = .ok params)
    (hth : params.quorumThreshold (k.totalPower commit.votes) = some threshold)
    (h : k.processVoteExtensions o blockHeight s commit = .ok (s', es))
    (hw : k.winnerOf commit.votes key r ∈ collectWinners o threshold (k.tally commit.votes)) :
    ∃ v, (k.votesFor commit.votes key r).head? = some v ∧
      .setHashRoot (k.hashRootOf (k.winnerOf commit.votes key r) v) ∈ es := by
  obtain ⟨params', threshold', hparams', hth', hws⟩ := processVoteExtensions_eq_ok.mp h
  obtain rfl : params = params' := ok.inj (hparams.symm.trans hparams')
  obtain rfl : threshold = threshold' := Option.some.inj (hth.symm.trans hth')
  obtain ⟨es₁, ⟨-, v, hv, calls, -, rfl⟩, hsub⟩ :=
    (writeWinners_wrote hws).1 _ (mem_selectWinners.mpr hw)
  exact ⟨v, hv, hsub _ (by simp)⟩

theorem votes_ne_of_winner {votes : List ExtendedVoteInfo} (hmet : ∀ key, ¬ k.Unmet votes threshold key) :
    ∀ w ∈ k.selectWinners o threshold (k.tally votes), w.votes ≠ [] := by
  intro w hw
  rcases winner_cases (mem_selectWinners.mp hw) with ⟨key, root, hlead, rfl⟩ | ⟨-, key, hunmet⟩
  · exact hlead.voted
  · exact absurd hunmet (hmet key)

/-- **A root that can win is stored by some run** of a commit without unmet keys. -/
theorem exists_run_of_canWin [Inhabited β] {key : TallyKey} {r : Bytes} {params : Params}
    (hth : params.quorumThreshold (k.totalPower commit.votes) = some threshold)
    (hmet : ∀ key, ¬ k.Unmet commit.votes threshold key) (h : k.CanWin commit.votes threshold key r) :
    ∃ o blockHeight s s' es root, getParams s.store = .ok params ∧
      k.processVoteExtensions o blockHeight s commit = .ok (s', es) ∧ .setHashRoot root ∈ es ∧
      root.chainUid = key.chainUID ∧ root.algo = key.algo ∧ root.root = r := by
  obtain ⟨⟨o, ho⟩, hvoted⟩ := exists_order_iff_canWin.mpr h
  let s : State β := ⟨setParams .empty params, default⟩
  have hparams : getParams s.store = .ok params := by simp [s, getParams, setParams]
  have hcontracts : registeredContracts s.store = [] := by
    refine filterMap_eq_nil_iff.mpr ?_
    rintro ⟨key', v⟩ hmem
    simp [s, setParams, KVStore.get_set, keyPrefixParams, keyPrefixRegisteredContracts] at hmem
  obtain ⟨s', es, hws⟩ := writeWinners_of_noContracts 0 s
    (k.selectWinners o threshold (k.tally commit.votes)) hcontracts (votes_ne_of_winner hmet)
  have hrun := processVoteExtensions_eq_ok.mpr ⟨params, threshold, hparams, hth, hws⟩
  obtain ⟨v, hv, hmem⟩ := written_of_winner hparams hth hrun ho
  exact ⟨o, 0, s, s', es, _, hparams, hrun, hmem, rfl, rfl, root_of_mem_votesFor (mem_of_head? hv)⟩

end Hashmerchant
