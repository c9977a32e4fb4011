/-
  What the quorum check guarantees.
-/
import TerpCore.Hashmerchant.Writes
import TerpCore.Lib.Machine
import Mathlib.Tactic.Linarith

namespace Hashmerchant

open Lib Outcome List LegacyDec Option

variable {β : Type} (k : Keeper β)

/-! ## Exact powers -/

/-- The power of a commit. -/
def exactTotal (votes : List ExtendedVoteInfo) : ℤ := (votes.map fun v => v.power.toInt).sum

/-- The power of the votes for a root. -/
def Keeper.exactPower (votes : List ExtendedVoteInfo) (key : TallyKey) (root : Bytes) : ℤ :=
  ((k.votesFor votes key root).map fun v => v.votingPower.toInt).sum

/-- What one vote adds to the power of a root. -/
def Keeper.share (key : TallyKey) (root : Bytes) (vote : ExtendedVoteInfo) : ℤ :=
  if (k.voteFor key root vote).isSome then vote.power.toInt else 0

variable {k}
variable {votes : List ExtendedVoteInfo} {key : TallyKey} {root root' : Bytes}

theorem votingPower_of_voteFor {vote : ExtendedVoteInfo} {v : RootVote}
    (h : k.voteFor key root vote = some v) : v.votingPower = vote.power := by
  obtain ⟨data, -, hv⟩ := bind_eq_some_iff.mp h
  obtain ⟨-, hv⟩ := ite_none_right_eq_some.mp hv
  rw [← Option.some.inj hv]
  rfl

theorem exactPower_eq_sum (votes : List ExtendedVoteInfo) (key : TallyKey) (root : Bytes) :
    k.exactPower votes key root = (votes.map (k.share key root)).sum := by
  induction votes with
  | nil => rfl
  | cons vote votes ih =>
    rw [map_cons, sum_cons, ← ih]
    cases h : k.voteFor key root vote with
    | none => simp [Keeper.exactPower, Keeper.votesFor, Keeper.share, h]
    | some v => simp [Keeper.exactPower, Keeper.votesFor, Keeper.share, h, votingPower_of_voteFor h]

theorem root_eq_of_voteFor {vote : ExtendedVoteInfo} (h : (k.voteFor key root vote).isSome)
    (h' : (k.voteFor key root' vote).isSome) : root = root' := by
  obtain ⟨v, hv⟩ := isSome_iff_exists.mp h
  obtain ⟨v', hv'⟩ := isSome_iff_exists.mp h'
  obtain ⟨data, hdata, hfor⟩ := bind_eq_some_iff.mp hv
  obtain ⟨data', hdata', hfor'⟩ := bind_eq_some_iff.mp hv'
  obtain rfl : data = data' := Option.some.inj (hdata.symm.trans hdata')
  obtain ⟨⟨-, -, rfl⟩, -⟩ := ite_none_right_eq_some.mp hfor
  obtain ⟨⟨-, -, rfl⟩, -⟩ := ite_none_right_eq_some.mp hfor'
  rfl

/-- No vote has a negative power. -/
def NonNegative (votes : List ExtendedVoteInfo) : Prop := ∀ v ∈ votes, 0 ≤ v.power

section

variable (hpow : NonNegative votes)

include hpow

theorem toInt_nonneg {v : ExtendedVoteInfo} (hv : v ∈ votes) : 0 ≤ v.power.toInt := by
  have := Int64.le_iff_toInt_le.mp (hpow v hv)
  rwa [Int64.toInt_zero] at this

theorem exactPower_nonneg : 0 ≤ k.exactPower votes key root := by
  rw [exactPower_eq_sum]
  refine sum_nonneg fun x hx => ?_
  obtain ⟨v, hv, rfl⟩ := mem_map.mp hx
  rw [Keeper.share]
  split_ifs
  · exact toInt_nonneg hpow hv
  · exact le_rfl

/-- Two roots of a key share the total power. -/
theorem exactPower_add_le (hne : root ≠ root') :
    k.exactPower votes key root + k.exactPower votes key root' ≤ exactTotal votes := by
  rw [exactPower_eq_sum, exactPower_eq_sum, ← sum_map_add]
  refine sum_le_sum fun v hv => ?_
  have hnonneg := toInt_nonneg hpow hv
  simp only [Keeper.share]
  split_ifs with h h'
  · exact absurd (root_eq_of_voteFor h h') hne
  all_goals omega

theorem exactPower_le_total : k.exactPower votes key root ≤ exactTotal votes := by
  rw [exactPower_eq_sum]
  refine sum_le_sum fun v hv => ?_
  have hnonneg := toInt_nonneg hpow hv
  rw [Keeper.share]
  split_ifs <;> omega

end

/-! ## The sums of the loop -/

theorem power_toInt : (k.power votes key root).toInt = (k.exactPower votes key root).bmod (2 ^ 64) :=
  toInt_foldl_add_zero _ _

theorem totalPower_eq (votes : List ExtendedVoteInfo) :
    k.totalPower votes = votes.foldl (fun acc v => acc + v.power) 0 := by
  induction votes using List.reverseRecOn with
  | nil => rfl
  | append_singleton votes vote ih => rw [totalPower_append_singleton, ih, foldl_concat]

theorem totalPower_toInt : (k.totalPower votes).toInt = (exactTotal votes).bmod (2 ^ 64) := by
  rw [totalPower_eq]
  exact toInt_foldl_add_zero _ _

/-- The power of the commit fits in an `int64`. -/
def InRange (votes : List ExtendedVoteInfo) : Prop := exactTotal votes < 2 ^ 63

theorem power_toInt_of_inRange (hpow : NonNegative votes) (hT : InRange votes) :
    (k.power votes key root).toInt = k.exactPower votes key root := by
  have h0 : 0 ≤ k.exactPower votes key root := exactPower_nonneg hpow
  have h1 : k.exactPower votes key root ≤ exactTotal votes := exactPower_le_total hpow
  unfold InRange at hT
  rw [power_toInt, bmod_eq_self (by omega) (by omega)]

theorem exactTotal_nonneg (hpow : NonNegative votes) : 0 ≤ exactTotal votes := by
  refine sum_nonneg fun x hx => ?_
  obtain ⟨v, hv, rfl⟩ := mem_map.mp hx
  exact toInt_nonneg hpow hv

theorem totalPower_toInt_of_inRange (hpow : NonNegative votes) (hT : InRange votes) :
    (k.totalPower votes).toInt = exactTotal votes := by
  have h0 := exactTotal_nonneg hpow
  unfold InRange at hT
  rw [totalPower_toInt, bmod_eq_self (by omega) (by omega)]

/-! ## The threshold -/

variable {params : Params}

theorem fraction_of_validate (hvalid : params.validate = .ok ()) :
    0 ≤ params.quorumFraction.num ∧ params.quorumFraction.num ≤ unit := by
  obtain ⟨_, h, _⟩ := bind_eq_ok.mp hvalid
  simpa using h

theorem quorumThreshold_eq (hvalid : params.validate = .ok ()) (t : Int64) :
    ∃ threshold, params.quorumThreshold t = some threshold ∧
      threshold.toInt = (params.quorumFraction.num * t.toInt).tdiv unit := by
  obtain ⟨h0, h1⟩ := fraction_of_validate hvalid
  obtain ⟨threshold, hth, hval⟩ := int64_of_fraction h0 h1 t
  refine ⟨threshold, ?_, hval⟩
  simp [Params.quorumThreshold, mulInt64_of_fraction h0 h1, truncateInt_of_fraction h0 h1, hth]

/-- The truncated fraction of the total power. -/
def quorumFloor (params : Params) (votes : List ExtendedVoteInfo) : ℤ :=
  params.quorumFraction.num * exactTotal votes / unit

theorem quorumThreshold_of_inRange (hvalid : params.validate = .ok ()) (hpow : NonNegative votes) (hT : InRange votes) :
    ∃ threshold, params.quorumThreshold (k.totalPower votes) = some threshold ∧
      threshold.toInt = quorumFloor params votes := by
  obtain ⟨threshold, hth, hval⟩ := quorumThreshold_eq hvalid (k.totalPower votes)
  refine ⟨threshold, hth, ?_⟩
  have hprod : 0 ≤ params.quorumFraction.num * exactTotal votes :=
    mul_nonneg (fraction_of_validate hvalid).1 (exactTotal_nonneg hpow)
  rw [hval, totalPower_toInt_of_inRange hpow hT, Int.tdiv_eq_ediv_of_nonneg hprod, quorumFloor]

/-! ## Soundness -/

/-- A root with votes whose sum, as the loop makes it, meets the threshold. -/
def Keeper.Meets (k : Keeper β) (votes : List ExtendedVoteInfo) (threshold : Int64) (key : TallyKey)
    (root : Bytes) : Prop :=
  k.votesFor votes key root ≠ [] ∧ threshold ≤ k.power votes key root

/-- Every stored root has at least the fraction of the total power, as exact rationals, and with a
fraction above one half no two roots of a (chain, algo) meet the threshold. -/
structure QuorumSound (k : Keeper β) (params : Params) (commit : ExtendedCommitInfo) : Prop where
  written : ∀ o blockHeight s s' es root, getParams s.store = .ok params →
    k.processVoteExtensions o blockHeight s commit = .ok (s', es) → .setHashRoot root ∈ es →
    params.quorumFraction.toRat * exactTotal commit.votes ≤
      k.exactPower commit.votes ⟨root.chainUid, root.algo⟩ root.root
  unique : 1 / 2 < params.quorumFraction.toRat → ∀ threshold,
    params.quorumThreshold (k.totalPower commit.votes) = some threshold →
    ∀ key root root', k.Meets commit.votes threshold key root →
      k.Meets commit.votes threshold key root' → root = root'

/-- The condition on the powers: the fraction of the total is an integer, or each root with exactly the truncated
power is outvoted, by a fraction of at most one half; and above one half, a total of zero leaves no two roots. -/
structure ExactQuorum (k : Keeper β) (params : Params) (votes : List ExtendedVoteInfo) : Prop where
  floor : unit ∣ params.quorumFraction.num * exactTotal votes ∨
    ∀ key root, k.votesFor votes key root ≠ [] →
      k.exactPower votes key root = quorumFloor params votes →
      params.quorumFraction.toRat ≤ 1 / 2 ∧
        ∃ root', k.exactPower votes key root < k.exactPower votes key root'
  total : 1 / 2 < params.quorumFraction.toRat → 0 < exactTotal votes ∨
    ∀ key root root', k.votesFor votes key root ≠ [] → k.votesFor votes key root' ≠ [] → root = root'

/-- What soundness comes to for a threshold, with sums that may have wrapped around: no root that can win falls short
of the fraction, unless the call panics, and above one half no two roots meet the threshold. -/
structure WrappedQuorum (k : Keeper β) (params : Params) (votes : List ExtendedVoteInfo)
    (threshold : Int64) : Prop where
  written : (∃ key, k.Unmet votes threshold key) ∨ ∀ key root, k.CanWin votes threshold key root →
    params.quorumFraction.toRat * exactTotal votes ≤ k.exactPower votes key root
  unique : 1 / 2 < params.quorumFraction.toRat → ∀ key root root',
    k.Meets votes threshold key root → k.Meets votes threshold key root' → root = root'

variable {threshold : Int64} {commit : ExtendedCommitInfo}

theorem quorumSound_iff_wrapped [Inhabited β]
    (hth : params.quorumThreshold (k.totalPower commit.votes) = some threshold) :
    QuorumSound k params commit ↔ WrappedQuorum k params commit.votes threshold := by
  constructor
  · intro hsound
    refine ⟨?_, fun hhalf => hsound.unique hhalf threshold hth⟩
    by_cases hunmet : ∃ key, k.Unmet commit.votes threshold key
    · exact .inl hunmet
    · refine .inr fun key r hwin => ?_
      obtain ⟨o, blockHeight, s, s', es, root, hparams, hrun, hmem, hchain, halgo, hroot⟩ :=
        exists_run_of_canWin hth (fun key h => hunmet ⟨key, h⟩) hwin
      have := hsound.written o blockHeight s s' es root hparams hrun hmem
      rwa [hchain, halgo, hroot] at this
  · intro hwrapped
    refine ⟨?_, ?_⟩
    · intro o blockHeight s s' es root hparams hrun hmem
      obtain ⟨params', threshold', key, r, v, hparams', hth', hwin, hv, rfl⟩ :=
        written_spec hrun hmem
      obtain rfl : params = params' := ok.inj (hparams.symm.trans hparams')
      obtain rfl : threshold = threshold' := Option.some.inj (hth.symm.trans hth')
      have hvroot : v.root = r := root_of_mem_votesFor (mem_of_head? hv)
      have hmet := not_unmet_of_ok (fun params' h => by
        obtain rfl : params = params' := ok.inj (hparams.symm.trans h)
        exact hth) hrun
      have hwritten := hwrapped.written.resolve_left fun ⟨key, h⟩ => hmet key h
      have hshare := hwritten key r hwin
      rw [← hvroot] at hshare
      exact hshare
    · intro hhalf threshold' hth'
      obtain rfl : threshold = threshold' := Option.some.inj (hth.symm.trans hth')
      exact hwrapped.unique hhalf

/-! ## Totals in range -/

section inRange

variable (hpow : NonNegative votes) (hT : InRange votes)
include hpow hT

theorem power_le_iff : k.power votes key root ≤ k.power votes key root' ↔
    k.exactPower votes key root ≤ k.exactPower votes key root' := by
  rw [Int64.le_iff_toInt_le, power_toInt_of_inRange hpow hT, power_toInt_of_inRange hpow hT]

theorem threshold_le_iff (hfloor : threshold.toInt = quorumFloor params votes) :
    threshold ≤ k.power votes key root ↔ quorumFloor params votes ≤ k.exactPower votes key root := by
  rw [Int64.le_iff_toInt_le, power_toInt_of_inRange hpow hT, hfloor]

theorem floor_le_power : -1 ≤ k.power votes key root := by
  have hnonneg : 0 ≤ k.exactPower votes key root := exactPower_nonneg hpow
  rw [Int64.le_iff_toInt_le, power_toInt_of_inRange hpow hT]
  have hneg : (-1 : Int64).toInt = -1 := by decide
  omega

theorem not_unmet_of_inRange : ¬ k.Unmet votes threshold key := by
  intro hunmet
  obtain ⟨root, hroot⟩ := hunmet.voted
  have hfloor : -1 ≤ k.power votes key root := floor_le_power hpow hT
  have hbelow := hunmet.below root hroot (Int64.le_trans hunmet.threshold_le hfloor)
  exact Int64.not_lt.mpr hfloor hbelow

omit hpow hT in
theorem voted_of_pos (h : 0 < k.exactPower votes key root) : k.votesFor votes key root ≠ [] := by
  intro hnil
  simp [Keeper.exactPower, hnil] at h

omit hpow hT in
theorem quorumFloor_spec (params : Params) (votes : List ExtendedVoteInfo) :
    quorumFloor params votes * unit ≤ params.quorumFraction.num * exactTotal votes ∧
      params.quorumFraction.num * exactTotal votes < (quorumFloor params votes + 1) * unit :=
  ⟨Int.ediv_mul_le _ unit_pos.ne', Int.lt_ediv_add_one_mul_self _ unit_pos⟩

omit hpow hT in
theorem quorumFloor_of_dvd {c : ℤ} (h : params.quorumFraction.num * exactTotal votes = unit * c) :
    quorumFloor params votes = c := by
  rw [quorumFloor, h, Int.mul_ediv_cancel_left _ unit_pos.ne']

variable (hfloor : threshold.toInt = quorumFloor params votes)
include hfloor

/-- A leading root with the truncated power has no root above it. -/
theorem leads_of_floor (hvoted : k.votesFor votes key root ≠ [])
    (hpower : k.exactPower votes key root = quorumFloor params votes)
    (hmax : ∀ root', k.exactPower votes key root' ≤ k.exactPower votes key root) :
    k.Leads votes threshold key root :=
  ⟨hvoted, (threshold_le_iff hpow hT hfloor).mpr hpower.ge, floor_le_power hpow hT,
    fun root' _ _ => (power_le_iff hpow hT).mpr (hmax root')⟩

theorem exactQuorum_of_wrapped (h : WrappedQuorum k params votes threshold) : ExactQuorum k params votes := by
  obtain ⟨hlow, hhigh⟩ := quorumFloor_spec params votes
  have hwritten := h.written.resolve_left fun ⟨key, hunmet⟩ => not_unmet_of_inRange hpow hT hunmet
  constructor
  · by_cases hdvd : unit ∣ params.quorumFraction.num * exactTotal votes
    · exact .inl hdvd
    refine .inr fun key root hvoted hpower => ?_
    have hex : ∃ root', k.exactPower votes key root < k.exactPower votes key root' := by
      by_contra hno
      push Not at hno
      -- the root leads, so some root with its power is stored, below the fraction
      have hlead := leads_of_floor hpow hT hfloor hvoted hpower hno
      obtain ⟨root', hwin⟩ := exists_canWin_of_leads hlead
      have hshare := toRat_mul_le_iff.mp (hwritten key root' hwin)
      have hsame : k.exactPower votes key root' = quorumFloor params votes := by
        rw [← hpower, ← power_toInt_of_inRange hpow hT, ← power_toInt_of_inRange hpow hT, hwin.1.power_eq hlead]
      rw [hsame] at hshare
      exact hdvd ⟨quorumFloor params votes, by linarith⟩
    obtain ⟨root', hlt⟩ := hex
    refine ⟨?_, root', hlt⟩
    by_contra hhalf
    push Not at hhalf
    have hnonneg : 0 ≤ k.exactPower votes key root := exactPower_nonneg hpow
    have hroots : root = root' := h.unique hhalf key root root'
      ⟨hvoted, (threshold_le_iff hpow hT hfloor).mpr hpower.ge⟩
      ⟨voted_of_pos (by omega), (threshold_le_iff hpow hT hfloor).mpr (by omega)⟩
    rw [hroots] at hlt
    exact lt_irrefl _ hlt
  · intro hhalf
    by_cases hzero : 0 < exactTotal votes
    · exact .inl hzero
    have htotal : exactTotal votes = 0 := le_antisymm (by omega) (exactTotal_nonneg hpow)
    refine .inr fun key root root' hvoted hvoted' => ?_
    have hth : ∀ r, threshold ≤ k.power votes key r := by
      intro r
      have hnonneg : 0 ≤ k.exactPower votes key r := exactPower_nonneg hpow
      rw [threshold_le_iff hpow hT hfloor, quorumFloor, htotal]
      simpa using hnonneg
    exact h.unique hhalf key root root' ⟨hvoted, hth root⟩ ⟨hvoted', hth root'⟩

theorem wrapped_of_exactQuorum (h : ExactQuorum k params votes) : WrappedQuorum k params votes threshold := by
  obtain ⟨hlow, hhigh⟩ := quorumFloor_spec params votes
  have hunit := unit_pos
  constructor
  · refine Or.inr fun key root hwin => toRat_mul_le_iff.mpr ?_
    have hge := (threshold_le_iff hpow hT hfloor).mp hwin.1.threshold_le
    rcases h.floor with ⟨c, hc⟩ | hfl
    · rw [hc, mul_comm]
      exact mul_le_mul_of_nonneg_right (quorumFloor_of_dvd hc ▸ hge) hunit.le
    · have hne : k.exactPower votes key root ≠ quorumFloor params votes := by
        intro heq
        obtain ⟨-, root', hlt⟩ := hfl key root hwin.1.voted heq
        have hnonneg : 0 ≤ k.exactPower votes key root := exactPower_nonneg hpow
        have hle := hwin.1.highest root' (voted_of_pos (by omega))
          ((threshold_le_iff hpow hT hfloor).mpr (by omega))
        exact absurd ((power_le_iff hpow hT).mp hle) (by omega)
      have hgt : quorumFloor params votes + 1 ≤ k.exactPower votes key root := by omega
      exact hhigh.le.trans (mul_le_mul_of_nonneg_right hgt hunit.le)
  · rintro hhalf key root root' ⟨hvoted, hth⟩ ⟨hvoted', hth'⟩
    by_contra hne
    have hpos := (h.total hhalf).resolve_right fun hno => hne (hno key root root' hvoted hvoted')
    have hsum : k.exactPower votes key root + k.exactPower votes key root' ≤ exactTotal votes :=
      exactPower_add_le hpow hne
    have hhalf' := half_lt_toRat_iff.mp hhalf
    have hge := (threshold_le_iff hpow hT hfloor).mp hth
    have hge' := (threshold_le_iff hpow hT hfloor).mp hth'
    -- twice the fraction of a positive total exceeds the total
    rcases h.floor with ⟨c, hc⟩ | hfl
    · have hceq := quorumFloor_of_dvd hc
      nlinarith
    · have hstrict : ∀ r, k.votesFor votes key r ≠ [] → k.exactPower votes key r ≠ quorumFloor params votes := by
        intro r hr heq
        exact absurd (hfl key r hr heq).1 (not_le.mpr hhalf)
      have h1 := hstrict root hvoted
      have h2 := hstrict root' hvoted'
      have h3 : 2 * (quorumFloor params votes + 1) ≤ exactTotal votes := by omega
      nlinarith

end inRange

/-! ## The result -/

/-- **Quorum soundness.** For valid parameters and non-negative powers whose total fits in 64 bits, the check is sound
exactly under `ExactQuorum`. -/
theorem quorumSound_iff [Inhabited β] (k : Keeper β) (params : Params) (commit : ExtendedCommitInfo)
    (hvalid : params.validate = .ok ()) (hpow : NonNegative commit.votes) (hT : InRange commit.votes) :
    QuorumSound k params commit ↔ ExactQuorum k params commit.votes := by
  obtain ⟨threshold, hth, hfloor⟩ := quorumThreshold_of_inRange hvalid hpow hT
  rw [quorumSound_iff_wrapped hth]
  exact ⟨exactQuorum_of_wrapped hpow hT hfloor, wrapped_of_exactQuorum hpow hT hfloor⟩

/-- The encoded votes for the root `ab`, for the root `cd`, and for the root `ab` under another algorithm. -/
def quorumExtensionBytes (algo : String) (root : Bytes) : Bytes := plainExtensionBytes (ascii "c") (ascii algo) root

/-- A keeper that decodes these votes. -/
def quorumKeeper : Keeper Unit :=
  Tables.keeper { extensions := [entry "a" [0xab], entry "a" [0xcd], entry "b" [0xab]] }
where
  entry (algo : String) (root : Bytes) : Bytes × VoteExtensionHashData :=
    (quorumExtensionBytes algo root, plainExtension (ascii "c") (ascii algo) root)

/-- Of a total of 1000 the default fraction is an integer: 700 for `ab`, 200 for `cd` and 100 for `ab` under another
algorithm. -/
def wholeCommit : ExtendedCommitInfo :=
  ⟨[⟨[1], 200, quorumExtensionBytes "a" [0xcd]⟩, ⟨[2], 300, quorumExtensionBytes "a" [0xab]⟩,
    ⟨[3], 100, quorumExtensionBytes "b" [0xab]⟩, ⟨[4], 400, quorumExtensionBytes "a" [0xab]⟩]⟩

theorem wholeCommit_quorumSound :
    defaultParams.validate = .ok () ∧ NonNegative wholeCommit.votes ∧ InRange wholeCommit.votes ∧
      QuorumSound quorumKeeper defaultParams wholeCommit := by
  have hvalid : defaultParams.validate = .ok () := by decide
  have hpow : NonNegative wholeCommit.votes := by
    unfold NonNegative
    decide
  have hT : InRange wholeCommit.votes := by
    unfold InRange
    decide
  exact ⟨hvalid, hpow, hT, (quorumSound_iff _ _ _ hvalid hpow hT).mpr ⟨.inl (by decide), fun _ => .inl (by decide)⟩⟩

/-- Two validators of power 1, of which one votes: the fraction of the total is 1.334. -/
def minorityCommit : ExtendedCommitInfo :=
  ⟨[⟨[1], 1, quorumExtensionBytes "a" [0xab]⟩, ⟨[2], 1, []⟩]⟩

/-- Soundness fails if the root `ab` is stored with less than the fraction of the power. -/
theorem not_quorumSound_of_stored {commit : ExtendedCommitInfo} {root : HashRoot}
    (hstored : storedRoots (quorumKeeper.processVoteExtensions ⟨.kept, fun _ => .kept⟩ 1 ⟨.empty, ()⟩ commit) =
      some [root])
    (hless : quorumKeeper.exactPower commit.votes ⟨root.chainUid, root.algo⟩ root.root * unit <
      defaultParams.quorumFraction.num * exactTotal commit.votes) :
    ¬ QuorumSound quorumKeeper defaultParams commit := by
  intro hsound
  obtain ⟨s', es, hrun, hmem⟩ := mem_storedRoots hstored
  have hshare := hsound.written _ _ _ _ _ _ rfl hrun ((hmem _).mp mem_cons_self)
  rw [toRat_mul_le_iff] at hshare
  exact hless.not_ge hshare

/-- The root `ab` is stored with half of the power, under a fraction of 0.667. -/
theorem minorityCommit_not_quorumSound :
    storedRoots (quorumKeeper.processVoteExtensions ⟨.kept, fun _ => .kept⟩ 1 ⟨.empty, ()⟩ minorityCommit) =
        some [⟨ascii "c", ascii "a", 0, [0xab], 1, 0, []⟩] ∧
      quorumKeeper.exactPower minorityCommit.votes ⟨ascii "c", ascii "a"⟩ [0xab] = 1 ∧
      exactTotal minorityCommit.votes = 2 ∧ ¬ QuorumSound quorumKeeper defaultParams minorityCommit := by
  have hstored : storedRoots (quorumKeeper.processVoteExtensions ⟨.kept, fun _ => .kept⟩ 1 ⟨.empty, ()⟩
      minorityCommit) = some [⟨ascii "c", ascii "a", 0, [0xab], 1, 0, []⟩] := by decide
  exact ⟨hstored, by decide, by decide, not_quorumSound_of_stored hstored (by decide)⟩

/-- Two validators with the largest power do not vote, and one of power 3 does: the total wraps around to 1. -/
def overflowCommit : ExtendedCommitInfo :=
  ⟨[⟨[1], 9223372036854775807, []⟩, ⟨[2], 9223372036854775807, []⟩, ⟨[3], 3, quorumExtensionBytes "a" [0xab]⟩]⟩

/-- **Overflow.**  Outside `InRange` a root may be stored with less than the fraction of the power. -/
theorem overflowCommit_not_quorumSound :
    NonNegative overflowCommit.votes ∧ ¬ InRange overflowCommit.votes ∧
      ¬ QuorumSound quorumKeeper defaultParams overflowCommit := by
  have hstored : storedRoots (quorumKeeper.processVoteExtensions ⟨.kept, fun _ => .kept⟩ 1 ⟨.empty, ()⟩
      overflowCommit) = some [⟨ascii "c", ascii "a", 0, [0xab], 1, 0, []⟩] := by decide
  refine ⟨?_, ?_, not_quorumSound_of_stored hstored (by decide)⟩
  · unfold NonNegative
    decide
  · unfold InRange
    decide

/-! ## Majorities -/

/-- **A majority prevails**: if the votes for a root have the quorum and more than half of the power, a call that
returns stores this root and no other for its chain and algorithm, whatever the order of the loops. -/
theorem majority_root_stored (k : Keeper β) (params : Params) (commit : ExtendedCommitInfo)
    (hvalid : params.validate = .ok ()) (hpow : NonNegative commit.votes) (hT : InRange commit.votes)
    (key : TallyKey) (r : Bytes) (hmajority : exactTotal commit.votes < 2 * k.exactPower commit.votes key r)
    (hquorum : params.quorumFraction.toRat * exactTotal commit.votes ≤ k.exactPower commit.votes key r)
    (o : TallyOrder) (blockHeight : UInt64) (s s' : State β) (es : List Effect)
    (hparams : getParams s.store = .ok params) (hrun : k.processVoteExtensions o blockHeight s commit = .ok (s', es)) :
    (∃ root, .setHashRoot root ∈ es ∧ ⟨root.chainUid, root.algo⟩ = key ∧ root.root = r) ∧
      ∀ root, .setHashRoot root ∈ es → ⟨root.chainUid, root.algo⟩ = key → root.root = r := by
  obtain ⟨threshold, hth, hfloor⟩ := quorumThreshold_of_inRange hvalid hpow hT
  have hless : ∀ r', r' ≠ r → k.exactPower commit.votes key r' < k.exactPower commit.votes key r := by
    intro r' hne
    have hsum : k.exactPower commit.votes key r' + k.exactPower commit.votes key r ≤ _ := exactPower_add_le hpow hne
    omega
  have hleads : k.Leads commit.votes threshold key r := by
    refine ⟨voted_of_pos ?_, (threshold_le_iff hpow hT hfloor).mpr ?_, floor_le_power hpow hT, fun r' _ _ => ?_⟩
    · have htotal := exactTotal_nonneg hpow
      omega
    · have hspec := (quorumFloor_spec params commit.votes).1
      rw [toRat_mul_le_iff] at hquorum
      exact le_of_mul_le_mul_right (hspec.trans hquorum) (by decide)
    · rw [power_le_iff hpow hT]
      by_cases hr : r' = r
      · rw [hr]
      · exact (hless r' hr).le
  have honly : ∀ r', k.Leads commit.votes threshold key r' → r' = r := by
    intro r' h
    by_contra hne
    exact (hless r' hne).not_ge ((power_le_iff hpow hT).mp (h.highest r hleads.voted hleads.threshold_le))
  constructor
  · obtain ⟨roots, hroots⟩ := tally_lookup_isSome_iff.mpr ⟨r, hleads.voted⟩
    obtain ⟨r', hlead, hentry⟩ := entryWinner_of_leads o hroots hleads
    obtain rfl := honly r' hlead
    obtain ⟨v, hv, hmem⟩ :=
      written_of_winner hparams hth hrun (mem_collectWinners.mpr ⟨key, roots, hroots, hentry⟩)
    exact ⟨_, hmem, rfl, root_of_mem_votesFor (mem_of_head? hv)⟩
  · rintro root hmem rfl
    obtain ⟨params', threshold', key', r', v, hparams', hth', hwin, hv, rfl⟩ := written_spec hrun hmem
    obtain rfl : params = params' := ok.inj (hparams.symm.trans hparams')
    obtain rfl : threshold = threshold' := Option.some.inj (hth.symm.trans hth')
    exact (root_of_mem_votesFor (mem_of_head? hv)).trans (honly r' hwin.1)

/-- Two of the four validators have 700 of 1000 for the root `ab`. -/
theorem wholeCommit_stored : ∃ s' es root, .setHashRoot root ∈ es ∧ root.root = [0xab] ∧
    quorumKeeper.processVoteExtensions ⟨.reversed, fun _ => .reversed⟩ 1 ⟨.empty, ()⟩ wholeCommit = .ok (s', es) := by
  have hok : (quorumKeeper.processVoteExtensions ⟨.reversed, fun _ => .reversed⟩ 1 ⟨.empty, ()⟩
    wholeCommit).isOk := by decide
  obtain ⟨⟨s', es⟩, hrun⟩ := isOk_iff.mp hok
  obtain ⟨⟨root, hmem, -, hroot⟩, -⟩ := majority_root_stored quorumKeeper defaultParams wholeCommit (by decide)
    (by unfold NonNegative; decide) (by unfold InRange; decide) ⟨ascii "c", ascii "a"⟩ [0xab] (by decide)
    (by rw [toRat_mul_le_iff]; decide) _ _ _ s' es rfl hrun
  exact ⟨s', es, root, hmem, hroot, hrun⟩

end Hashmerchant
