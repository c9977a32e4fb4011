/-
  The epochs of the validators' pool: one settlement per epoch.
-/
import TerpCore.Lib.Metered
import TerpCore.Wasm.Conservation

namespace Wasm

open Lib Outcome List

variable {ν β : Type}

/-! ## The clock -/

/-- At which of the times a clock with period `d` strikes that was set at `last`. -/
def strikes (d : ℤ) : (last : ℤ) → List ℤ → List Bool
  | _, [] => []
  | last, t :: ts => if last + d ≤ t then true :: strikes d t ts else false :: strikes d last ts

/-- The times at which it strikes. -/
def strikeTimes (d last : ℤ) (ts : List ℤ) : List ℤ :=
  ((ts.zip (strikes d last ts)).filter Prod.snd).map Prod.fst

theorem strikeTimes_cons (d last t : ℤ) (ts : List ℤ) : strikeTimes d last (t :: ts) =
    if last + d ≤ t then t :: strikeTimes d t ts else strikeTimes d last ts := by
  unfold strikeTimes
  rw [strikes]
  split_ifs
  · rfl
  · rfl

theorem le_of_mem_strikeTimes {d : ℤ} (hd : 0 < d) (ts : List ℤ) : ∀ last : ℤ,
    ∀ t ∈ strikeTimes d last ts, last + d ≤ t := by
  induction ts with
  | nil => simp [strikeTimes]
  | cons t ts ih =>
    intro last t' ht'
    rw [strikeTimes_cons] at ht'
    split_ifs at ht' with hdue
    · rcases mem_cons.mp ht' with rfl | hmem
      · exact hdue
      · have hnext := ih t t' hmem
        omega
    · exact ih last t' ht'

theorem strikeTimes_pairwise {d : ℤ} (hd : 0 < d) (ts : List ℤ) : ∀ last : ℤ,
    (strikeTimes d last ts).Pairwise fun t t' => t + d ≤ t' := by
  induction ts with
  | nil => exact fun _ => List.Pairwise.nil
  | cons t ts ih =>
    intro last
    rw [strikeTimes_cons]
    split_ifs
    · exact pairwise_cons.mpr ⟨le_of_mem_strikeTimes hd ts t, ih t⟩
    · exact ih last

/-! ## Ticks with their settlements -/

namespace RunwayKeeper

variable (k : RunwayKeeper ν β)

/-- A call of the settlement costs one. -/
def settleCircuitValPoolMetered (app : β) (b : Block) : Metered ℕ (Outcome Err (β × List Payout)) := do
  Metered.charge 1
  pure (k.settleCircuitValPool app b)

/-- `AfterEpochEnd` with a count of the settlements. -/
def afterEpochEndMetered (app : β) (b : Block) (epochIdentifier : Bytes) : Metered ℕ (Outcome Err (β × List Payout)) :=
  if epochIdentifier ≠ circuitDistrEpochDay then pure (.ok (app, []))
  else k.settleCircuitValPoolMetered app b

/-- `TickCircuitEpoch` with a count of the settlements. -/
def tickCircuitEpochMetered (s : RunwayState ν β) (b : Block) :
    Metered ℕ (Outcome Err (RunwayState ν β × List Payout)) :=
  match s.epoch with
  | none => pure (.ok ({ s with epoch := some b.firstEpoch }, []))
  | some info =>
    if info.identifier = [] then do
      let settled ← k.settleCircuitValPoolMetered s.app b
      pure do
        let (app, paid) ← settled
        return ({ s with app := app }, paid)
    else
      let info := if info.durationSeconds ≤ 0 then
        { info with durationSeconds := circuitEpochDurationDefault } else info
      if b.time < info.currentEpochStartUnix + info.durationSeconds then pure (.ok (s, []))
      else do
        let settled ← k.afterEpochEndMetered s.app b info.identifier
        pure do
          let (app, paid) ← settled
          return ({ s with
            app := app
            epoch := some { info with
              currentEpoch := info.currentEpoch + 1
              currentEpochStartUnix := b.time
              currentEpochStartHeight := b.height } }, paid)

theorem tickCircuitEpochMetered_val (s : RunwayState ν β) (b : Block) :
    (k.tickCircuitEpochMetered s b).val = k.tickCircuitEpoch s b := by
  unfold tickCircuitEpochMetered tickCircuitEpoch
  cases s.epoch with
  | none => rfl
  | some info =>
    dsimp only
    split_ifs
    · rfl
    · rfl
    · unfold afterEpochEndMetered afterEpochEnd
      split_ifs
      · rfl
      · rfl
    · rfl
    · unfold afterEpochEndMetered afterEpochEnd
      split_ifs
      · rfl
      · rfl

/-- The ticks of one block after the other, with the number of settlements in each. -/
def ticks : RunwayState ν β → List Block → Outcome Err (RunwayState ν β × List ℕ)
  | s, [] => .ok (s, [])
  | s, b :: bs => do
    let (s', _) ← k.tickCircuitEpoch s b
    let (s'', counts) ← ticks s' bs
    return (s'', (k.tickCircuitEpochMetered s b).work :: counts)

end RunwayKeeper

/-! ## One settlement per epoch -/

/-- The record of a chain whose last epoch began at `last`, after `n` settlements. -/
structure Running (d last : ℤ) (n : ℕ) (info : CircuitEpochInfo) : Prop where
  identifier : info.identifier = circuitDistrEpochDay
  duration : info.durationSeconds.toInt = d
  pos : 0 < d
  start : info.currentEpochStartUnix.toInt = last
  count : info.currentEpoch.toInt = n
  le : (n : ℤ) ≤ last
  room : last + d < 2 ^ 63

namespace Running

variable {k : RunwayKeeper ν β} {d last : ℤ} {n : ℕ} {info : CircuitEpochInfo} {s : RunwayState ν β} {b : Block}

theorem time_lt_iff (h : Running d last n info) :
    b.time < info.currentEpochStartUnix + info.durationSeconds ↔ b.time.toInt < last + d := by
  obtain ⟨-, hd, hpos, hlast, -, hle, hroom⟩ := h
  rw [Int64.lt_iff_toInt_lt, Int64.toInt_add, hlast, hd, bmod_eq_self (by omega) hroom]

theorem next (h : Running d last n info) (hdue : last + d ≤ b.time.toInt) (hroom : b.time.toInt + d < 2 ^ 63) :
    Running d b.time.toInt (n + 1) { info with
      currentEpoch := info.currentEpoch + 1
      currentEpochStartUnix := b.time
      currentEpochStartHeight := b.height } where
  identifier := h.identifier
  duration := h.duration
  pos := h.pos
  start := rfl
  count := by
    obtain ⟨-, -, hpos, -, hcount, hle, -⟩ := h
    rw [Int64.toInt_add, hcount, Int64.toInt_one, bmod_eq_self (by omega) (by omega)]
    rfl
  le := by
    obtain ⟨-, -, hpos, -, -, hle, -⟩ := h
    omega
  room := hroom

/-- A tick of a running chain does nothing before the end of the epoch, and settles once at its end. -/
theorem tick (h : Running d last n info) (hs : s.epoch = some info) :
    (b.time.toInt < last + d → k.tickCircuitEpoch s b = .ok (s, []) ∧ (k.tickCircuitEpochMetered s b).work = 0) ∧
    (last + d ≤ b.time.toInt → (k.tickCircuitEpochMetered s b).work = 1 ∧
      k.tickCircuitEpoch s b = k.settleCircuitValPool s.app b >>= fun r => .ok ({ s with
        app := r.1
        epoch := some { info with
          currentEpoch := info.currentEpoch + 1
          currentEpochStartUnix := b.time
          currentEpochStartHeight := b.height } }, r.2)) := by
  have hident : info.identifier ≠ [] := by
    rw [h.identifier]
    decide
  have hdur : ¬ info.durationSeconds ≤ 0 := by
    rw [Int64.le_iff_toInt_le, h.duration]
    exact not_le.mpr h.pos
  unfold RunwayKeeper.tickCircuitEpochMetered RunwayKeeper.tickCircuitEpoch
  simp only [hs, hident, hdur, if_false, h.time_lt_iff]
  constructor
  · intro hearly
    simp [hearly]
  · intro hdue
    have hlate : ¬ b.time.toInt < last + d := by omega
    simp [hlate, RunwayKeeper.afterEpochEnd, RunwayKeeper.afterEpochEndMetered,
      RunwayKeeper.settleCircuitValPoolMetered, h.identifier]

theorem ticks (bs : List Block) : ∀ {s : RunwayState ν β} {info : CircuitEpochInfo} {last : ℤ} {n : ℕ},
    Running d last n info → s.epoch = some info →
    (∀ t ∈ strikeTimes d last (bs.map fun b => b.time.toInt), t + d < 2 ^ 63) →
    ∀ {s' : RunwayState ν β} {counts : List ℕ}, k.ticks s bs = .ok (s', counts) →
      counts = (strikes d last (bs.map fun b => b.time.toInt)).map Bool.toNat ∧
        ∃ info' last', Running d last' (n + counts.sum) info' ∧ s'.epoch = some info' := by
  induction bs with
  | nil =>
    intro s info last n h hs _ s' counts heq
    obtain ⟨rfl, rfl⟩ : s = s' ∧ [] = counts := by simpa [RunwayKeeper.ticks] using heq
    exact ⟨rfl, info, last, h, hs⟩
  | cons b bs ih =>
    intro s info last n h hs hrange s' counts heq
    obtain ⟨⟨t, paid⟩, htick, heq⟩ := bind_eq_ok.mp heq
    obtain ⟨⟨t', counts'⟩, hticks, heq⟩ := bind_eq_ok.mp heq
    obtain ⟨rfl, rfl⟩ : t' = s' ∧ (k.tickCircuitEpochMetered s b).work :: counts' = counts := by simpa using heq
    obtain ⟨hearly, hlate⟩ := h.tick (k := k) hs
    rw [map_cons, strikeTimes_cons] at hrange
    rw [map_cons, strikes]
    rcases lt_or_ge b.time.toInt (last + d) with hlt | hdue
    · obtain ⟨hsame, hzero⟩ := hearly hlt
      rw [if_neg (by omega)] at hrange ⊢
      obtain ⟨rfl, -⟩ : s = t ∧ [] = paid := by simpa [hsame] using htick
      obtain ⟨hcounts, info', last', hrun, hepoch⟩ := ih h hs hrange hticks
      refine ⟨by rw [hzero, hcounts]; rfl, info', last', ?_, hepoch⟩
      rwa [hzero, sum_cons, Nat.zero_add]
    · obtain ⟨hone, hsettle⟩ := hlate hdue
      rw [if_pos (by omega)] at hrange ⊢
      rw [forall_mem_cons] at hrange
      rw [hsettle] at htick
      obtain ⟨r, -, hr⟩ := bind_eq_ok.mp htick
      cases hr
      obtain ⟨hcounts, info', last', hrun, hepoch⟩ := ih (h.next hdue hrange.1) rfl hrange.2 hticks
      refine ⟨by rw [hone, hcounts]; rfl, info', last', ?_, hepoch⟩
      rwa [hone, sum_cons, ← Nat.add_assoc]

end Running

theorem firstEpoch_running {b : Block} (hroom : max 0 b.time.toInt + b.firstEpoch.durationSeconds.toInt < 2 ^ 63) :
    Running b.firstEpoch.durationSeconds.toInt (max 0 b.time.toInt) 0 b.firstEpoch where
  identifier := rfl
  duration := rfl
  pos := by
    unfold Block.firstEpoch
    cases b.epochDuration with
    | none =>
      show 0 < circuitEpochDurationDefault.toInt
      decide
    | some n =>
      dsimp only
      split_ifs with hn
      · rwa [Int64.lt_iff_toInt_lt] at hn
      · decide
  start := by
    unfold Block.firstEpoch
    split_ifs with hneg
    · rw [Int64.lt_iff_toInt_lt, Int64.toInt_zero] at hneg
      rw [max_eq_left hneg.le, Int64.toInt_zero]
    · rw [Int64.lt_iff_toInt_lt, Int64.toInt_zero, not_lt] at hneg
      rw [max_eq_right hneg]
  count := rfl
  le := le_max_left ..
  room := hroom

section

variable {k : RunwayKeeper ν β}

theorem ticks_returns (hsettle : ∀ app b, ∃ r, k.settleCircuitValPool app b = .ok r) (bs : List Block) :
    ∀ s : RunwayState ν β, ∃ r, k.ticks s bs = .ok r := by
  have htick : ∀ (s : RunwayState ν β) (b : Block), ∃ r, k.tickCircuitEpoch s b = .ok r := by
    intro s b
    obtain ⟨r, hr⟩ := hsettle s.app b
    unfold RunwayKeeper.tickCircuitEpoch
    cases s.epoch with
    | none => exact ⟨_, rfl⟩
    | some info =>
      dsimp only [RunwayKeeper.distributeCircuitValPool, RunwayKeeper.afterEpochEnd]
      rw [hr]
      split_ifs <;> exact ⟨_, rfl⟩
  induction bs with
  | nil => exact fun s => ⟨_, rfl⟩
  | cons b bs ih =>
    intro s
    obtain ⟨⟨t, paid⟩, ht⟩ := htick s b
    obtain ⟨⟨t', counts⟩, ht'⟩ := ih t
    refine ⟨(t', (k.tickCircuitEpochMetered s b).work :: counts), ?_⟩
    rw [RunwayKeeper.ticks, ht, ok_bind]
    dsimp only
    rw [ht']
    rfl

/-- The pool is settled at the strikes of a clock that is set by the first block, at its time or at 0 if that is
later, and `CurrentEpoch` counts the settlements. -/
theorem one_settlement_per_epoch {s : RunwayState ν β} (hs : s.epoch = none) (b₀ : Block) (bs : List Block) :
    let d := b₀.firstEpoch.durationSeconds.toInt
    let start := max 0 b₀.time.toInt
    let times := bs.map fun b => b.time.toInt
    start + d < 2 ^ 63 → (∀ t ∈ strikeTimes d start times, t + d < 2 ^ 63) →
    (∀ s' counts, k.ticks s (b₀ :: bs) = .ok (s', counts) →
      counts = 0 :: (strikes d start times).map Bool.toNat ∧
        ∃ info, s'.epoch = some info ∧ info.currentEpoch.toInt = counts.sum) ∧
    (strikeTimes d start times).Pairwise (fun t t' => t + d ≤ t') ∧
    ((∀ app b, ∃ r, k.settleCircuitValPool app b = .ok r) → ∃ r, k.ticks s (b₀ :: bs) = .ok r) := by
  intro d start times hroom hrange
  have hrun : Running d start 0 b₀.firstEpoch := firstEpoch_running hroom
  refine ⟨?_, strikeTimes_pairwise hrun.pos times start, fun hsettle => ticks_returns hsettle _ s⟩
  intro s' counts heq
  have hfirst : k.tickCircuitEpoch s b₀ = .ok ({ s with epoch := some b₀.firstEpoch }, []) := by
    rw [RunwayKeeper.tickCircuitEpoch, hs]
  have hnone : (k.tickCircuitEpochMetered s b₀).work = 0 := by
    rw [RunwayKeeper.tickCircuitEpochMetered, hs]
    rfl
  rw [RunwayKeeper.ticks, hfirst, ok_bind] at heq
  obtain ⟨⟨t, counts'⟩, hticks, heq⟩ := bind_eq_ok.mp heq
  obtain ⟨rfl, rfl⟩ : t = s' ∧ (k.tickCircuitEpochMetered s b₀).work :: counts' = counts := by simpa using heq
  obtain ⟨hcounts, info, last, hinfo, hepoch⟩ := hrun.ticks bs rfl hrange hticks
  refine ⟨by rw [hnone, hcounts], info, hepoch, ?_⟩
  rw [hinfo.count, hnone, sum_cons]

end

namespace SampleBank

/-- A chain before its first tick, with epochs of 50 seconds. -/
def unstarted : RunwayState Files (AccAddress → ℕ) := { start with epoch := none }

def tickAt (time : Int64) : Block := { block with time := time, epochDuration := some 50 }

end SampleBank

open SampleBank in
/-- A gap of three epochs settles once, and a block with the same time not at all. -/
theorem long_gap_settled_once :
    (∃ s', keeper.ticks unstarted [tickAt 10, tickAt 59, tickAt 210, tickAt 210, tickAt 260] =
        .ok (s', [0, 0, 1, 0, 1])) ∧
      ∀ s' counts, keeper.ticks unstarted (tickAt 10 :: [tickAt 59, tickAt 210, tickAt 210, tickAt 260]) =
          .ok (s', counts) → counts = 0 :: (strikes 50 10 [59, 210, 210, 260]).map Bool.toNat := by
  refine ⟨⟨_, rfl⟩, fun s' counts heq => ?_⟩
  exact ((one_settlement_per_epoch rfl (tickAt 10)
    [tickAt 59, tickAt 210, tickAt 210, tickAt 260] (by decide) (by decide)).1 s' counts heq).1

open SampleBank in
/-- The first block is 100 seconds before 1970, the second at its beginning: there is no settlement. -/
theorem negative_start_taken_as_zero : (∃ s', keeper.ticks unstarted [tickAt (-100), tickAt 0] = .ok (s', [0, 0])) ∧
      strikes 50 (tickAt (-100)).time.toInt [(tickAt 0).time.toInt] = [true] :=
  ⟨⟨_, rfl⟩, by decide⟩

end Wasm
