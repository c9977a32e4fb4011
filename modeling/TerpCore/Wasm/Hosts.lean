/-
  What a node's environment does to the epochs.

  `TickCircuitEpoch` reads the duration of an epoch from the environment of the process.
-/
import TerpCore.Wasm.Conservation

namespace Wasm

open Lib Outcome List

variable {ν β : Type}

/-! ## The environment -/

def isDigit (c : UInt8) : Bool := 0x30 ≤ c && c ≤ 0x39

/-- The digits of a decimal numeral; there is at least one. -/
def parseDigits (ds : Bytes) : Option ℕ :=
  if ds ≠ [] ∧ ds.all isDigit then some (ds.foldl (fun n c => 10 * n + (c.toNat - 48)) 0) else none

/-- `strconv.ParseInt(s, 10, 64)`. -/
def parseInt (s : Bytes) : Option Int64 := do
  let (neg, ds) := match s with
    | 0x2b :: ds => (false, ds)
    | 0x2d :: ds => (true, ds)
    | ds => (false, ds)
  let n ← parseDigits ds
  if neg then
    if n ≤ 2 ^ 63 then return Int64.ofInt (-n) else none
  else
    if n < 2 ^ 63 then return Int64.ofInt n else none

/-- A process that runs a node: `os.Getenv` gives the empty string for a variable that is not set. -/
structure Host where
  getenv : Bytes → Bytes

def Host.epochDuration (h : Host) : Option Int64 :=
  let s := h.getenv (ascii "CIRCUIT_EPOCH_DURATION_SECONDS")
  if s ≠ [] then parseInt s else none

/-- The duration of the first epoch, which a missing, malformed or nonpositive value leaves at a day. -/
def Host.duration (h : Host) : Int64 :=
  match h.epochDuration with
  | some n => if 0 < n then n else circuitEpochDurationDefault
  | none => circuitEpochDurationDefault

def Block.on (h : Host) (b : Block) : Block := { b with epochDuration := h.epochDuration }

def RunwayOp.on (h : Host) : RunwayOp → RunwayOp
  | .payCircuitDeposit blockTime payer years => .payCircuitDeposit blockTime payer years
  | .tickCircuitEpoch b => .tickCircuitEpoch (b.on h)

def RunwayOp.ticks : RunwayOp → Bool
  | .payCircuitDeposit .. => false
  | .tickCircuitEpoch _ => true

/-! ## Two nodes -/

variable (k : RunwayKeeper ν β)

/-- What a node goes through: the result of each operation, with the state after it and its payouts. -/
def RunwayKeeper.trace (h : Host) (s : RunwayState ν β) :
    List RunwayOp → List (Outcome Err (RunwayState ν β × List Payout))
  | [] => []
  | op :: ops => k.exec s (op.on h) :: RunwayKeeper.trace h (k.step s (op.on h)) ops

variable {k} {h h' : Host} {s : RunwayState ν β}

theorem firstEpoch_on (b : Block) : (b.on h).firstEpoch = { b.firstEpoch with durationSeconds := h.duration } := rfl

theorem tickCircuitEpoch_on_of_isSome (hs : s.epoch.isSome) (b : Block) :
    k.tickCircuitEpoch s (b.on h) = k.tickCircuitEpoch s b := by
  obtain ⟨info, hinfo⟩ := Option.isSome_iff_exists.mp hs
  unfold RunwayKeeper.tickCircuitEpoch
  rw [hinfo]
  rfl

theorem tickCircuitEpoch_of_none (hs : s.epoch = none) (b : Block) :
    k.tickCircuitEpoch s b = .ok ({ s with epoch := some b.firstEpoch }, []) := by
  unfold RunwayKeeper.tickCircuitEpoch
  rw [hs]

theorem exec_on_of_isSome (hs : s.epoch.isSome) (op : RunwayOp) : k.exec s (op.on h) = k.exec s op := by
  cases op with
  | payCircuitDeposit => rfl
  | tickCircuitEpoch b => exact tickCircuitEpoch_on_of_isSome hs b

theorem exec_on_of_duration (hd : h.duration = h'.duration) (op : RunwayOp) :
    k.exec s (op.on h) = k.exec s (op.on h') := by
  rcases hs : s.epoch with _ | info
  · cases op with
    | payCircuitDeposit => rfl
    | tickCircuitEpoch b =>
      change k.tickCircuitEpoch s (b.on h) = k.tickCircuitEpoch s (b.on h')
      rw [tickCircuitEpoch_of_none hs, tickCircuitEpoch_of_none hs, firstEpoch_on, firstEpoch_on, hd]
  · have hsome : s.epoch.isSome := by rw [hs]; rfl
    rw [exec_on_of_isSome hsome, exec_on_of_isSome hsome]

theorem exec_epoch_isSome {s' : RunwayState ν β} {paid : List Payout} {op : RunwayOp}
    (hs : s.epoch.isSome) (hexec : k.exec s op = .ok (s', paid)) : s'.epoch.isSome := by
  cases op with
  | payCircuitDeposit =>
    obtain ⟨t, -, heq⟩ := bind_eq_ok.mp hexec
    cases heq
    exact hs
  | tickCircuitEpoch b =>
    obtain ⟨info, hinfo⟩ := Option.isSome_iff_exists.mp hs
    simp only [RunwayKeeper.exec, RunwayKeeper.tickCircuitEpoch, hinfo] at hexec
    split_ifs at hexec
    · obtain ⟨r, -, heq⟩ := bind_eq_ok.mp hexec
      cases heq
      rfl
    · cases hexec
      exact hs
    · obtain ⟨r, -, heq⟩ := bind_eq_ok.mp hexec
      cases heq
      rfl
    · cases hexec
      exact hs
    · obtain ⟨r, -, heq⟩ := bind_eq_ok.mp hexec
      cases heq
      rfl

theorem step_epoch_isSome (hs : s.epoch.isSome) (op : RunwayOp) : (k.step s op).epoch.isSome := by
  unfold RunwayKeeper.step
  rcases hexec : k.exec s op with ⟨s', paid⟩ | e | _
  · exact exec_epoch_isSome hs hexec
  · exact hs
  · exact hs

theorem step_epoch_of_not_ticks {op : RunwayOp} (hop : op.ticks = false) : (k.step s op).epoch = s.epoch := by
  cases op with
  | tickCircuitEpoch b => cases hop
  | payCircuitDeposit blockTime payer years =>
    unfold RunwayKeeper.step
    rcases hexec : k.exec s (.payCircuitDeposit blockTime payer years) with ⟨s', paid⟩ | e | _
    · obtain ⟨t, -, heq⟩ := bind_eq_ok.mp hexec
      cases heq
      rfl
    · rfl
    · rfl

theorem on_of_not_ticks {op : RunwayOp} (hop : op.ticks = false) : op.on h = op := by
  cases op with
  | payCircuitDeposit => rfl
  | tickCircuitEpoch b => cases hop

theorem trace_congr {I : RunwayState ν β → Prop} {ops : List RunwayOp}
    (hexec : ∀ s op, I s → op ∈ ops → k.exec s (op.on h) = k.exec s (op.on h'))
    (hstep : ∀ s op, I s → op ∈ ops → I (k.step s (op.on h))) (hs : I s) :
    k.trace h s ops = k.trace h' s ops := by
  induction ops generalizing s with
  | nil => rfl
  | cons op ops ih =>
    have heq := hexec s op hs mem_cons_self
    have hnext : k.step s (op.on h) = k.step s (op.on h') := by unfold RunwayKeeper.step; rw [heq]
    have hrest : k.trace h (k.step s (op.on h)) ops = k.trace h' (k.step s (op.on h)) ops :=
      ih (fun t o ht ho => hexec t o ht (mem_cons_of_mem _ ho))
        (fun t o ht ho => hstep t o ht (mem_cons_of_mem _ ho)) (hstep s op hs mem_cons_self)
    unfold RunwayKeeper.trace
    rw [heq, hrest, hnext]

theorem duration_eq_of_trace {ops : List RunwayOp} (hs : s.epoch = none) (hticks : ops.any RunwayOp.ticks)
    (htrace : k.trace h s ops = k.trace h' s ops) : h.duration = h'.duration := by
  induction ops generalizing s with
  | nil => cases hticks
  | cons op ops ih =>
    obtain ⟨hhead, htail⟩ := List.cons.inj htrace
    rcases hop : op.ticks with _ | _
    · have hstep : (k.step s op).epoch = none := (step_epoch_of_not_ticks hop).trans hs
      rw [on_of_not_ticks hop, on_of_not_ticks hop] at htail
      refine ih hstep ?_ htail
      rwa [any_cons, hop] at hticks
    · cases op with
      | payCircuitDeposit => cases hop
      | tickCircuitEpoch b =>
        change k.tickCircuitEpoch s (b.on h) = k.tickCircuitEpoch s (b.on h') at hhead
        rw [tickCircuitEpoch_of_none hs, tickCircuitEpoch_of_none hs] at hhead
        have hstate := congrArg Prod.fst (ok.inj hhead)
        have hepoch := Option.some.inj (congrArg RunwayState.epoch hstate)
        exact congrArg CircuitEpochInfo.durationSeconds hepoch

/-- Two nodes go through the same states and payouts, over any payments and blocks, if and only if there is an epoch
record at the start, no block, or the same duration in both environments. -/
theorem hosts_agree_iff (k : RunwayKeeper ν β) (s : RunwayState ν β) (ops : List RunwayOp) (h h' : Host) :
    k.trace h s ops = k.trace h' s ops ↔
      s.epoch.isSome ∨ ops.any RunwayOp.ticks = false ∨ h.duration = h'.duration := by
  constructor
  · intro htrace
    rcases hs : s.epoch with _ | info
    · rcases hticks : ops.any RunwayOp.ticks with _ | _
      · exact .inr (.inl rfl)
      · exact .inr (.inr (duration_eq_of_trace hs hticks htrace))
    · exact .inl rfl
  · rintro (hs | hticks | hd)
    · refine trace_congr (I := fun t => t.epoch.isSome) ?_ ?_ hs
      · intro t op ht _
        rw [exec_on_of_isSome ht, exec_on_of_isSome ht]
      · intro t op ht _
        exact step_epoch_isSome ht _
    · refine trace_congr (I := fun _ => True) ?_ (fun _ _ _ _ => trivial) trivial
      intro t op _ hop
      have hnot : op.ticks = false := by
        rw [← Bool.not_eq_true]
        exact fun htrue => by simp [any_eq_true.mpr ⟨op, hop, htrue⟩] at hticks
      rw [on_of_not_ticks hnot, on_of_not_ticks hnot]
    · exact trace_congr (I := fun _ => True) (fun t op _ _ => exec_on_of_duration hd op)
        (fun _ _ _ _ => trivial) trivial

/-! ## An example -/

namespace SampleBank

def host (value : String) : Host where
  getenv name := if name = ascii "CIRCUIT_EPOCH_DURATION_SECONDS" then ascii value else []

def fresh : RunwayState Files (AccAddress → ℕ) := { start with epoch := none }

end SampleBank

open SampleBank in
/-- Two spellings of a minute. -/
theorem same_minute_agrees :
    host "60" ≠ host "+060" ∧ keeper.trace (host "60") fresh ops = keeper.trace (host "+060") fresh ops := by
  refine ⟨?_, (hosts_agree_iff keeper fresh ops (host "60") (host "+060")).mpr (.inr (.inr (by decide +kernel)))⟩
  intro heq
  have hvalue := congrFun (congrArg Host.getenv heq) (ascii "CIRCUIT_EPOCH_DURATION_SECONDS")
  revert hvalue
  decide +kernel

open SampleBank in
/-- A host that sets a minute and a host that sets nothing disagree from the first block on. -/
theorem minute_and_unset_disagree :
    keeper.trace (host "60") fresh [.tickCircuitEpoch block] ≠
      keeper.trace (host "") fresh [.tickCircuitEpoch block] := by
  intro htrace
  have hduration : (host "60").duration = (host "").duration := duration_eq_of_trace rfl rfl htrace
  revert hduration
  decide +kernel

end Wasm
