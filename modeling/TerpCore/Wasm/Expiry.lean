/-
  The index of expiry times is exact.
-/
import TerpCore.Wasm.Coverage

namespace Wasm

open Lib Outcome Tables Option

variable {ν β : Type} {k : Keeper ν β}

/-- An address is paid until a time exactly if the index has the entry. -/
def ExpiryExact (s : Store) : Prop :=
  ∀ addr u, circuitDepositPaidUntil s addr = some u ↔ hasExpiryIndex s u addr = true

theorem hasExpiryIndex_congr {s t : Store} {u : UInt64} {addr : AccAddress}
    (h : row t (.expiry u addr) = row s (.expiry u addr)) :
    hasExpiryIndex t u addr = hasExpiryIndex s u addr := by
  change (row t (.expiry u addr)).isSome = (row s (.expiry u addr)).isSome
  rw [h]

namespace ExpiryExact

theorem congr {s t : Store} (h : ExpiryExact s) (hrow : ∀ addr, row t (.depositee addr) = row s (.depositee addr))
    (hentry : ∀ u addr, row t (.expiry u addr) = row s (.expiry u addr)) : ExpiryExact t := by
  intro addr u
  rw [circuitDepositPaidUntil_congr (hrow addr), hasExpiryIndex_congr (hentry u addr)]
  exact h addr u

theorem drop_gc {s : Store} (h : ExpiryExact s) (addr : AccAddress) : ExpiryExact (drop s (.gc addr)) :=
  h.congr (fun _ => row_drop_of_ne (by simp)) fun _ _ => row_drop_of_ne (by simp)

variable {s s' : State ν β} {addr : AccAddress} {blockTime : Int64}

theorem sweep (h : Formed s.store ∧ ExpiryExact s.store) (max : ℕ) :
    Formed (k.pruneAndMark s addr max).1.store ∧ ExpiryExact (k.pruneAndMark s addr max).1.store := by
  refine ⟨pruneAndMark_formed h.1 addr max, h.2.congr (fun addr' => ?_) fun u addr' => ?_⟩
  · exact row_pruneAndMark h.1 (by simp) (by simp) max
  · exact row_pruneAndMark h.1 (by simp) (by simp) max

theorem lapse (h : ExpiryExact s.store) {u : UInt64}
    (hpaid : circuitDepositPaidUntil s.store addr = some u) : ExpiryExact (s.lapse u addr).store := by
  intro addr' u'
  by_cases haddr : addr' = addr
  · subst haddr
    have hrow : row (s.lapse u addr').store (.depositee addr') = none := by simp [row_lapse]
    rw [circuitDepositPaidUntil_of_none hrow]
    constructor
    · intro hnone
      cases hnone
    intro hentry
    exfalso
    by_cases hu : u' = u
    · change (row (s.lapse u addr').store (.expiry u' addr')).isSome = true at hentry
      simp [row_lapse, hu] at hentry
    · -- any other entry would be the time of the row as well
      have hkeep : row (s.lapse u addr').store (.expiry u' addr') = row s.store (.expiry u' addr') := by
        simp [row_lapse, hu]
      rw [hasExpiryIndex_congr hkeep, ← h addr' u', hpaid] at hentry
      exact hu (Option.some.inj hentry).symm
  · have hrow : row (s.lapse u addr).store (.depositee addr') = row s.store (.depositee addr') := by
      simp [row_lapse, haddr]
    have hentry : row (s.lapse u addr).store (.expiry u' addr') = row s.store (.expiry u' addr') := by
      simp [row_lapse, haddr]
    rw [circuitDepositPaidUntil_congr hrow, hasExpiryIndex_congr hentry]
    exact h addr' u'

theorem drop_stale {s : Store} (h : ExpiryExact s) {u : UInt64} (hpassed : u.toNat ≤ (nowUnix blockTime).toNat)
    (hstale : ¬ isDue s (nowUnix blockTime) u addr = true) :
    ExpiryExact (drop s (.expiry u addr)) := by
  have hgone : row s (.expiry u addr) = none := by
    by_contra hne
    have hpaid : circuitDepositPaidUntil s addr = some u := (h addr u).mpr (isSome_iff_ne_none.mpr hne)
    refine hstale ?_
    have hnow := toNat_nowUnix_lt blockTime
    have hle : ¬ (nowUnix blockTime).toInt64 < u.toInt64 := by
      rw [Int64.lt_iff_toInt_lt, toInt_toInt64 hnow, toInt_toInt64 (by omega)]
      omega
    simp [isDue, hpaid, hle]
  refine h.congr (fun _ => row_drop_of_ne (by simp)) fun u' addr' => ?_
  rw [row_drop]
  split_ifs with heq
  · rw [← heq, hgone]
  · rfl

theorem prune (hs : Formed s.store) (h : ExpiryExact s.store)
    (heq : k.pruneExpiredCircuitDeposits s blockTime = .ok s') : ExpiryExact s'.store := by
  refine (prune_hits_rule (I := fun t => Formed t.store ∧ ExpiryExact t.store)
    (H := fun hit => hit.1.toNat ≤ (nowUnix blockTime).toNat) ?_ ?_ ?_ ⟨?_, ?_⟩ heq ⟨hs, h⟩).2
  · rintro t addr max - ht
    exact sweep ht max
  · rintro t ⟨ht, -⟩ ⟨u, addr⟩ hhit
    exact (((expiredHits_spec ht blockTime).2 u addr).mp hhit).2
  · rintro t u addr hpassed hstale ⟨hformed, ht⟩
    exact ⟨FormedOn.drop hformed _, ht.drop_stale hpassed hstale⟩
  · rintro t u addr hdue - ⟨hformed, ht⟩
    refine ⟨FormedOn.drop (lapse_formed hformed u addr) _, ?_⟩
    exact (ht.lapse (isDue_eq_true hdue).1).drop_gc addr
  · rintro t u addr max hdue - ⟨hformed, ht⟩
    exact sweep ⟨lapse_formed hformed u addr, ht.lapse (isDue_eq_true hdue).1⟩ max

theorem payCircuitDeposit {payer : AccAddress} {years : UInt32} (h : ExpiryExact s.store)
    (heq : k.payCircuitDeposit s blockTime payer years = .ok s') :
    ExpiryExact s'.store := by
  obtain ⟨-, paidUntil, t, ht, hstore⟩ := payCircuitDeposit_eq_ok heq
  -- what is left of the index for the payer
  have hcleared : ∀ u, row t (.expiry u payer) = none := by
    intro u
    by_contra hne
    rcases ht with ⟨rfl, hnone⟩ | ⟨old, rfl, hpaid⟩
    · have hpaid := (h payer u).mpr (isSome_iff_ne_none.mpr hne)
      simp [hnone] at hpaid
    · by_cases hu : old = u
      · rw [hu, row_drop_self] at hne
        exact hne rfl
      · rw [row_drop_of_ne (by simpa using hu)] at hne
        have hpaid' := (h payer u).mpr (isSome_iff_ne_none.mpr hne)
        rw [hpaid] at hpaid'
        exact hu (Option.some.inj hpaid')
  intro addr u
  by_cases haddr : addr = payer
  · subst haddr
    have hrow : row s'.store (.depositee addr) = some (.raw (be64 paidUntil)) := by
      simp [hstore, row_put, row_drop]
    have hentry : hasExpiryIndex s'.store u addr = true ↔ paidUntil = u := by
      change (row s'.store (.expiry u addr)).isSome = true ↔ _
      by_cases hu : paidUntil = u
      · simp [hstore, row_drop, hu]
      · simp [hstore, row_put, row_drop, hcleared]
    rw [circuitDepositPaidUntil_be64 hrow, hentry, some_inj]
  · have hrow := ((payCircuitDeposit_rows heq).2.2 addr haddr).2
    have hentry : row s'.store (.expiry u addr) = row s.store (.expiry u addr) := by
      have hkeep : row t (.expiry u addr) = row s.store (.expiry u addr) := by
        rcases ht with ⟨rfl, -⟩ | ⟨old, rfl, -⟩
        · rfl
        · exact row_drop_of_ne (by simpa using fun _ => Ne.symm haddr)
      simp [hstore, row_put, row_drop, Ne.symm haddr, hkeep]
    rw [circuitDepositPaidUntil_congr hrow, hasExpiryIndex_congr hentry]
    exact h addr u

theorem exec {op : Op} (hs : Formed s.store) (h : ExpiryExact s.store)
    (heq : k.exec s op = .ok s') : ExpiryExact s'.store := by
  cases op with
  | payCircuitDeposit => exact h.payCircuitDeposit heq
  | endBlock blockTime => exact h.prune hs heq
  | _ =>
    refine h.congr (fun addr => ?_) fun u addr => ?_
    · exact row_exec hs heq (by simp)
    · exact row_exec hs heq (by simp)

theorem run (hs : Formed s.store) (h : ExpiryExact s.store) (ops : List Op) :
    ExpiryExact (Lib.run k.step s ops).store := by
  refine (run_preserves (I := fun t : State ν β => Formed t.store ∧ ExpiryExact t.store) ?_ s ops ⟨hs, h⟩).2
  rintro t op ⟨hformed, ht⟩
  exact orElse_elim (P := fun t : State ν β => Formed t.store ∧ ExpiryExact t.store) ⟨hformed, ht⟩
    fun _ heq => ⟨exec_formed hformed heq, ht.exec hformed heq⟩

end ExpiryExact

/-! ## The time of a payment -/

/-- When a payer's deposit ends, as a number; 0 if there is none. -/
def paidUntilNat (s : Store) (payer : AccAddress) : ℕ := (circuitDepositPaidUntil s payer).elim 0 UInt64.toNat

theorem payCircuitDeposit_paidUntil {s s' : State ν β} {blockTime : Int64} {payer : AccAddress} {years : UInt32}
    (heq : k.payCircuitDeposit s blockTime payer years = .ok s') : years.toNat ≤ 10 ∧
      (circuitDepositPaidUntil s'.store payer).isSome ∧ paidUntilNat s'.store payer =
        (max (nowUnix blockTime).toNat (paidUntilNat s.store payer) +
          years.toNat * circuitDepositSecondsPerYear.toNat) % 2 ^ 64 := by
  unfold Keeper.payCircuitDeposit at heq
  simp only [bind_eq_ok] at heq
  obtain ⟨_, hyears, amt, -, app, -, heq⟩ := heq
  have hle : years.toNat ≤ 10 := by
    simp only [require_eq_ok, Bool.and_eq_true, decide_eq_true_eq] at hyears
    exact UInt32.le_iff_toNat_le.mp hyears.2
  have hperiod : (years.toUInt64 * circuitDepositSecondsPerYear).toNat =
      years.toNat * circuitDepositSecondsPerYear.toNat := by
    rw [UInt64.toNat_mul, UInt32.toNat_toUInt64]
    have hyear : circuitDepositSecondsPerYear.toNat = 31536000 := by decide
    exact Nat.mod_eq_of_lt (by rw [hyear]; omega)
  have hstart : ∀ start : UInt64, (start + years.toUInt64 * circuitDepositSecondsPerYear).toNat =
      (start.toNat + years.toNat * circuitDepositSecondsPerYear.toNat) % 2 ^ 64 := fun start => by
    rw [UInt64.toNat_add, hperiod]
  have hwritten : ∀ (t : Store) (u : UInt64), circuitDepositPaidUntil (deleteCircuitDepositGC
      (setCircuitDepositExpiry (setCircuitDepositee t payer u) u payer) payer) payer = some u := by
    intro t u
    refine circuitDepositPaidUntil_be64 ?_
    change row (drop (put (put t (.depositee payer) _) (.expiry u payer) _) (.gc payer)) _ = _
    simp [row_put, row_drop]
  refine ⟨hle, ?_⟩
  unfold paidUntilNat
  cases hpaid : circuitDepositPaidUntil s.store payer with
  | none =>
    simp only [hpaid] at heq
    cases heq
    rw [hwritten, elim_some, elim_none, hstart, Nat.max_zero]
    exact ⟨rfl, rfl⟩
  | some old =>
    simp only [hpaid] at heq
    cases heq
    rw [hwritten, elim_some, elim_some, hstart]
    refine ⟨rfl, ?_⟩
    split_ifs with hlt
    · rw [UInt64.lt_iff_toNat_lt] at hlt
      rw [max_eq_right (by omega)]
    · rw [UInt64.lt_iff_toNat_lt] at hlt
      rw [max_eq_left (by omega)]

/-! ## Runs -/

/-- A payment moves the end of a deposit by at most ten years. -/
theorem paidUntilNat_exec {n : ℕ} {s s' : State ν β} {op : Op} (hn : n < 2 ^ 34) (hs : Formed s.store)
    (h : ∀ addr, paidUntilNat s.store addr < 2 ^ 63 + 315360000 * n) (heq : k.exec s op = .ok s')
    (addr : AccAddress) : paidUntilNat s'.store addr < 2 ^ 63 + 315360000 * (n + 1) := by
  have hsame : row s'.store (.depositee addr) = row s.store (.depositee addr) →
      paidUntilNat s'.store addr < 2 ^ 63 + 315360000 * (n + 1) := by
    intro hrow
    have hlt := h addr
    rw [paidUntilNat, circuitDepositPaidUntil_congr hrow, ← paidUntilNat]
    omega
  cases op with
  | payCircuitDeposit blockTime payer years =>
    by_cases haddr : addr = payer
    · subst haddr
      obtain ⟨hyears, -, hpaid⟩ := payCircuitDeposit_paidUntil heq
      have hnow := toNat_nowUnix_lt blockTime
      have hlt := h addr
      have hyear : circuitDepositSecondsPerYear.toNat = 31536000 := by decide
      rw [hpaid, hyear]
      refine (Nat.mod_le _ _).trans_lt ?_
      omega
    · exact hsame ((payCircuitDeposit_rows heq).2.2 addr haddr).2
  | endBlock blockTime =>
    have hends : row s'.store (.depositee addr) = row s.store (.depositee addr) ∨
        row s'.store (.depositee addr) = none := row_prune_or hs (by simp) heq
    rcases hends with hrow | hnone
    · exact hsame hrow
    · rw [paidUntilNat, circuitDepositPaidUntil_of_none hnone, elim_none]
      omega
  | _ => exact hsame (row_exec hs heq (by simp))

/-- No time of a deposit comes near the end of its range in a run of fewer than `2 ^ 34` operations. -/
theorem paidUntilNat_run {s : State ν β} (hs : Formed s.store) (hnone : ∀ addr, row s.store (.depositee addr) = none)
    {ops : List Op} (hlen : ops.length < 2 ^ 34) (addr : AccAddress) :
    paidUntilNat (run k.step s ops).store addr < 2 ^ 63 + 315360000 * 2 ^ 34 := by
  have hstep : ∀ n (t : State ν β) (op : Op), n < 2 ^ 34 →
      (Formed t.store ∧ ∀ addr, paidUntilNat t.store addr < 2 ^ 63 + 315360000 * n) → True →
      Formed (k.step t op).store ∧ ∀ addr, paidUntilNat (k.step t op).store addr < 2 ^ 63 + 315360000 * (n + 1) := by
    rintro n t op hn ⟨ht, hlt⟩ -
    refine orElse_elim (P := fun t' : State ν β => Formed t'.store ∧
      ∀ addr, paidUntilNat t'.store addr < 2 ^ 63 + 315360000 * (n + 1)) ⟨ht, fun addr => ?_⟩ fun t' heq => ?_
    · have hlt' := hlt addr
      omega
    · exact ⟨exec_formed ht heq, paidUntilNat_exec hn ht hlt heq⟩
  have hstart : ∀ addr, paidUntilNat s.store addr < 2 ^ 63 + 315360000 * 0 := by
    intro addr
    rw [paidUntilNat, circuitDepositPaidUntil_of_none (hnone addr)]
    decide
  have halong : Along k.step (fun _ _ => True) s ops := Along.of_forall (fun _ _ => trivial) s ops
  have hrun := (run_counted
    hstep ops 0 s (by omega) halong ⟨hs, hstart⟩).2 addr
  omega

/-- The expiry index is exact in every state reached from a store without deposits, and a payment sets the end of the
payer's deposit to the years it buys after the end it had, or now if that is later; the 64-bit sum does not wrap
around in the first `2 ^ 34` operations. -/
theorem expiry_index_exact (s₀ : State ν β) (hformed : Formed s₀.store)
    (hnone : ∀ key : Key, key.ofDeposit → row s₀.store key = none) (ops : List Op) :
    let s := run k.step s₀ ops
    (∀ addr u, circuitDepositPaidUntil s.store addr = some u ↔ hasExpiryIndex s.store u addr = true) ∧
    (∀ addr u u', circuitDepositPaidUntil s.store addr = some u → hasExpiryIndex s.store u' addr = true → u' = u) ∧
    ∀ blockTime payer years s', k.payCircuitDeposit s blockTime payer years = .ok s' →
      ∃ u, circuitDepositPaidUntil s'.store payer = some u ∧
        u.toNat = (max (nowUnix blockTime).toNat (paidUntilNat s.store payer) +
          years.toNat * circuitDepositSecondsPerYear.toNat) % 2 ^ 64 ∧
        (ops.length < 2 ^ 34 → u.toNat = max (nowUnix blockTime).toNat (paidUntilNat s.store payer) +
          years.toNat * circuitDepositSecondsPerYear.toNat) := by
  intro s
  have hstart : ExpiryExact s₀.store := by
    intro addr u
    have hentry : row s₀.store (.expiry u addr) = none := hnone _ trivial
    rw [circuitDepositPaidUntil_of_none (hnone (.depositee addr) trivial)]
    change _ ↔ (row s₀.store (.expiry u addr)).isSome = true
    rw [hentry]
    simp
  have hexact : ExpiryExact s.store := hstart.run hformed ops
  refine ⟨hexact, fun addr u u' hpaid hentry => ?_, fun blockTime payer years s' heq => ?_⟩
  · rw [← hexact, hpaid] at hentry
    exact (Option.some.inj hentry).symm
  · obtain ⟨hyears, hsome, hpaid⟩ := payCircuitDeposit_paidUntil heq
    obtain ⟨u, hu⟩ := isSome_iff_exists.mp hsome
    rw [paidUntilNat, hu] at hpaid
    refine ⟨u, hu, hpaid, fun hlen => hpaid.trans (Nat.mod_eq_of_lt ?_)⟩
    have hnow := toNat_nowUnix_lt blockTime
    have hlt := paidUntilNat_run (k := k) hformed (fun addr => hnone (.depositee addr) trivial) hlen payer
    have hyear : circuitDepositSecondsPerYear.toNat = 31536000 := by decide
    change paidUntilNat s.store payer < _ at hlt
    rw [hyear]
    omega

/-- Account 1 pays for a year, and for two more before it is over; the entry has moved along. -/
theorem renewed_deposit_indexed :
    let s := sampleRun [.payCircuitDeposit 0 (account 1) 1, .payCircuitDeposit 100 (account 1) 2, .endBlock 200]
    circuitDepositPaidUntil s.store (account 1) = some 94608000 ∧ hasExpiryIndex s.store 94608000 (account 1) = true ∧
      hasExpiryIndex s.store 31536000 (account 1) = false := by
  intro s
  have hnone : ∀ key : Key, key.ofDeposit → row (initialStore nobodyParams) key = none := by
    intro key hkey
    exact row_initialStore (by rintro rfl; exact hkey)
  have hexact := expiry_index_exact (k := sample.keeper) ⟨initialStore nobodyParams, {}, ()⟩
    (initialStore_formed nobodyParams) hnone [.payCircuitDeposit 0 (account 1) 1,
      .payCircuitDeposit 100 (account 1) 2, .endBlock 200]
  have hpaid : circuitDepositPaidUntil s.store (account 1) = some 94608000 := by decide +kernel
  refine ⟨hpaid, (hexact.1 _ _).mp hpaid, ?_⟩
  rw [← Bool.not_eq_true]
  intro hentry
  exact absurd (hexact.2.1 _ _ _ hpaid hentry) (by decide)

/-! ## The order of the index -/

theorem expiryKey_sorted {u v : UInt64} (h : u < v) (a b : AccAddress) :
    compare (getCircuitDepositExpiryKey u a) (getCircuitDepositExpiryKey v b) = .lt := by
  rw [getCircuitDepositExpiryKey, getCircuitDepositExpiryKey, be64, be64,
    compare_beBytes_append 8 u.toNat_lt v.toNat_lt,
    Nat.compare_eq_lt.mpr (UInt64.lt_iff_toNat_lt.mp h)]
  rfl

/-- **Expiry keys are ordered by time**: a key is read back as its time and address, an earlier time sorts first
whatever the addresses are, and the range below `now + 1` has the entries of the times up to `now` and no others. -/
theorem expiry_keys_ordered : (∀ u a, parseCircuitDepositExpiryKey (getCircuitDepositExpiryKey u a) = some (u, a)) ∧
    (∀ u v a b, u < v → compare (getCircuitDepositExpiryKey u a) (getCircuitDepositExpiryKey v b) = .lt) ∧
    ∀ (s : Store) (now : UInt64), now.toNat < 2 ^ 64 - 1 →
      (∀ u a value, (getCircuitDepositExpiryKey u a, value) ∈
          s.iteratorBelow circuitDepositExpiryPrefix (be64 (now + 1)) ↔
        s.get (circuitDepositExpiryPrefix ++ getCircuitDepositExpiryKey u a) = some value ∧ u ≤ now) ∧
      (Formed s → ∀ u a, (u, a) ∈ expiredHits s now ↔ hasExpiryIndex s u a = true ∧ u ≤ now) := by
  refine ⟨parse_getCircuitDepositExpiryKey, fun u v a b h => expiryKey_sorted h a b, fun s now hnow => ⟨?_, ?_⟩⟩
  · intro u a value
    rw [KVStore.iteratorBelow, List.mem_filter, KVStore.mem_iterator, expiryKey_lt hnow, decide_eq_true_eq]
  · intro hs u a
    exact (expiredHits_upTo hs hnow).2 u a

/-- At time 7 the entry of time 5 is in the range and that of time 9 is not, though its address is smaller. -/
theorem range_at_seven :
    let s := setCircuitDepositExpiry (setCircuitDepositExpiry .empty 5 (account 2)) 9 (account 1)
    compare (getCircuitDepositExpiryKey 5 (account 2)) (getCircuitDepositExpiryKey 9 (account 1)) = .lt ∧
      (getCircuitDepositExpiryKey 5 (account 2), .raw [1]) ∈
        s.iteratorBelow circuitDepositExpiryPrefix (be64 (7 + 1)) ∧
      (getCircuitDepositExpiryKey 9 (account 1), .raw [1]) ∉
        s.iteratorBelow circuitDepositExpiryPrefix (be64 (7 + 1)) := by
  intro s
  obtain ⟨-, hsorted, hrange⟩ := expiry_keys_ordered
  obtain ⟨hmem, -⟩ := hrange s 7 (by decide)
  refine ⟨hsorted 5 9 _ _ (by decide), (hmem _ _ _).mpr ⟨by decide +kernel, by decide⟩, fun h => ?_⟩
  exact absurd ((hmem _ _ _).mp h).2 (by decide)

end Wasm
