/-
  Garbage collection and coverage: what a collection may delete.
-/
import TerpCore.Wasm.System

namespace Wasm

open Lib Tables

variable {ν β : Type} {k : Keeper ν β}

/-! ## Deposits -/

variable {s : Store} {addr : AccAddress} {blockTime : Int64} {s' : State ν β}

theorem circuitDepositPaidUntil_congr {t : Store} (h : row t (.depositee addr) = row s (.depositee addr)) :
    circuitDepositPaidUntil t addr = circuitDepositPaidUntil s addr := by
  rw [circuitDepositPaidUntil, show t.get (getCircuitDepositeeKey addr) = row t (.depositee addr) from rfl, h]
  rfl

theorem circuitDepositPaidUntil_of_none
    (h : row s (.depositee addr) = none) : circuitDepositPaidUntil s addr = none := by
  rw [circuitDepositPaidUntil, show s.get (getCircuitDepositeeKey addr) = row s (.depositee addr) from rfl, h]

theorem hasCircuitDeposit_of_row_eq_none (h : row s (.depositee addr) = none) (blockTime : Int64) :
    hasCircuitDeposit s blockTime addr = false := by
  rw [hasCircuitDeposit, circuitDepositPaidUntil_of_none h]

theorem hasCircuitDeposit_of_isDue {u : UInt64}
    (h : isDue s (nowUnix blockTime) u addr = true) : hasCircuitDeposit s blockTime addr = false := by
  obtain ⟨hpaid, hnow⟩ := isDue_eq_true h
  rw [hasCircuitDeposit, hpaid]
  exact decide_eq_false hnow

/-- What the circuit upload rules in force say about `addr`. -/
def Keeper.circuitUploadAllowed (k : Keeper ν β) (s : Store) (addr : AccAddress) : Bool :=
  match getParams s with
  | .ok p => p.circuitUploadAccessConfig.allowed (k.bech32 addr) == some true
  | _ => false

theorem circuitUploadAllowed_of_ruled {b : Bool} (h : k.Ruled s addr b) : k.circuitUploadAllowed s addr = b := by
  obtain ⟨p, hp, hb⟩ := h
  simp [Keeper.circuitUploadAllowed, getParams_eq_ok.mpr hp, hb]

theorem ruled_congr {t : Store} (h : row t .params = row s .params) {b : Bool} :
    k.Ruled t addr b ↔ k.Ruled s addr b := by
  unfold Keeper.Ruled
  rw [h]

/-! ## The indexes -/

/-- Marked addresses have no deposit, and the index of a creator leads to circuits of that creator. -/
structure Indexed (k : Keeper ν β) (s : Store) : Prop where
  unpaid : ∀ {addr : AccAddress}, (row s (.gc addr)).isSome → row s (.depositee addr) = none
  circuit : ∀ {addr : AccAddress} {id : UInt64}, (row s (.creator addr id)).isSome →
    ∃ info, row s (.circuit id) = some (.circuitInfo info) ∧ k.accAddressFromBech32 info.creator = some addr

theorem Indexed.congr {t : Store} (h : Indexed k s)
    (hrows : ∀ key : Key, key.part ∈ [Part.deposits, .circuits] → row t key = row s key) : Indexed k t where
  unpaid {addr} hgc := by
    rw [hrows (.gc addr) (by simp)] at hgc
    rw [hrows (.depositee addr) (by simp)]
    exact h.unpaid hgc
  circuit {addr id} hcreator := by
    rw [hrows (.creator addr id) (by simp)] at hcreator
    rw [hrows (.circuit id) (by simp)]
    exact h.circuit hcreator

/-- An index entry that is worked off is gone with its circuit, since a circuit has one creator. -/
theorem Indexed.pruneCircuit {s : State ν β} {id : UInt64} (h : Indexed k s.store)
    (hindex : (row s.store (.creator addr id)).isSome) :
    Indexed k (k.pruneCircuit addr s id).store ∧ row (k.pruneCircuit addr s id).store (.circuit id) = none := by
  obtain ⟨info, hinfo, hcreator⟩ := h.circuit hindex
  have hrows := row_pruneCircuit_of_circuit hinfo hcreator
  have hkeep : ∀ key : Key, ¬ key.ofCircuit id →
      row (k.pruneCircuit addr s id).store key = row s.store key := fun key => row_pruneCircuit addr s
  refine ⟨⟨fun {addr'} hmarked => ?_, fun {addr' id'} hindex' => ?_⟩, by rw [hrows, if_pos (by simp)]⟩
  · rw [hkeep (.gc addr') (by simp)] at hmarked
    rw [hkeep (.depositee addr') (by simp)]
    exact h.unpaid hmarked
  · by_cases hid : id' = id
    · subst hid
      rcases row_pruneCircuit_or addr s id' (.creator addr' id') with heq | heq
      · rw [heq] at hindex'
        obtain ⟨info', hinfo', hcreator'⟩ := h.circuit hindex'
        obtain rfl : info = info' := by simpa [hinfo] using hinfo'
        cases hcreator.symm.trans hcreator'
        rw [← heq, hrows, if_pos (by simp)] at hindex'
        cases hindex'
      · simp [heq] at hindex'
    · rw [hkeep (.creator addr' id') (by simpa using hid)] at hindex'
      rw [hkeep (.circuit id') (by simpa using hid)]
      exact h.circuit hindex'

theorem storeCircuit_indexed {n : ℕ} {s : State ν β} {creator : AccAddress} {paramID : UInt64} {vkBody : Bytes}
    {access : Option AccessConfig} {authZ : AuthorizationPolicy} {id : UInt64} (hs : Numbered n s.store)
    (hread : k.accAddressFromBech32 (k.bech32 creator) = some creator) (h : Indexed k s.store)
    (heq : k.storeCircuit s blockTime creator paramID vkBody access authZ = .ok (id, s')) : Indexed k s'.store := by
  obtain ⟨params, body, info, _, _, _, -, -, -, -, -, -, hcreator, -, hid, hstore⟩ :=
    storeCircuit_eq_ok heq
  have hfresh : row s.store (.circuit id) = none := hs.row_next rfl hid
  constructor
  · intro addr hgc
    simp only [hstore, row_put] at hgc ⊢
    exact h.unpaid hgc
  · intro addr id' hindex
    simp only [hstore, row_put] at hindex ⊢
    by_cases hid' : id = id'
    · subst hid'
      refine ⟨info, by simp, ?_⟩
      by_cases haddr : creator = addr
      · rw [hcreator, hread, haddr]
      · -- the id is new, so no other index has it
        have hindex' : (row s.store (.creator addr id)).isSome := by simpa [haddr] using hindex
        obtain ⟨info', hinfo', -⟩ := h.circuit hindex'
        simp [hfresh] at hinfo'
    · have hindex' : (row s.store (.creator addr id')).isSome := by simpa [hid'] using hindex
      simpa [hid'] using h.circuit hindex'

theorem payCircuitDeposit_indexed {s : State ν β} {payer : AccAddress} {years : UInt32} (h : Indexed k s.store)
    (heq : k.payCircuitDeposit s blockTime payer years = .ok s') :
    Indexed k s'.store := by
  obtain ⟨hgc, -, hother⟩ := payCircuitDeposit_rows heq
  have hkeep : ∀ key : Key, key.part = .circuits → row s'.store key = row s.store key := by
    intro key hkey
    exact (payCircuitDeposit_touches heq).row_eq (by simp [hkey, -Key.part])
  constructor
  · intro addr hmarked
    by_cases hpayer : addr = payer
    · simp [hpayer, hgc] at hmarked
    · rw [(hother addr hpayer).1] at hmarked
      rw [(hother addr hpayer).2]
      exact h.unpaid hmarked
  · intro addr id hindex
    rw [hkeep (.creator addr id) rfl] at hindex
    rw [hkeep (.circuit id) rfl]
    exact h.circuit hindex

/-! ## Collections -/

/-- An address that a collection may take circuits from: it has no deposit in force, and it is marked or
not allowed. -/
def Keeper.Exposed (k : Keeper ν β) (blockTime : Int64) (s : Store) (addr : AccAddress) : Prop :=
  hasCircuitDeposit s blockTime addr = false ∧ (addr ∈ pendingGC s ∨ k.Ruled s addr false)

/-- What a collection that started from `s₀` has done so far. -/
structure Collected (k : Keeper ν β) (blockTime : Int64) (s₀ s : Store) : Prop where
  formed : Formed s
  indexed : Indexed k s
  params : row s .params = row s₀ .params
  deposit : ∀ addr, row s (.depositee addr) = row s₀ (.depositee addr) ∨
    row s (.depositee addr) = none ∧ hasCircuitDeposit s₀ blockTime addr = false
  circuit : ∀ id, row s (.circuit id) = row s₀ (.circuit id) ∨ row s (.circuit id) = none ∧
    ∃ addr info, row s₀ (.circuit id) = some (.circuitInfo info) ∧ k.accAddressFromBech32 info.creator = some addr ∧
      k.Exposed blockTime s₀ addr

namespace Collected

variable {blockTime : Int64} {s₀ : Store} {s : State ν β} {addr : AccAddress}

theorem refl (hs : Formed s.store) (hindexed : Indexed k s.store) : Collected k blockTime s.store s.store :=
  ⟨hs, hindexed, rfl, fun _ => .inl rfl, fun _ => .inl rfl⟩

variable (h : Collected k blockTime s₀ s.store)

include h

theorem of_rows {t : Store} (hformed : Formed t)
    (hgc : ∀ addr, (row t (.gc addr)).isSome → row s.store (.depositee addr) = none)
    (hrows : ∀ key : Key, (∀ addr, key ≠ .gc addr) → (∀ u addr, key ≠ .expiry u addr) →
      row t key = row s.store key) : Collected k blockTime s₀ t where
  formed := hformed
  indexed :=
    { unpaid := fun {addr} hmarked => by
        rw [hrows (.depositee addr) (by simp) (by simp)]
        exact hgc addr hmarked
      circuit := fun {addr id} hindex => by
        rw [hrows (.creator addr id) (by simp) (by simp)] at hindex
        rw [hrows (.circuit id) (by simp) (by simp)]
        exact h.indexed.circuit hindex }
  params := (hrows .params (by simp) (by simp)).trans h.params
  deposit addr := by
    rw [hrows (.depositee addr) (by simp) (by simp)]
    exact h.deposit addr
  circuit id := by
    rw [hrows (.circuit id) (by simp) (by simp)]
    exact h.circuit id

theorem drop_expiry (u : UInt64) (addr : AccAddress) : Collected k blockTime s₀ (drop s.store (.expiry u addr)) := by
  refine h.of_rows (FormedOn.drop h.formed _) (fun addr' hmarked => ?_) fun key _ hkey =>
    row_drop_of_ne (Ne.symm (hkey u addr))
  rw [row_drop_of_ne (by simp)] at hmarked
  exact h.indexed.unpaid hmarked

theorem drop_gc (addr : AccAddress) : Collected k blockTime s₀ (drop s.store (.gc addr)) := by
  refine h.of_rows (FormedOn.drop h.formed _) (fun addr' hmarked => ?_) fun key hkey _ =>
    row_drop_of_ne (Ne.symm (hkey addr))
  rw [row_drop] at hmarked
  split_ifs at hmarked
  · cases hmarked
  · exact h.indexed.unpaid hmarked

theorem put_gc (hunpaid : row s.store (.depositee addr) = none) :
    Collected k blockTime s₀ (put s.store (.gc addr) (.raw [1])) := by
  refine h.of_rows (FormedOn.put h.formed trivial) (fun addr' hmarked => ?_) fun key hkey _ =>
    row_put_of_ne (Ne.symm (hkey addr))
  rw [row_put] at hmarked
  split_ifs at hmarked with haddr
  · cases haddr
    exact hunpaid
  · exact h.indexed.unpaid hmarked

theorem lapse {u : UInt64} (hdue : isDue s.store (nowUnix blockTime) u addr = true) :
    Collected k blockTime s₀ (s.lapse u addr).store ∧ hasCircuitDeposit s₀ blockTime addr = false := by
  have hpaid := circuitDepositPaidUntil_eq_some (isDue_eq_true hdue).1
  have hrow : row s.store (.depositee addr) = row s₀ (.depositee addr) := by
    rcases h.deposit addr with heq | ⟨heq, -⟩
    · exact heq
    · simp [heq] at hpaid
  have huncovered : hasCircuitDeposit s₀ blockTime addr = false := by
    have hs := hasCircuitDeposit_of_isDue hdue
    rwa [hasCircuitDeposit, circuitDepositPaidUntil_congr hrow] at hs
  refine ⟨⟨lapse_formed h.formed u addr, ⟨fun {addr'} hmarked => ?_, ?_⟩, ?_, fun addr' => ?_, ?_⟩, huncovered⟩
  · rw [row_lapse_depositee]
    split_ifs
    · rfl
    · exact h.indexed.unpaid (by simpa [row_lapse] using hmarked)
  · intro addr' id hindex
    simpa [row_lapse] using h.indexed.circuit (by simpa [row_lapse] using hindex)
  · simpa [row_lapse] using h.params
  · rw [row_lapse_depositee]
    split_ifs with haddr
    · subst haddr
      exact .inr ⟨rfl, huncovered⟩
    · exact h.deposit addr'
  · simpa [row_lapse] using h.circuit

theorem pruneCircuit (haddr : k.Exposed blockTime s₀ addr) {id : UInt64}
    (hindex : (row s.store (.creator addr id)).isSome) : Collected k blockTime s₀ (k.pruneCircuit addr s id).store := by
  obtain ⟨info, hinfo, hcreator⟩ := h.indexed.circuit hindex
  obtain ⟨hindexed, hgone⟩ := h.indexed.pruneCircuit hindex
  have hkeep : ∀ key : Key, ¬ key.ofCircuit id →
      row (k.pruneCircuit addr s id).store key = row s.store key := fun key => row_pruneCircuit addr s
  constructor
  · exact (pruneCircuit_touches k addr s id).formedOn h.formed
  · exact hindexed
  · rw [hkeep .params (by simp)]
    exact h.params
  · intro addr'
    rw [hkeep (.depositee addr') (by simp)]
    exact h.deposit addr'
  · intro id'
    by_cases hid : id' = id
    · subst hid
      rcases h.circuit id' with heq | ⟨heq, -⟩
      · exact .inr ⟨hgone, addr, info, heq ▸ hinfo, hcreator, haddr⟩
      · simp [hinfo] at heq
    · rw [hkeep (.circuit id') (by simpa using hid)]
      exact h.circuit id'

theorem sweep (haddr : k.Exposed blockTime s₀ addr) (hunpaid : row s.store (.depositee addr) = none) (max : Nat) :
    Collected k blockTime s₀ (k.pruneAndMark s addr max).1.store := by
  refine (pruneAndMark_rule (I := fun s => Collected k blockTime s₀ s.store ∧
    row s.store (.depositee addr) = none) h.formed ?_ ?_ ?_ max ⟨h, hunpaid⟩).1
  · rintro s id hindex ⟨h, hunpaid⟩
    exact ⟨h.pruneCircuit haddr hindex, (row_pruneCircuit addr s (by simp)).trans hunpaid⟩
  · rintro s ⟨h, hunpaid⟩
    exact ⟨h.put_gc hunpaid, (row_put_of_ne (by simp)).trans hunpaid⟩
  · rintro s - ⟨h, hunpaid⟩
    exact ⟨h.drop_gc addr, (row_drop_of_ne (by simp)).trans hunpaid⟩

end Collected

theorem prune_collected {s : State ν β} (hs : Formed s.store) (hindexed : Indexed k s.store)
    (heq : k.pruneExpiredCircuitDeposits s blockTime = .ok s') :
    Collected k blockTime s.store s'.store := by
  refine prune_unpaid_rule (I := fun t => Collected k blockTime s.store t.store) (fun _ h => h.formed)
    (fun _ => hindexed.unpaid) ?_ ?_ ⟨?_, ?_⟩ heq (.refl hs hindexed)
  · intro t addr max hpending hrow h
    have hunpaid := hindexed.unpaid (row_gc_of_mem_pendingGC hs hpending)
    exact h.sweep ⟨hasCircuitDeposit_of_row_eq_none hunpaid blockTime, .inl hpending⟩ hrow max
  · intro t u addr h
    exact h.drop_expiry u addr
  · intro t u addr hdue _ h
    exact (h.lapse hdue).1.drop_gc addr
  · intro t u addr max hdue hruled h
    obtain ⟨hlapse, huncovered⟩ := h.lapse hdue
    refine hlapse.sweep ⟨huncovered, .inr ((ruled_congr h.params).mp hruled)⟩ ?_ max
    simp [row_lapse]

/-! ## Runs -/

section runs

theorem exec_indexed {n : ℕ} {s s' : State ν β} {op : Op} (hs : Formed s.store)
    (hn : Numbered n s.store) (hlt : n + 2 < 2 ^ 64) (hread : k.Reads op) (h : Indexed k s.store)
    (heq : k.exec s op = .ok s') : Indexed k s'.store := by
  cases op with
  | storeCircuit =>
    obtain ⟨id, heq⟩ := resultState_eq_ok heq
    exact storeCircuit_indexed hn (hread _ rfl) h heq
  | storeFullCircuit =>
    obtain ⟨t, paramID, id, hparam, hcircuit⟩ := exec_storeFullCircuit heq
    have ht := h.congr fun key => (storeVkParam_touches hparam).kept (by simp)
    exact storeCircuit_indexed (hn.alloc hlt (storeVkParam_alloc hparam)) (hread _ rfl) ht hcircuit
  | payCircuitDeposit => exact payCircuitDeposit_indexed h heq
  | endBlock blockTime => exact (prune_collected hs h heq).indexed
  | _ => exact h.congr fun key => (exec_touches hs heq).kept (by simp)

theorem run_indexed (p : Params) (vm : ν) (app : β) (ops : List Op) (hread : ∀ op ∈ ops, k.Reads op)
    (hlen : ops.length < 2 ^ 63) :
    Formed (run k.step ⟨initialStore p, vm, app⟩ ops).store ∧
      Indexed k (run k.step ⟨initialStore p, vm, app⟩ ops).store := by
  have hstart : Indexed k (initialStore p) :=
    { unpaid := fun h => by simp [row_initialStore] at h
      circuit := fun h => by simp [row_initialStore] at h }
  obtain ⟨n, hs, -, h⟩ := run_numbered_along
    (fun hs hn hlt hread heq h => exec_indexed hs hn hlt hread h heq) hstart ops hlen (.of_mem hread _)
  exact ⟨hs, h⟩

/-- A collection drops a deposit only if it has run out, and a circuit only if its creator has no deposit in force and
may not upload circuits. -/
structure SparesCovered (k : Keeper ν β) (blockTime : Int64) (s s' : Store) : Prop where
  deposit : ∀ addr, (row s (.depositee addr)).isSome → row s' (.depositee addr) = none →
    hasCircuitDeposit s blockTime addr = false
  circuit : ∀ id info creator, getCircuitInfo s id = some info → getCircuitInfo s' id = none →
    k.accAddressFromBech32 info.creator = some creator →
    hasCircuitDeposit s blockTime creator = false ∧ k.circuitUploadAllowed s creator = false

/-- **A collection spares what is covered in every run after which no marked address is allowed to upload
circuits.** -/
theorem sparesCovered_of_marked (p : Params) (vm : ν) (app : β) (ops : List Op) (blockTime : Int64)
    (hread : ∀ op ∈ ops, k.Reads op) (hlen : ops.length < 2 ^ 63)
    (hmarked : ∀ addr ∈ pendingGC (run k.step ⟨initialStore p, vm, app⟩ ops).store,
      k.circuitUploadAllowed (run k.step ⟨initialStore p, vm, app⟩ ops).store addr = false) :
    SparesCovered k blockTime (run k.step ⟨initialStore p, vm, app⟩ ops).store
      (k.step (run k.step ⟨initialStore p, vm, app⟩ ops) (.endBlock blockTime)).store := by
  obtain ⟨hs, hindexed⟩ := run_indexed p vm app ops hread hlen
  generalize run k.step ⟨initialStore p, vm, app⟩ ops = s at hs hindexed hmarked ⊢
  have hcollected : Collected k blockTime s.store (k.step s (.endBlock blockTime)).store :=
    Outcome.orElse_elim (.refl hs hindexed) fun _ heq =>
      prune_collected hs hindexed heq
  constructor
  · intro addr hrow hnone
    rcases hcollected.deposit addr with heq | ⟨-, huncovered⟩
    · simp [← heq, hnone] at hrow
    · exact huncovered
  · intro id info creator hinfo hnone hcreator
    rcases hcollected.circuit id with heq | ⟨-, addr, info', hinfo', haddr, huncovered, hexposed⟩
    · simp [getCircuitInfo_congr heq, hinfo] at hnone
    · have hrow := getCircuitInfo_eq_some.mp hinfo
      obtain rfl : info = info' := by simpa [hrow] using hinfo'
      obtain rfl := Option.some.inj (haddr.symm.trans hcreator)
      refine ⟨huncovered, ?_⟩
      rcases hexposed with hpending | hruled
      · exact hmarked addr hpending
      · exact circuitUploadAllowed_of_ruled hruled

end runs

/-! ## An address that is allowed while it is marked -/

/-- Then governance allows account 1 to upload circuits. -/
def allowedOps : List Op :=
  lapsedOps ++ [.updateParams (string (account 3))
    { defaultParams with circuitUploadAccess := ⟨.anyOfAddresses, [string (account 1)]⟩ }]

/-- The end of the next block removes the third circuit. -/
theorem allowed_circuit_collected :
    let s := sampleRun allowedOps
    let s' := Tables.sample.keeper.step s (.endBlock 31536006)
    ¬ SparesCovered sample.keeper 31536006 s.store s'.store ∧
      sample.keeper.circuitUploadAllowed s.store (account 1) = true ∧
      (circuitInfos s.store).map Prod.fst = [3] ∧ (circuitInfos s'.store).map Prod.fst = [] := by
  refine ⟨fun h => ?_, by decide⟩
  have hcircuit := h.circuit 3 ⟨sampleCircuitKey, string (account 1),
    allowEverybody, 0, 1, 0, 81⟩ (account 1) (by decide) (by decide) (by decide)
  exact absurd hcircuit.2 (by decide)

/-- Without the change of the rules it may go. -/
theorem marked_circuit_collected :
    let s := sampleRun lapsedOps
    let s' := sample.keeper.step s (.endBlock 31536006)
    SparesCovered sample.keeper 31536006 s.store s'.store ∧
      (circuitInfos s.store).map Prod.fst = [3] ∧ (circuitInfos s'.store).map Prod.fst = [] := by
  have hspares := sparesCovered_of_marked (k := sample.keeper) nobodyParams {} () lapsedOps 31536006
    (by decide) (by decide) (by decide)
  exact ⟨hspares, by decide⟩

end Wasm
