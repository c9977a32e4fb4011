/-
  No circuit is forgotten by the bounded garbage collection.
-/
import Mathlib.Data.Set.Card
import TerpCore.Wasm.System

namespace Wasm

open Lib Outcome Tables

variable {ν β : Type} {k : Keeper ν β}

/-! ## Uploads under a deposit -/

/-- Nobody may upload circuits without a deposit. -/
def Params.Closed (p : Params) : Prop := p.circuitUploadAccess.permission = .nobody

/-- No circuit is uploaded by governance, and the upload rule stays. -/
def Op.Ungoverned : Op → Prop
  | .storeCircuit _ _ _ _ _ authZ | .storeFullCircuit _ _ _ _ _ authZ => authZ ≠ .gov
  | .updateParams _ p => p.Closed
  | _ => True

theorem Params.Closed.allowed {p : Params} (h : p.Closed) (actor : Bytes) :
    p.circuitUploadAccessConfig.allowed actor = some false := by
  have hne : p.circuitUploadAccess.permission ≠ .unspecified := by
    rw [h]
    decide
  rw [circuitUploadAccessConfig, if_pos hne, AccessConfig.allowed, h]

theorem authorizeCircuitUpload_deposit {s : Store} {p : Params} {blockTime : Int64}
    {creator : AccAddress} {access : AccessConfig} {authZ : AuthorizationPolicy} {what : String}
    (hp : row s .params = some (.params p)) (hclosed : p.Closed) (hgov : authZ ≠ .gov)
    (h : k.authorizeCircuitUpload s blockTime creator access authZ what = .ok ()) :
    hasCircuitDeposit s blockTime creator = true := by
  unfold Keeper.authorizeCircuitUpload at h
  rw [getParams_eq_ok.mpr hp] at h
  simp only [ok_bind, bind_eq_ok] at h
  obtain ⟨config, -, ok, hok, h⟩ := h
  have hfalse : ok = false := by
    cases authZ with
    | gov => exact absurd rfl hgov
    | default | partialGov => simpa [AuthorizationPolicy.canCreateCode, hclosed.allowed] using hok
  subst hfalse
  have hboth : access.isSubset config = true ∧ hasCircuitDeposit s blockTime creator = true := by
    simpa [bind_eq_ok] using h
  exact hboth.2

/-! ## The invariant -/

/-- The creator of an indexed circuit, `swept` aside, has a row or a marker, and never both. -/
structure KeepsTrack (swept : Option AccAddress) (s : Store) : Prop where
  formed : Formed s
  closed : ∃ p, row s .params = some (.params p) ∧ p.Closed
  tracked : ∀ {addr : AccAddress} {id : UInt64}, some addr ≠ swept → (row s (.creator addr id)).isSome →
    (row s (.depositee addr)).isSome ∨ (row s (.gc addr)).isSome
  unpaid : ∀ {addr : AccAddress}, (row s (.gc addr)).isSome → row s (.depositee addr) = none

namespace KeepsTrack

variable {swept : Option AccAddress} {s t : Store}

theorem of_rows (h : KeepsTrack swept s) (hformed : Formed t) (hparams : row t .params = row s .params)
    (hrow : ∀ addr, row t (.depositee addr) = row s (.depositee addr))
    (hgc : ∀ addr, row t (.gc addr) = row s (.gc addr))
    (hindex : ∀ addr id, (row t (.creator addr id)).isSome → (row s (.creator addr id)).isSome) :
    KeepsTrack swept t where
  formed := hformed
  closed := by
    rw [hparams]
    exact h.closed
  tracked hne hid := by
    rw [hrow, hgc]
    exact h.tracked hne (hindex _ _ hid)
  unpaid hmarked := by
    rw [hgc] at hmarked
    rw [hrow]
    exact h.unpaid hmarked

theorem drop_expiry (h : KeepsTrack swept s) (u : UInt64) (addr : AccAddress) :
    KeepsTrack swept (drop s (.expiry u addr)) :=
  h.of_rows (FormedOn.drop h.formed _) (row_drop_of_ne (by simp)) (fun _ => row_drop_of_ne (by simp))
    (fun _ => row_drop_of_ne (by simp)) fun _ _ hid => by rwa [row_drop_of_ne (by simp)] at hid

theorem lapse {s : State ν β} (h : KeepsTrack none s.store) (u : UInt64) (addr : AccAddress) :
    KeepsTrack (some addr) (s.lapse u addr).store := by
  constructor
  · exact lapse_formed h.formed u addr
  · simpa [row_lapse] using h.closed
  · intro addr' id hne hid
    have hne : addr' ≠ addr := fun heq => hne (by rw [heq])
    simpa [row_lapse, hne] using h.tracked (by simp) (by simpa [row_lapse] using hid)
  · intro addr' hmarked
    rw [row_lapse_depositee]
    split_ifs
    · rfl
    · exact h.unpaid (by simpa [row_lapse] using hmarked)

theorem mark {addr : AccAddress} (h : KeepsTrack (some addr) s) (hrow : row s (.depositee addr) = none) :
    KeepsTrack none (put s (.gc addr) (.raw [1])) := by
  constructor
  · exact FormedOn.put h.formed trivial
  · rw [row_put_of_ne (by simp)]
    exact h.closed
  · intro addr' id _ hid
    rw [row_put_of_ne (by simp)] at hid
    by_cases haddr : addr' = addr
    · exact .inr (by simp [haddr])
    · rw [row_put_of_ne (by simp), row_put_of_ne (by simpa using Ne.symm haddr)]
      exact h.tracked (by simpa using haddr) hid
  · intro addr' hmarked
    rw [row_put_of_ne (by simp)]
    rw [row_put] at hmarked
    split_ifs at hmarked with haddr
    · cases haddr
      exact hrow
    · exact h.unpaid hmarked

theorem unmark {addr : AccAddress} (h : KeepsTrack (some addr) s)
    (hnone : ∀ id, row s (.creator addr id) = none) : KeepsTrack none (drop s (.gc addr)) := by
  constructor
  · exact FormedOn.drop h.formed _
  · rw [row_drop_of_ne (by simp)]
    exact h.closed
  · intro addr' id _ hid
    rw [row_drop_of_ne (by simp)] at hid
    by_cases haddr : addr' = addr
    · simp [haddr, hnone] at hid
    · rw [row_drop_of_ne (by simp), row_drop_of_ne (by simpa using Ne.symm haddr)]
      exact h.tracked (by simpa using haddr) hid
  · intro addr' hmarked
    rw [row_drop_of_ne (by simp)]
    rw [row_drop] at hmarked
    split_ifs at hmarked
    · cases hmarked
    · exact h.unpaid hmarked

theorem sweep {s : State ν β} {addr : AccAddress} (h : KeepsTrack (some addr) s.store)
    (hrow : row s.store (.depositee addr) = none) (max : Nat) :
    KeepsTrack none (k.pruneAndMark s addr max).1.store := by
  refine pruneAndMark_ends (J := fun s => KeepsTrack none s.store)
    (I := fun s => KeepsTrack (some addr) s.store ∧ row s.store (.depositee addr) = none)
    h.formed ?_ ?_ ?_ max ⟨h, hrow⟩
  · rintro s id - ⟨h, hrow⟩
    have hkeep : ∀ key : Key, ¬ key.ofCircuit id →
        row (k.pruneCircuit addr s id).store key = row s.store key := fun key => row_pruneCircuit addr s
    refine ⟨h.of_rows ((pruneCircuit_touches k addr s id).formedOn h.formed)
      (hkeep _ (by simp)) (fun _ => hkeep _ (by simp))
      (fun _ => hkeep _ (by simp)) fun addr' id' hid => ?_,
      (hkeep _ (by simp)).trans hrow⟩
    rcases row_pruneCircuit_or addr s id (.creator addr' id') with heq | heq
    · rwa [heq] at hid
    · simp [heq] at hid
  · rintro s ⟨h, hrow⟩
    exact h.mark hrow
  · rintro s hnone ⟨h, -⟩
    exact h.unmark hnone

theorem weaken (h : KeepsTrack none s) (addr : AccAddress) : KeepsTrack (some addr) s :=
  ⟨h.formed, h.closed, fun _ => h.tracked (by simp), h.unpaid⟩

theorem prune {s s' : State ν β} {blockTime : Int64} (h : KeepsTrack none s.store)
    (heq : k.pruneExpiredCircuitDeposits s blockTime = .ok s') : KeepsTrack none s'.store := by
  refine prune_unpaid_rule (I := fun t => KeepsTrack none t.store) (fun _ ht => ht.formed) (fun _ => h.unpaid)
    ?_ ?_ ⟨?_, ?_⟩ heq h
  · intro t addr max _ hrow ht
    exact (ht.weaken addr).sweep hrow max
  · intro t u addr ht
    exact ht.drop_expiry u addr
  · rintro t u addr - ⟨p, hp, hallowed⟩ ht
    obtain ⟨p', hp', hclosed⟩ := ht.closed
    obtain rfl : p = p' := by simpa [hp] using hp'
    simp [hclosed.allowed] at hallowed
  · intro t u addr max _ _ ht
    exact (ht.lapse u addr).sweep (by simp [row_lapse]) max

theorem storeCircuit {s s' : State ν β} {blockTime : Int64} {creator : AccAddress} {paramID : UInt64}
    {vkBody : Bytes} {access : Option AccessConfig} {authZ : AuthorizationPolicy} {id : UInt64}
    (h : KeepsTrack none s.store) (hgov : authZ ≠ .gov)
    (heq : k.storeCircuit s blockTime creator paramID vkBody access authZ = .ok (id, s')) :
    KeepsTrack none s'.store := by
  have htouches := storeCircuit_touches heq
  have hkeep : ∀ key : Key, key.part ∈ [Part.deposits, .params] → row s'.store key = row s.store key :=
    fun key => htouches.kept (by simp)
  obtain ⟨params, body, info, _, _, _, hauth, -, -, -, -, -, -, -, -, hstore⟩ := storeCircuit_eq_ok heq
  obtain ⟨p, hp, hclosed⟩ := h.closed
  have hdeposit := authorizeCircuitUpload_deposit hp hclosed hgov hauth
  have hpaid : (row s.store (.depositee creator)).isSome := by
    unfold hasCircuitDeposit at hdeposit
    cases hpaid : circuitDepositPaidUntil s.store creator with
    | none => simp [hpaid] at hdeposit
    | some u => exact circuitDepositPaidUntil_eq_some hpaid
  constructor
  · exact htouches.formedOn h.formed
  · rw [hkeep .params (by simp)]
    exact h.closed
  · intro addr id' _ hid
    rw [hkeep (.depositee addr) (by simp), hkeep (.gc addr) (by simp)]
    by_cases haddr : addr = creator
    · exact .inl (haddr ▸ hpaid)
    · have hindex : (row s.store (.creator addr id')).isSome := by
        simpa [hstore, row_put, Ne.symm haddr] using hid
      exact h.tracked (by simp) hindex
  · intro addr hmarked
    rw [hkeep (.gc addr) (by simp)] at hmarked
    rw [hkeep (.depositee addr) (by simp)]
    exact h.unpaid hmarked

theorem payCircuitDeposit {s s' : State ν β} {blockTime : Int64} {payer : AccAddress} {years : UInt32}
    (h : KeepsTrack none s.store) (heq : k.payCircuitDeposit s blockTime payer years = .ok s') :
    KeepsTrack none s'.store := by
  have htouches := payCircuitDeposit_touches heq
  obtain ⟨hgc, hpaid, hother⟩ := payCircuitDeposit_rows heq
  constructor
  · exact htouches.formedOn h.formed
  · rw [htouches.row_eq (by simp)]
    exact h.closed
  · intro addr id _ hid
    rw [htouches.row_eq (by simp)] at hid
    by_cases haddr : addr = payer
    · exact .inl (haddr ▸ hpaid)
    · rw [(hother addr haddr).1, (hother addr haddr).2]
      exact h.tracked (by simp) hid
  · intro addr hmarked
    by_cases haddr : addr = payer
    · simp [haddr, hgc] at hmarked
    · rw [(hother addr haddr).1] at hmarked
      rw [(hother addr haddr).2]
      exact h.unpaid hmarked

theorem of_parts (h : KeepsTrack swept s) {parts : List Part} (htouches : Touches (InParts parts) s t)
    (hparts : parts.Disjoint [.deposits, .circuits, .params]) : KeepsTrack swept t := by
  refine h.of_rows (htouches.formedOn h.formed) (htouches.kept hparts (by simp))
    (fun _ => htouches.kept hparts (by simp)) (fun _ => htouches.kept hparts (by simp)) fun addr id hid => ?_
  rwa [htouches.kept hparts (by simp)] at hid

theorem exec {s s' : State ν β} {op : Op} (h : KeepsTrack none s.store) (hop : op.Ungoverned)
    (heq : k.exec s op = .ok s') : KeepsTrack none s'.store := by
  cases op with
  | storeCircuit =>
    obtain ⟨id, heq⟩ := resultState_eq_ok heq
    exact h.storeCircuit hop heq
  | storeFullCircuit =>
    obtain ⟨t, paramID, id, hparam, hcircuit⟩ := exec_storeFullCircuit heq
    exact (h.of_parts (storeVkParam_touches hparam) (by simp)).storeCircuit hop hcircuit
  | payCircuitDeposit => exact h.payCircuitDeposit heq
  | updateParams authority p =>
    have hformed := exec_formed h.formed heq
    obtain ⟨-, hstore⟩ := updateParams_eq_ok heq
    rw [hstore] at hformed ⊢
    refine ⟨hformed, ⟨p, row_put_self .., hop⟩, fun {addr id} hne hid => ?_, fun {addr} hmarked => ?_⟩
    · rw [row_put_of_ne (by simp)] at hid
      rw [row_put_of_ne (by simp), row_put_of_ne (by simp)]
      exact h.tracked hne hid
    · rw [row_put_of_ne (by simp)] at hmarked
      rw [row_put_of_ne (by simp)]
      exact h.unpaid hmarked
  | endBlock blockTime => exact h.prune heq
  | _ => exact h.of_parts (exec_touches h.formed heq) (by simp)

end KeepsTrack

/-! ## Runs -/

theorem run_keepsTrack {p : Params} (hp : p.Closed) (vm : ν) (app : β) (ops : List Op)
    (hops : ∀ op ∈ ops, op.Ungoverned) :
    KeepsTrack none (run k.step ⟨initialStore p, vm, app⟩ ops).store := by
  have hstart : KeepsTrack none (initialStore p) :=
    { formed := initialStore_formed p
      closed := ⟨p, row_put_self .., hp⟩
      tracked := fun _ hid => by simp [row_initialStore] at hid
      unpaid := fun hmarked => by simp [row_initialStore] at hmarked }
  refine run_invariant (I := fun s : State ν β => KeepsTrack none s.store) ?_
    ⟨initialStore p, vm, app⟩ ops (Along.of_mem hops _) hstart
  intro s op h hop
  exact orElse_elim (P := fun t : State ν β => KeepsTrack none t.store) h fun _ heq => h.exec hop heq

/-- **No circuit is forgotten: in every run without governance uploads under a closed upload rule, the
creator of an indexed circuit has a row or a marker, no address has both, and one collection removes at
most `maxCircuitDepositGCCircuits` circuits.** -/
theorem creators_tracked {p : Params} (hp : p.Closed) (vm : ν) (app : β) (ops : List Op)
    (hops : ∀ op ∈ ops, op.Ungoverned) :
    let s := run k.step ⟨initialStore p, vm, app⟩ ops
    (∀ addr, hasCircuitCreatorIndex s.store addr = true →
      (row s.store (.depositee addr)).isSome ∨ (row s.store (.gc addr)).isSome) ∧
    (∀ addr, ¬ ((row s.store (.gc addr)).isSome ∧ (row s.store (.depositee addr)).isSome)) ∧
    ∀ blockTime, {id | (getCircuitInfo s.store id).isSome ∧
      getCircuitInfo (k.step s (.endBlock blockTime)).store id = none}.encard ≤
        maxCircuitDepositGCCircuits := by
  intro s
  have htrack : KeepsTrack none s.store := run_keepsTrack hp vm app ops hops
  refine ⟨fun addr hindex => ?_, fun addr hboth => ?_, fun blockTime => ?_⟩
  · obtain ⟨id, hid⟩ := hasCircuitCreatorIndex_eq_true htrack.formed hindex
    exact htrack.tracked (by simp) hid
  · rw [htrack.unpaid hboth.1] at hboth
    simp at hboth
  · obtain ⟨ids, hle, hids⟩ : ∃ ids : List UInt64, ids.length ≤ maxCircuitDepositGCCircuits ∧
        ∀ id, id ∉ ids → row (k.step s (.endBlock blockTime)).store (.circuit id) = row s.store (.circuit id) :=
      orElse_elim
        ⟨[], by simp, fun _ _ => rfl⟩ fun _ heq => prune_count htrack.formed heq
    have hsub : {id | (getCircuitInfo s.store id).isSome ∧
        getCircuitInfo (k.step s (.endBlock blockTime)).store id = none} ⊆ (ids.toFinset : Set UInt64) := by
      rintro id ⟨hsome, hnone⟩
      by_contra hid
      rw [getCircuitInfo_congr (hids id (by simpa using hid))] at hnone
      simp [hnone] at hsome
    calc _ ≤ (ids.toFinset : Set UInt64).encard := Set.encard_le_encard hsub
      _ ≤ maxCircuitDepositGCCircuits := by exact_mod_cast ids.toFinset_card_le.trans hle

/-- After the year of `lapsedOps` one circuit is left, and its creator is marked. -/
theorem lapsed_creator_tracked :
    let s := sampleRun lapsedOps
    hasCircuitCreatorIndex s.store (Tables.account 1) = true ∧
      ((row s.store (.depositee (Tables.account 1))).isSome ∨
        (row s.store (.gc (Tables.account 1))).isSome) ∧
      ¬ ((row s.store (.gc (Tables.account 1))).isSome ∧
        (row s.store (.depositee (account 1))).isSome) ∧
      {id | (getCircuitInfo s.store id).isSome ∧
        getCircuitInfo (sample.keeper.step s (.endBlock 31536006)).store id = none}.encard ≤
          maxCircuitDepositGCCircuits := by
  intro s
  obtain ⟨htracked, hunpaid, hcount⟩ := creators_tracked (k := sample.keeper) (p := nobodyParams)
    rfl {} () lapsedOps (by simp [lapsedOps, Op.Ungoverned])
  have hindex : hasCircuitCreatorIndex s.store (account 1) = true := by decide
  exact ⟨hindex, htracked _ hindex, hunpaid _, hcount 31536006⟩

end Wasm
