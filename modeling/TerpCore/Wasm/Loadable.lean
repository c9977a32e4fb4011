/-
  Circuits that stay loadable.

  The store knows a circuit by its id and the engine by its hash.
-/
import TerpCore.Wasm.Export
import TerpCore.Wasm.PinIndex
import TerpCore.Wasm.Vm

namespace Wasm

open Lib Outcome Keeper

variable {β : Type}

/-- The engine has every circuit of the store, and has pinned those that the index says are pinned. -/
def Content.Loadable (c : Content) (s : State Vm β) : Prop :=
  ∀ id info, row s.store (.circuit id) = some (.circuitInfo info) →
    c.hasCircuit s.vm info.circuitHash = true ∧
      (isPinnedCircuit s.store id = true → info.circuitHash ∈ s.vm.pinnedCircuits)

/-- A circuit with the hash was removed. -/
def Removed (s t : Store) (hash : Bytes) : Prop :=
  ∃ id info, row s (.circuit id) = some (.circuitInfo info) ∧ row t (.circuit id) = none ∧
    info.circuitHash = hash

/-- No circuit that is left has the hash of one that was removed. -/
def NoneShared (s t : Store) : Prop :=
  ∀ id info, row t (.circuit id) = some (.circuitInfo info) → ¬ Removed s t info.circuitHash

/-- The operations but the upload of wasm code. -/
def Op.OnCircuits : Op → Prop
  | .storeCode .. => False
  | _ => True

/-! ## Garbage collection -/

section prune

variable {c : Content} {k : Keeper Vm β}

theorem removed_congr {s t t' : Store} (h : ∀ id, row t' (.circuit id) = row t (.circuit id)) (hash : Bytes) :
    Removed s t' hash ↔ Removed s t hash := by
  simp only [Removed, h]

/-- What the engine lost since `s`: the hashes of the circuits that were removed. -/
structure Pruned (c : Content) (s t : State Vm β) : Prop where
  rows : ∀ id, row t.store (.circuit id) = row s.store (.circuit id) ∨ row t.store (.circuit id) = none
  held : ∀ hash, c.hasCircuit t.vm hash = true ↔
    c.hasCircuit s.vm hash = true ∧ ¬ Removed s.store t.store hash
  pinned : ∀ hash, hash ∈ t.vm.pinnedCircuits ↔
    hash ∈ s.vm.pinnedCircuits ∧ ¬ Removed s.store t.store hash

theorem Pruned.refl (s : State Vm β) : Pruned c s s := by
  have hnone : ∀ hash, ¬ Removed s.store s.store hash := by
    rintro hash ⟨id, info, hrow, hnone, -⟩
    simp [hrow] at hnone
  exact ⟨fun _ => .inl rfl, fun hash => by simp [hnone hash], fun hash => by simp [hnone hash]⟩

variable {s t s' : State Vm β} {blockTime : Int64}

theorem Pruned.of_rows {t' : State Vm β} (h : Pruned c s t)
    (hrows : ∀ id, row t'.store (.circuit id) = row t.store (.circuit id)) (hvm : t'.vm = t.vm) :
    Pruned c s t' where
  rows := fun id => by
    rw [hrows]
    exact h.rows id
  held := fun hash => by
    rw [hvm, removed_congr hrows]
    exact h.held hash
  pinned := fun hash => by
    rw [hvm, removed_congr hrows]
    exact h.pinned hash

theorem hasCircuit_removeCircuit (vm : Vm) (hash hash' : Bytes) :
    c.hasCircuit (c.engine.removeCircuit (c.engine.unpinCircuit vm hash) hash) hash' = true ↔
      c.hasCircuit vm hash' = true ∧ hash' ≠ hash := by
  simp only [Content.hasCircuit_iff, Content.engine, List.mem_filter, bne_iff_ne]
  constructor
  · rintro ⟨blob, ⟨hmem, hne⟩, hkey⟩
    exact ⟨⟨blob, hmem, hkey⟩, fun heq => hne (by rw [hkey, heq])⟩
  · rintro ⟨⟨blob, hmem, hkey⟩, hne⟩
    exact ⟨blob, ⟨hmem, fun heq => hne (Option.some.inj (hkey.symm.trans heq))⟩, hkey⟩

theorem mem_pinned_removeCircuit (vm : Vm) (hash hash' : Bytes) :
    hash' ∈ (c.engine.removeCircuit (c.engine.unpinCircuit vm hash) hash).pinnedCircuits ↔
      hash' ∈ vm.pinnedCircuits ∧ hash' ≠ hash := by
  simp [Content.engine]

theorem Pruned.row_eq_some (h : Pruned c s t) {id : UInt64} {v : Value} (hrow : row t.store (.circuit id) = some v) :
    row s.store (.circuit id) = some v := by
  rcases h.rows id with heq | heq
  · rw [← heq, hrow]
  · simp [hrow] at heq

theorem Pruned.pruneCircuit (hengine : k.engine = c.engine) (h : Pruned c s t) (creator : AccAddress)
    (id : UInt64) : Pruned c s (k.pruneCircuit creator t id) := by
  rcases pruneCircuit_cases k creator t id with ⟨info, hrow, hstore, hvm⟩ | heq
  · have hother : ∀ id', id' ≠ id →
        row (k.pruneCircuit creator t id).store (.circuit id') = row t.store (.circuit id') := fun id' hid' =>
      row_pruneCircuit creator t hid'
    have hgone : row (k.pruneCircuit creator t id).store (.circuit id) = none := by
      rw [hstore, row_deleteCircuitRows, if_pos (by simp [circuitRows])]
    have hrow' := h.row_eq_some hrow
    have hremoved : ∀ hash, Removed s.store (k.pruneCircuit creator t id).store hash ↔
        Removed s.store t.store hash ∨ hash = info.circuitHash := by
      intro hash
      constructor
      · rintro ⟨id', info', hinfo', hnone, rfl⟩
        by_cases hid' : id' = id
        · subst hid'
          obtain rfl : info = info' := by simpa [hrow'] using hinfo'
          exact .inr rfl
        · exact .inl ⟨id', info', hinfo', (hother id' hid').symm.trans hnone, rfl⟩
      · rintro (⟨id', info', hinfo', hnone, rfl⟩ | rfl)
        · have hid' : id' ≠ id := by
            rintro rfl
            simp [hrow] at hnone
          exact ⟨id', info', hinfo', (hother id' hid').trans hnone, rfl⟩
        · exact ⟨id, info, hrow', hgone, rfl⟩
    rw [hengine] at hvm
    refine ⟨fun id' => ?_, fun hash => ?_, fun hash => ?_⟩
    · by_cases hid' : id' = id
      · rw [hid']
        exact .inr hgone
      · rw [hother id' hid']
        exact h.rows id'
    · rw [hvm, hasCircuit_removeCircuit, h.held, hremoved]
      tauto
    · rw [hvm, mem_pinned_removeCircuit, h.pinned, hremoved]
      tauto
  · rw [heq]
    exact h.of_rows (fun id' => row_drop_of_ne (by simp)) rfl

theorem prune_pruned (hengine : k.engine = c.engine) (hformed : Formed s.store)
    (h : k.pruneExpiredCircuitDeposits s blockTime = .ok s') : Pruned c s s' := by
  refine prune_steps_rule hformed (fun t addr id ht => ht.pruneCircuit hengine addr id)
    (fun t key hkey ht => ?_) (fun t addr ht => ?_) h (.refl s)
  · exact ht.of_rows (fun id => row_drop_of_ne (by rintro rfl; exact hkey)) rfl
  · exact ht.of_rows (fun id => row_put_of_ne (by simp)) rfl

/-- The pin of a circuit goes with it. -/
def PinsNamed (s : Store) : Prop := ∀ id, (row s (.pin id)).isSome → (row s (.circuit id)).isSome

theorem pruneCircuit_pinsNamed (h : PinsNamed t.store) (creator : AccAddress) (id : UInt64) :
    PinsNamed (k.pruneCircuit creator t id).store := by
  intro id' hpin
  rcases pruneCircuit_cases k creator t id with ⟨info, -, hstore, -⟩ | heq
  · have hne : id' ≠ id := by
      rintro rfl
      rw [hstore, row_deleteCircuitRows, if_pos (by simp [circuitRows])] at hpin
      cases hpin
    have hkeep : ∀ key : Key, (key = .pin id' ∨ key = .circuit id') →
        row (k.pruneCircuit creator t id).store key = row t.store key := by
      rintro key (rfl | rfl)
      · exact row_pruneCircuit creator t hne
      · exact row_pruneCircuit creator t hne
    rw [hkeep _ (.inl rfl)] at hpin
    rw [hkeep _ (.inr rfl)]
    exact h id' hpin
  · rw [heq] at hpin ⊢
    rw [row_drop_of_ne (by simp)] at hpin ⊢
    exact h id' hpin

theorem prune_pinsNamed (hformed : Formed s.store) (hs : PinsNamed s.store)
    (h : k.pruneExpiredCircuitDeposits s blockTime = .ok s') : PinsNamed s'.store := by
  refine prune_steps_rule (I := fun t => PinsNamed t.store) hformed
    (fun t addr id ht => pruneCircuit_pinsNamed ht addr id) (fun t key hkey ht id hpin => ?_)
    (fun t addr ht id hpin => ?_) h hs
  · rw [row_drop_of_ne (by rintro rfl; exact hkey)] at hpin ⊢
    exact ht id hpin
  · rw [row_put_of_ne (by simp)] at hpin ⊢
    exact ht id hpin

theorem isPinnedCircuit_eq (s : Store) (id : UInt64) : isPinnedCircuit s id = (row s (.pin id)).isSome := rfl

theorem prune_loadable (hengine : k.engine = c.engine) (hformed : Formed s.store) (hs : c.Loadable s)
    (hshared : NoneShared s.store s'.store)
    (h : k.pruneExpiredCircuitDeposits s blockTime = .ok s') : c.Loadable s' := by
  have hpruned := prune_pruned hengine hformed h
  intro id info hrow
  obtain ⟨hheld, hpinned⟩ := hs id info (hpruned.row_eq_some hrow)
  refine ⟨(hpruned.held _).mpr ⟨hheld, hshared id info hrow⟩, fun hpin => ?_⟩
  refine (hpruned.pinned _).mpr ⟨hpinned ?_, hshared id info hrow⟩
  rw [isPinnedCircuit_eq] at hpin ⊢
  have hor : row s'.store (.pin id) = row s.store (.pin id) ∨ row s'.store (.pin id) = none :=
    row_prune_or hformed (by simp) h
  rcases hor with heq | heq
  · rwa [heq] at hpin
  · simp [heq] at hpin

end prune

/-! ## The other operations -/

/-- What holds in every state: circuits are loadable, pins are those of circuits, and there is no code. -/
structure Content.Served (c : Content) (s : State Vm β) : Prop where
  loadable : c.Loadable s
  pinsNamed : PinsNamed s.store
  noCode : ∀ id, row s.store (.code id) = none

section served

variable {c : Content} {k : Keeper Vm β} {s s' : State Vm β}

variable {id : UInt64} {authZ : AuthorizationPolicy} {op : Op}

theorem Content.Loadable.of_rows (h : c.Loadable s) {info : CircuitInfo}
    (hcircuit : row s'.store (.circuit id) = row s.store (.circuit id))
    (hpin : row s'.store (.pin id) = row s.store (.pin id)) (hcircuits : s.vm.circuits ⊆ s'.vm.circuits)
    (hpinned : s'.vm.pinnedCircuits = s.vm.pinnedCircuits)
    (hrow : row s'.store (.circuit id) = some (.circuitInfo info)) :
    c.hasCircuit s'.vm info.circuitHash = true ∧
      (isPinnedCircuit s'.store id = true → info.circuitHash ∈ s'.vm.pinnedCircuits) := by
  obtain ⟨hheld, himp⟩ := h id info (hcircuit.symm.trans hrow)
  obtain ⟨blob, hmem, hkey⟩ := Content.hasCircuit_iff.mp hheld
  refine ⟨Content.hasCircuit_iff.mpr ⟨blob, hcircuits hmem, hkey⟩, ?_⟩
  rw [hpinned]
  simpa only [isPinnedCircuit_eq, hpin] using himp

theorem Content.Served.of_rows (h : c.Served s)
    (hrows : ∀ key : Key, key.part ∈ [Part.codes, .circuits, .pins] → row s'.store key = row s.store key)
    (hcircuits : s.vm.circuits ⊆ s'.vm.circuits) (hpinned : s'.vm.pinnedCircuits = s.vm.pinnedCircuits) :
    c.Served s' where
  loadable := fun id info => h.loadable.of_rows (hrows (.circuit id) (by simp))
    (hrows (.pin id) (by simp)) hcircuits hpinned
  pinsNamed := fun id hpin => by
    rw [hrows (.pin id) (by simp)] at hpin
    rw [hrows (.circuit id) (by simp)]
    exact h.pinsNamed id hpin
  noCode := fun id => (hrows (.code id) (by simp)).trans (h.noCode id)

theorem storeVkParam_served (hengine : k.engine = c.engine) (h : c.Served s) {blockTime : Int64}
    {creator : AccAddress} {hasAuth : Bool} {paramBytes : Bytes}
    (heq : k.storeVkParam s blockTime creator hasAuth paramBytes authZ = .ok (id, s')) : c.Served s' := by
  obtain ⟨params, info, -, hvm, -⟩ := storeVkParam_eq_ok heq
  rw [hengine] at hvm
  obtain ⟨-, hvm'⟩ := Content.storeParam_eq_some hvm
  exact h.of_rows (fun key => (storeVkParam_touches heq).kept (by simp))
    (by rw [hvm']; exact List.Subset.refl _) (by rw [hvm'])

theorem storeCircuit_served (hengine : k.engine = c.engine) {n : ℕ} (hn : Numbered n s.store) (h : c.Served s)
    {blockTime : Int64} {creator : AccAddress} {paramID : UInt64} {vkBody : Bytes} {access : Option AccessConfig}
    (heq : k.storeCircuit s blockTime creator paramID vkBody access authZ = .ok (id, s')) : c.Served s' := by
  have hkeep : ∀ key : Key, key.part ∉ [Part.sequence .circuit, .circuits] →
      row s'.store key = row s.store key := fun key => (storeCircuit_touches heq).row_eq
  have halloc := storeCircuit_alloc heq
  obtain ⟨params, body, info, paramInfo, key, vm, -, -, -, hparam, -, hvm, -, -, hid, hstore⟩ :=
    storeCircuit_eq_ok heq
  rw [hengine] at hparam hvm
  obtain ⟨-, rfl⟩ := Content.storeParam_eq_some hparam
  obtain ⟨hkey, hvm'⟩ := Content.storeCircuit_eq_some hvm
  have hother : ∀ id', id' ≠ id → row s'.store (.circuit id') = row s.store (.circuit id') := fun id' hid' =>
    halloc.rows rfl (by simpa [Key.numbered] using hid')
  have hnew : row s'.store (.circuit id) = some (.circuitInfo info) := by simp [hstore, row_put]
  -- the id is new, so that it is not pinned
  have hunpinned : (row s.store (.pin id)).isSome = false := by
    by_contra hpin
    have hcircuit := h.pinsNamed id (by simpa [Option.isSome_iff_ne_none] using hpin)
    rw [hn.row_next (q := .circuit) rfl hid] at hcircuit
    cases hcircuit
  refine ⟨fun id' info' hrow => ?_, fun id' hpin => ?_, fun id' => ?_⟩
  · by_cases hid' : id' = id
    · subst hid'
      obtain rfl : info = info' := by simpa [hnew] using hrow
      refine ⟨Content.hasCircuit_iff.mpr ⟨params ++ body, by simp [hvm'], hkey⟩, fun hpin => ?_⟩
      rw [isPinnedCircuit_eq, hkeep _ (by simp), hunpinned] at hpin
      cases hpin
    · exact h.loadable.of_rows (hother id' hid') (hkeep _ (by simp)) (by rw [hvm']; simp) (by rw [hvm']) hrow
  · rw [hkeep _ (by simp)] at hpin
    by_cases hid' : id' = id
    · rw [hid', hnew]
      rfl
    · rw [hother id' hid']
      exact h.pinsNamed id' hpin
  · rw [hkeep _ (by simp)]
    exact h.noCode id'

theorem Content.Served.of_pins (h : c.Served s) {keys : List Bytes}
    (hrows : ∀ key : Key, key.part ≠ .pins → row s'.store key = row s.store key)
    (hvm : s'.vm = { s.vm with pinnedCircuits := keys })
    (hpins : ∀ id, (row s'.store (.pin id)).isSome →
      ∃ info, row s.store (.circuit id) = some (.circuitInfo info) ∧ info.circuitHash ∈ keys) : c.Served s' where
  loadable := by
    intro id info hrow
    rw [hrows _ (by simp)] at hrow
    rw [hvm]
    refine ⟨(h.loadable id info hrow).1, fun hpin => ?_⟩
    obtain ⟨info', hrow', hmem⟩ := hpins id hpin
    obtain rfl : info = info' := by simpa [hrow] using hrow'
    exact hmem
  pinsNamed := by
    intro id hpin
    obtain ⟨info, hrow, -⟩ := hpins id hpin
    rw [hrows _ (by simp), hrow]
    rfl
  noCode := fun id => (hrows _ (by simp)).trans (h.noCode id)

theorem pinCircuit_served (hengine : k.engine = c.engine) (hformed : Formed s.store) (h : c.Served s)
    (heq : k.pinCircuit s id = .ok s') : c.Served s' := by
  obtain ⟨-, hstore, info, keys, hrow, hkeys, hvm⟩ := pinCircuit_eq_ok heq
  rw [hengine] at hvm
  refine h.of_pins (fun key hkey => ?_) (Content.syncPinnedCircuits_eq_some hvm) fun id' hpin => ?_
  · rw [hstore, row_put_of_ne]
    rintro rfl
    exact hkey rfl
  · by_cases hid' : id' = id
    · subst hid'
      exact ⟨info, hrow, by simp⟩
    · rw [hstore, row_put_of_ne (by simpa using Ne.symm hid')] at hpin
      obtain ⟨info', hrow', hmem⟩ := mem_collectPinnedCircuitKeys hformed hkeys hpin (by simp)
      exact ⟨info', hrow', by simp [hmem]⟩

theorem unpinCircuit_served (hengine : k.engine = c.engine) (hformed : Formed s.store) (h : c.Served s)
    (heq : k.unpinCircuit s id = .ok s') : c.Served s' := by
  obtain ⟨hstore, keys, hkeys, hvm⟩ := unpinCircuit_eq_ok heq
  rw [hengine] at hvm
  refine h.of_pins (fun key hkey => ?_) (Content.syncPinnedCircuits_eq_some hvm) fun id' hpin => ?_
  · rw [hstore, row_drop_of_ne]
    rintro rfl
    exact hkey rfl
  · have hid' : id ≠ id' := by
      rintro rfl
      simp [hstore, row_drop_self] at hpin
    rw [hstore, row_drop_of_ne (by simpa using hid')] at hpin
    exact mem_collectPinnedCircuitKeys hformed hkeys hpin (by simpa using hid')

theorem getCodeInfo_of_noCode (h : c.Served s) (id : UInt64) : getCodeInfo s.store id = none := by
  cases hinfo : getCodeInfo s.store id with
  | none => rfl
  | some info =>
    have hrow := getCodeInfo_eq_some.mp hinfo
    simp [h.noCode] at hrow

/-- An operation keeps the circuits loadable if none of those it removes shares its hash with one that it
leaves. -/
theorem exec_served (hengine : k.engine = c.engine) {n : ℕ} (hformed : Formed s.store) (hn : Numbered n s.store)
    (hwrap : n + 2 < 2 ^ 64) (hop : op.OnCircuits) (hshared : NoneShared s.store s'.store)
    (heq : k.exec s op = .ok s') (h : c.Served s) : c.Served s' := by
  have hquiet : op.parts.Disjoint [.codes, .circuits, .pins] → s'.vm = s.vm → c.Served s' := by
    intro hparts hvm
    exact h.of_rows (fun key => (exec_touches hformed heq).kept hparts) (by rw [hvm]; exact List.Subset.refl _)
      (by rw [hvm])
  cases op with
  | storeCode => exact hop.elim
  | storeVkParam =>
    obtain ⟨id, heq⟩ := resultState_eq_ok heq
    exact storeVkParam_served hengine h heq
  | storeCircuit =>
    obtain ⟨id, heq⟩ := resultState_eq_ok heq
    exact storeCircuit_served hengine hn h heq
  | storeFullCircuit =>
    obtain ⟨t, paramID, id, hparam, hcircuit⟩ := exec_storeFullCircuit heq
    exact storeCircuit_served hengine (hn.alloc hwrap (storeVkParam_alloc hparam))
      (storeVkParam_served hengine h hparam) hcircuit
  | payCircuitDeposit =>
    exact hquiet (by simp) (payCircuitDeposit_eq_ok heq).1
  | updateParams => exact hquiet (by simp) (updateParams_eq_ok heq).1
  | pinCode id => simp [exec, pinCode, getCodeInfo_of_noCode h] at heq
  | unpinCode id => simp [exec, unpinCode, getCodeInfo_of_noCode h] at heq
  | pinCircuit id => exact pinCircuit_served hengine hformed h heq
  | unpinCircuit id => exact unpinCircuit_served hengine hformed h heq
  | endBlock blockTime =>
    exact ⟨prune_loadable hengine hformed h.loadable hshared heq, prune_pinsNamed hformed h.pinsNamed heq,
      fun id => (row_exec hformed heq (by simp)).trans (h.noCode id)⟩

theorem circuit_kept (hformed : Formed s.store) (hop : ∀ blockTime, op ≠ .endBlock blockTime)
    (heq : k.exec s op = .ok s') (hid : (row s.store (.circuit id)).isSome) :
    (row s'.store (.circuit id)).isSome := by
  have hstored : ∀ {s s' : State Vm β} {blockTime creator paramID vkBody access authZ id'},
      k.storeCircuit s blockTime creator paramID vkBody access authZ = .ok (id', s') →
      (row s.store (.circuit id)).isSome → (row s'.store (.circuit id)).isSome := by
    intro s s' blockTime creator paramID vkBody access authZ id' heq hid
    obtain ⟨params, body, info, paramInfo, key, vm, -, -, -, -, -, -, -, -, -, hstore⟩ := storeCircuit_eq_ok heq
    simp [hstore, isSome_row_put, hid]
  have hquiet : Part.circuits ∉ op.parts → (row s'.store (.circuit id)).isSome := by
    intro hparts
    have hkeep : row s'.store (.circuit id) = row s.store (.circuit id) := row_exec hformed heq hparts
    rwa [hkeep]
  cases op with
  | storeCircuit =>
    obtain ⟨id', heq⟩ := resultState_eq_ok heq
    exact hstored heq hid
  | storeFullCircuit =>
    obtain ⟨t, paramID, id', hparam, hcircuit⟩ := exec_storeFullCircuit heq
    refine hstored hcircuit ?_
    rwa [(storeVkParam_touches hparam).row_eq (by simp)]
  | endBlock blockTime => exact absurd rfl (hop blockTime)
  | _ => exact hquiet (by simp)

theorem noneShared_of_kept {s t : Store} (h : ∀ id, (row s (.circuit id)).isSome → (row t (.circuit id)).isSome) :
    NoneShared s t := by
  rintro id info - ⟨id', info', hrow, hnone, -⟩
  have hkept := h id' (Option.isSome_iff_exists.mpr ⟨_, hrow⟩)
  simp [hnone] at hkept

theorem step_keeps_circuits (hformed : Formed s.store) (hop : ∀ blockTime, op ≠ .endBlock blockTime) :
    NoneShared s.store (k.step s op).store :=
  orElse_elim (P := fun t : State Vm β => NoneShared s.store t.store) (noneShared_of_kept fun _ => id) fun _ heq =>
    noneShared_of_kept fun _ => circuit_kept hformed hop heq

theorem noneShared_of_loadable (hengine : k.engine = c.engine) (hformed : Formed s.store)
    (hloadable : c.Loadable s') (heq : k.exec s op = .ok s') : NoneShared s.store s'.store := by
  by_cases hop : ∃ blockTime, op = .endBlock blockTime
  · obtain ⟨blockTime, rfl⟩ := hop
    intro id info hrow
    exact (((prune_pruned hengine hformed heq).held _).mp (hloadable id info hrow).1).2
  · exact noneShared_of_kept fun id => circuit_kept hformed (fun blockTime hop' => hop ⟨blockTime, hop'⟩) heq

theorem step_noneShared (hengine : k.engine = c.engine) (hformed : Formed s.store)
    (hloadable : c.Loadable (k.step s op)) : NoneShared s.store (k.step s op).store := by
  revert hloadable
  exact orElse_elim (fun _ => noneShared_of_kept fun _ => id) fun _ heq hloadable =>
      noneShared_of_loadable hengine hformed hloadable heq

theorem loadable_of_noneShared (hengine : k.engine = c.engine) (p : Params) (vm : Vm) (app : β) {ops : List Op}
    (hops : ∀ op ∈ ops, op.OnCircuits) (hlen : ops.length < 2 ^ 63)
    (halong : Along k.step (fun s op => NoneShared s.store (k.step s op).store) ⟨initialStore p, vm, app⟩ ops) :
    ∀ before, before <+: ops → c.Loadable (run k.step ⟨initialStore p, vm, app⟩ before) := by
  have hstart : c.Served (⟨initialStore p, vm, app⟩ : State Vm β) :=
    { loadable := fun id info hrow => by simp [row_initialStore] at hrow
      pinsNamed := fun id hpin => by simp [row_initialStore] at hpin
      noCode := fun id => row_initialStore (by simp) }
  rintro before ⟨after, rfl⟩
  have hbefore : Along k.step (fun s op => op.OnCircuits ∧ NoneShared s.store (k.step s op).store)
      ⟨initialStore p, vm, app⟩ before := by
    refine along_iff_forall_before.mpr ?_
    rintro ops₁ op ops₂ rfl
    exact ⟨hops op (by simp), along_iff_forall_before.mp halong ops₁ op (ops₂ ++ after) (by simp)⟩
  have hexec : ∀ {n : ℕ} {s s' : State Vm β} {op : Op}, Formed s.store → Numbered n s.store → n + 2 < 2 ^ 64 →
      op.OnCircuits ∧ NoneShared s.store (k.step s op).store → k.exec s op = .ok s' → c.Served s →
      c.Served s' := by
    rintro n s s' op hs hn hwrap ⟨hop, hshared⟩ heq h
    rw [step, heq] at hshared
    exact exec_served hengine hs hn hwrap hop hshared heq h
  rw [List.length_append] at hlen
  obtain ⟨-, -, -, hserved⟩ := run_numbered_along hexec hstart before (by omega) hbefore
  exact hserved.loadable

end served

/-- Circuits stay loadable exactly in the runs in which no removed circuit shares its hash with one that is left. -/
theorem loadable_iff (c : Content) (k : Keeper Vm β) (hengine : k.engine = c.engine) (p : Params) (vm : Vm)
    (app : β) (ops : List Op) (hops : ∀ op ∈ ops, op.OnCircuits) (hlen : ops.length < 2 ^ 63) :
    (∀ before, before <+: ops → c.Loadable (run k.step ⟨initialStore p, vm, app⟩ before)) ↔
      Along k.step (fun s op => NoneShared s.store (k.step s op).store) ⟨initialStore p, vm, app⟩ ops := by
  refine ⟨fun hloadable => along_iff_forall_before.mpr ?_, loadable_of_noneShared hengine p vm app hops hlen⟩
  rintro before op after rfl
  have hafter := hloadable (before ++ [op]) ⟨after, by simp⟩
  rw [run_append] at hafter
  exact step_noneShared hengine (run_formed p vm app before) hafter

/-- No two circuits have the same hash. -/
def DistinctHashes (s : Store) : Prop := ((circuitInfos s).map fun e => e.2.circuitHash).Nodup

instance (s : Store) : Decidable (DistinctHashes s) := inferInstanceAs (Decidable (List.Nodup _))

/-- What a collection needs of the state before it. -/
def Op.Separated (s : Store) : Op → Prop
  | .endBlock _ => DistinctHashes s
  | _ => True

instance (s : Store) : ∀ op : Op, Decidable (op.Separated s)
  | .endBlock _ => inferInstanceAs (Decidable (DistinctHashes s))
  | .storeCode .. | .storeVkParam .. | .storeCircuit .. | .storeFullCircuit .. | .payCircuitDeposit ..
  | .updateParams .. | .pinCode _ | .unpinCode _ | .pinCircuit _ | .unpinCircuit _ => .isTrue trivial

theorem noneShared_of_distinct {s t : Store} (hs : Formed s) (h : DistinctHashes s)
    (hrows : ∀ id, row t (.circuit id) = row s (.circuit id) ∨ row t (.circuit id) = none) : NoneShared s t := by
  rintro id info hrow ⟨id', info', hrow', hnone, hhash⟩
  rcases hrows id with heq | heq
  · have heq' := List.inj_on_of_nodup_map h ((mem_circuitInfos hs).mpr hrow')
      ((mem_circuitInfos hs).mpr (heq ▸ hrow)) hhash
    simp [(Prod.mk.inj heq').1, hrow] at hnone
  · simp [hrow] at heq

theorem step_separated {c : Content} {k : Keeper Vm β} (hengine : k.engine = c.engine) {s : State Vm β} {op : Op}
    (hs : Formed s.store) (h : op.Separated s.store) : NoneShared s.store (k.step s op).store := by
  by_cases hop : ∃ blockTime, op = .endBlock blockTime
  · obtain ⟨blockTime, rfl⟩ := hop
    exact orElse_elim (P := fun t : State Vm β => NoneShared s.store t.store)
      (noneShared_of_kept fun _ => id) fun _ heq => noneShared_of_distinct hs h (prune_pruned hengine hs heq).rows
  · exact step_keeps_circuits hs fun blockTime heq => hop ⟨blockTime, heq⟩

theorem along_separated {c : Content} {k : Keeper Vm β} (hengine : k.engine = c.engine) {p : Params} {vm : Vm} {app : β}
    {ops : List Op} (h : Along k.step (fun s op => op.Separated s.store) ⟨initialStore p, vm, app⟩ ops) :
    Along k.step (fun s op => NoneShared s.store (k.step s op).store) ⟨initialStore p, vm, app⟩ ops := by
  refine along_iff_forall_before.mpr fun before op after heq => ?_
  exact step_separated hengine (run_formed p vm app before) (along_iff_forall_before.mp h before op after heq)

/-- **Circuits stay loadable in the runs in which no two circuits share a hash when a block ends.** -/
theorem loadable_of_distinct (c : Content) (k : Keeper Vm β) (hengine : k.engine = c.engine) (p : Params) (vm : Vm)
    (app : β) (ops : List Op) (hops : ∀ op ∈ ops, op.OnCircuits) (hlen : ops.length < 2 ^ 63)
    (hdistinct : Along k.step (fun s op => op.Separated s.store) ⟨initialStore p, vm, app⟩ ops) :
    ∀ before, before <+: ops → c.Loadable (run k.step ⟨initialStore p, vm, app⟩ before) :=
  loadable_of_noneShared hengine p vm app hops hlen (along_separated hengine hdistinct)

/-! ## Circuits with the same bytes -/

/-- Two accounts pay, one for a year and one for two, and store a circuit each.  After a year the first one's
goes. -/
def yearOps (body : Bytes) : List Op :=
  [.payCircuitDeposit 0 (Tables.account 1) 1, .payCircuitDeposit 0 (Tables.account 2) 2,
    .storeVkParam 0 (Tables.account 1) true Tables.sampleParams .default,
    .storeCircuit 0 (Tables.account 1) 1 Tables.sampleBody none .default,
    .storeCircuit 0 (Tables.account 2) 1 body none .default, .pinCircuit 2, .endBlock 31536000]

/-- A circuit with another verifying key. -/
def Tables.otherBody : Bytes := 0x77 :: sampleBody.tail

def Tables.otherCircuitKey : Bytes := sampleParamKey ++ List.replicate 36 1

def Tables.twoCircuits : Tables :=
  { sampleNode with circuits :=
      [(sampleParams ++ sampleBody, sampleCircuitKey), (sampleParams ++ otherBody, otherCircuitKey)] }

open Tables in
/-- The second circuit has other bytes, and is there and pinned when the first one is collected. -/
theorem pinned_circuit_loadable :
    let s := run twoCircuits.nodeKeeper.step ⟨initialStore nobodyParams, {}, ()⟩ (yearOps otherBody)
    (circuitInfos s.store).map Prod.fst = [2] ∧ isPinnedCircuit s.store 2 = true ∧ twoCircuits.content.Loadable s := by
  refine ⟨by decide +kernel, by decide +kernel, ?_⟩
  refine (loadable_iff twoCircuits.content twoCircuits.nodeKeeper rfl nobodyParams {} () (yearOps otherBody)
    (by simp [yearOps, Op.OnCircuits]) (by decide)).mpr ?_ _ List.prefix_rfl
  exact along_separated rfl (by decide +kernel)

/-- Both accounts store the same circuit. -/
def sharedOps : List Op := yearOps Tables.sampleBody

open Tables in
/-- The second circuit is still there and pinned, but the engine has dropped its hash. -/
theorem shared_circuit_not_loadable :
    let s := run sampleNode.nodeKeeper.step ⟨initialStore nobodyParams, {}, ()⟩ sharedOps
    (∀ op ∈ sharedOps, op.OnCircuits) ∧ isPinnedCircuit s.store 2 = true ∧ ∃ info,
      row s.store (.circuit 2) = some (.circuitInfo info) ∧
      sampleNode.content.hasCircuit s.vm info.circuitHash = false ∧ info.circuitHash ∉ s.vm.pinnedCircuits := by
  intro s
  have hsome : ((getCircuitInfo s.store 2).any fun info =>
      !sampleNode.content.hasCircuit s.vm info.circuitHash && !s.vm.pinnedCircuits.contains info.circuitHash) =
      true := by decide +kernel
  obtain ⟨info, hinfo, hmissing⟩ := (Option.any_eq_true _ _).mp hsome
  refine ⟨by simp [sharedOps, yearOps, Op.OnCircuits], by decide +kernel, info, getCircuitInfo_eq_some.mp hinfo, ?_⟩
  simpa using hmissing

end Wasm
