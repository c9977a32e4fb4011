/-
  What survives an export and an import.

  Deposits and the indexes of circuits are not part of a genesis.
-/
import TerpCore.Wasm.Acceptance
import TerpCore.Wasm.Coverage

namespace Wasm

open Lib Outcome List Tables Option

variable {ν β : Type} {k : Keeper ν β} {names : Naming}

/-! ## Rows that go with a record -/

/-- The rows of an id that belong together. -/
def Key.ofRecord (id : UInt64) : List Key :=
  [.code id, .circuit id, .circuitParamRef id, .circuitBytes id, .pin id]

/-- A circuit has a reference to its parameters; references and bytes go with a circuit, a pin with a code
or a circuit. -/
structure Attached (s : Store) (id : UInt64) : Prop where
  refers : (row s (.circuit id)).isSome → ∃ paramID, row s (.circuitParamRef id) = some (.raw (be64 paramID))
  paramRef : (row s (.circuitParamRef id)).isSome → (row s (.circuit id)).isSome
  bytes : (row s (.circuitBytes id)).isSome → (row s (.circuit id)).isSome
  pin : (row s (.pin id)).isSome → (row s (.code id)).isSome ∨ (row s (.circuit id)).isSome

namespace Attached

variable {s t : Store} {id : UInt64}

theorem of_circuit (h : Attached s id)
    (hrows : ∀ key ∈ [Key.circuit id, .circuitParamRef id, .circuitBytes id], row t key = row s key)
    (hpin : (row t (.pin id)).isSome → (row t (.code id)).isSome ∨ (row s (.circuit id)).isSome) :
    Attached t id := by
  simp only [forall_mem_cons] at hrows
  obtain ⟨hcircuit, href, hbytes, -⟩ := hrows
  constructor
  · rw [hcircuit, href]
    exact h.refers
  · rw [hcircuit, href]
    exact h.paramRef
  · rw [hcircuit, hbytes]
    exact h.bytes
  · rw [hcircuit]
    exact hpin

theorem congr (h : Attached s id) (hrows : ∀ key ∈ Key.ofRecord id, row t key = row s key) : Attached t id := by
  refine h.of_circuit (fun key hkey => hrows key ?_) ?_
  · simp only [mem_cons, not_mem_nil, or_false] at hkey
    rcases hkey with rfl | rfl | rfl <;> simp [Key.ofRecord]
  · rw [hrows (.pin id) (by simp [Key.ofRecord]), hrows (.code id) (by simp [Key.ofRecord])]
    exact h.pin

theorem of_none (hcircuit : row s (.circuit id) = none) (href : row s (.circuitParamRef id) = none)
    (hbytes : row s (.circuitBytes id) = none) (hpin : row s (.pin id) = none) : Attached s id := by
  constructor <;> simp [*]

theorem pin_put (h : Attached s id) {id' : UInt64} {v : Value}
    (hid' : (row s (.code id')).isSome ∨ (row s (.circuit id')).isSome) :
    Attached (put s (.pin id') v) id := by
  refine h.of_circuit (fun key hkey => row_put_of_ne ?_) fun hpin => ?_
  · rintro rfl
    simp at hkey
  · rw [isSome_row_put, Key.pin.injEq] at hpin
    rw [row_put_of_ne (by simp)]
    rcases hpin with rfl | hpin
    · exact hid'
    · exact h.pin hpin

theorem pin_drop (h : Attached s id) (id' : UInt64) : Attached (drop s (.pin id')) id := by
  refine h.of_circuit (fun key hkey => row_drop_of_ne ?_) fun hpin => ?_
  · rintro rfl
    simp at hkey
  · rw [row_drop] at hpin
    rw [row_drop_of_ne (by simp)]
    split_ifs at hpin
    · cases hpin
    · exact h.pin hpin

theorem pruneCircuit {s : State ν β} (h : Attached s.store id) (creator : AccAddress) (id' : UInt64) :
    Attached (k.pruneCircuit creator s id').store id := by
  by_cases hid : id' = id
  · subst hid
    rcases pruneCircuit_cases k creator s id' with ⟨info, -, hstore, -⟩ | heq
    · refine of_none ?_ ?_ ?_ ?_ <;>
        rw [hstore, row_deleteCircuitRows, if_pos (by simp [Keeper.circuitRows])]
    · rw [heq]
      refine h.congr fun key hkey => row_drop_of_ne ?_
      rintro rfl
      simp [Key.ofRecord] at hkey
  · refine h.congr fun key hkey => ?_
    simp only [Key.ofRecord, mem_cons, not_mem_nil, or_false] at hkey
    rcases hkey with rfl | rfl | rfl | rfl | rfl <;>
      exact row_pruneCircuit creator s (by simp [Ne.symm hid])

theorem storeCircuit {s s' : State ν β} (h : Attached s.store id) {blockTime : Int64}
    {creator : AccAddress} {paramID id' : UInt64} {vkBody : Bytes} {access : Option AccessConfig}
    {authZ : AuthorizationPolicy}
    (heq : k.storeCircuit s blockTime creator paramID vkBody access authZ = .ok (id', s')) :
    Attached s'.store id := by
  obtain ⟨params, body, info, -, -, -, -, -, -, -, -, -, -, -, -, hstore⟩ := storeCircuit_eq_ok heq
  by_cases hid : id' = id
  · subst hid
    have hcircuit : (row s'.store (.circuit id')).isSome := by simp [hstore, row_put]
    exact ⟨fun _ => ⟨paramID, by simp [hstore, row_put]⟩, fun _ => hcircuit, fun _ => hcircuit, fun _ => .inr hcircuit⟩
  · exact h.congr (by simp [Key.ofRecord, hstore, row_put, hid])

theorem create {s s' : State ν β} (h : Attached s.store id) {creator : AccAddress} {wasmCode : Bytes}
    {access : Option AccessConfig} {authZ : AuthorizationPolicy} {id' : UInt64}
    (heq : k.create s creator wasmCode access authZ = .ok (id', s')) : Attached s'.store id := by
  obtain ⟨code, info, -, -, hstore⟩ := create_eq_ok heq
  refine h.of_circuit (fun key hkey => (create_touches heq).row_eq ?_) fun hpin => ?_
  · simp only [mem_cons, not_mem_nil, or_false] at hkey
    rcases hkey with rfl | rfl | rfl <;> simp
  · rw [(create_touches heq).row_eq (by simp)] at hpin
    rcases h.pin hpin with hcode | hcircuit
    · refine .inl ?_
      rw [hstore, isSome_row_put, row_put_of_ne (by simp)]
      exact .inr hcode
    · exact .inr hcircuit

theorem of_parts (h : Attached s id) {parts : List Part} (htouches : Touches (InParts parts) s t)
    (hparts : parts.Disjoint [.codes, .circuits, .pins]) : Attached t id := by
  refine h.congr fun key hkey => htouches.kept hparts ?_
  simp only [Key.ofRecord, mem_cons, not_mem_nil, or_false] at hkey
  rcases hkey with rfl | rfl | rfl | rfl | rfl <;> simp

theorem exec {s s' : State ν β} {op : Op} (hs : Formed s.store) (h : Attached s.store id)
    (heq : k.exec s op = .ok s') : Attached s'.store id := by
  cases op with
  | storeCode =>
    obtain ⟨id, heq⟩ := resultState_eq_ok heq
    exact h.create heq
  | storeCircuit =>
    obtain ⟨id, heq⟩ := resultState_eq_ok heq
    exact h.storeCircuit heq
  | storeFullCircuit =>
    obtain ⟨t, paramID, id, hparam, hcircuit⟩ := exec_storeFullCircuit heq
    exact (h.of_parts (storeVkParam_touches hparam) (by simp)).storeCircuit hcircuit
  | pinCode id' =>
    obtain ⟨hcode, hstore, -⟩ := pinCode_eq_ok heq
    obtain ⟨info, hinfo⟩ := isSome_iff_exists.mp hcode
    rw [hstore]
    exact h.pin_put (.inl (by rw [getCodeInfo_eq_some.mp hinfo]; rfl))
  | unpinCode id' =>
    rw [(unpinCode_eq_ok heq).1]
    exact h.pin_drop id'
  | pinCircuit id' =>
    obtain ⟨hcircuit, hstore, -⟩ := pinCircuit_eq_ok heq
    obtain ⟨info, hinfo⟩ := isSome_iff_exists.mp hcircuit
    rw [hstore]
    exact h.pin_put (.inr (by rw [getCircuitInfo_eq_some.mp hinfo]; rfl))
  | unpinCircuit id' =>
    rw [(unpinCircuit_eq_ok heq).1]
    exact h.pin_drop id'
  | endBlock blockTime =>
    have hwrite : ∀ (t : State ν β) (u : Store), (∀ key, ¬ key.ofDeposit → row u key = row t.store key) →
        Attached t.store id → Attached u id := by
      intro t u hrows ht
      refine ht.congr fun key hkey => hrows key ?_
      simp only [Key.ofRecord, mem_cons, not_mem_nil, or_false] at hkey
      rcases hkey with rfl | rfl | rfl | rfl | rfl <;> exact fun h => h
    refine prune_steps_rule (I := fun t => Attached t.store id) hs
      (fun t addr id' ht => ht.pruneCircuit addr id') ?_ ?_ heq h
    · intro t key hkey ht
      refine hwrite t _ (fun key' hkey' => row_drop_of_ne ?_) ht
      rintro rfl
      exact hkey' hkey
    · intro t addr ht
      refine hwrite t _ (fun key' hkey' => row_put_of_ne ?_) ht
      rintro rfl
      exact hkey' trivial
  | _ => exact h.of_parts (exec_touches hs heq) (by simp)

end Attached

theorem run_attached (p : Params) (vm : ν) (app : β) (ops : List Op) (hlen : ops.length < 2 ^ 63)
    (id : UInt64) : Attached (run k.step ⟨initialStore p, vm, app⟩ ops).store id := by
  obtain ⟨n, -, -, h⟩ := run_numbered (J := fun s : State ν β => Attached s.store id)
    (fun hs _ _ heq h => h.exec hs heq)
    (.of_none (row_initialStore (by simp)) (row_initialStore (by simp)) (row_initialStore (by simp))
      (row_initialStore (by simp))) ops hlen
  exact h

/-! ## What comes back -/

def Keeper.circuitBlob (k : Keeper ν β) (s : State ν β) (zkID : UInt64) : Outcome Err Bytes := do
  let (blob, _) ← k.getCircuit s zkID
  return blob

/-- What a sweep of a creator's circuits finds. -/
def circuitsFound (s : Store) (creator : AccAddress) (max : ℕ) : List UInt64 × Bool :=
  creatorIDs max [] ((s.iterator (getCircuitByCreatorIDPrefix creator)).map Prod.fst)

theorem circuitBlob_of_bytes {s : State ν β} {id : UInt64} {blob : Bytes}
    (h : row s.store (.circuitBytes id) = some (.raw blob)) : k.circuitBlob s id = .ok blob := by
  have hget : s.store.get (getCircuitBytesKey id) = some (.raw blob) := h
  simp only [Keeper.circuitBlob, Keeper.getCircuit, hget]
  rfl

theorem circuitBlob_of_none {s : State ν β} {id : UInt64} (hbytes : row s.store (.circuitBytes id) = none)
    (hcircuit : row s.store (.circuit id) = none) : k.circuitBlob s id = .ok [] := by
  have hget : s.store.get (getCircuitBytesKey id) = none := hbytes
  have hinfo : getCircuitInfo s.store id = none := by
    cases hinfo : getCircuitInfo s.store id with
    | none => rfl
    | some info => simp [getCircuitInfo_eq_some.mp hinfo] at hcircuit
  simp only [Keeper.circuitBlob, Keeper.getCircuit, hget, hinfo]
  rfl

section comesBack

variable {s : State ν β} {s' : State ν β} {data : GenesisState} (hs : Formed s.store)
  (hdata : Exports k names s.store data) (hs' : s'.store = k.written data)
include hs hdata hs'

theorem Exports.circuitBlob (hattached : ∀ id, Attached s.store id) (id : UInt64) :
    k.circuitBlob s' id = k.circuitBlob s id := by
  have hrow : ∀ key : Key, (∀ q, key ≠ .seq q) → row s'.store key = row (k.recorded data) key := by
    intro key hkey
    rw [hs', row_written hdata.idKey hkey]
  by_cases hid : ∃ c ∈ data.circuits, c.zkID = id
  · obtain ⟨c, hc, rfl⟩ := hid
    obtain ⟨-, hheld, -⟩ := hdata.circuit hs hc
    have hbytes := row_circuitBytes_recorded (k := k) (hdata.circuits_nodup hs) hc
    rw [Keeper.unzipped, uncompressIfGzip_of_not_gzip hheld.layout.not_gzip] at hbytes
    rw [circuitBlob_of_bytes hheld.bytes, circuitBlob_of_bytes ((hrow _ (by simp)).trans hbytes)]
    rfl
  · have hnone : row s.store (.circuit id) = none := by
      by_contra hsome
      obtain ⟨info, hinfo⟩ := hs.exists_circuit (isSome_iff_ne_none.mpr hsome)
      obtain ⟨c, hc, hcid, -⟩ := exists_right_of_mem hdata.circuits ((mem_circuitInfos hs).mpr hinfo)
      exact hid ⟨c, hc, hcid⟩
    rw [circuitBlob_of_none ?_ hnone, circuitBlob_of_none ?_ ?_]
    · rw [hrow _ (by simp), ← not_isSome_iff_eq_none, isSome_row_circuitBytes_recorded]
      exact hid
    · rw [hrow _ (by simp), ← not_isSome_iff_eq_none, isSome_row_circuit_recorded]
      exact hid
    · rw [← not_isSome_iff_eq_none]
      intro hbytes
      have hcircuit := (hattached id).bytes hbytes
      simp [hnone] at hcircuit

theorem Exports.pins (hattached : ∀ id, Attached s.store id) (id : UInt64) :
    (row s'.store (.pin id)).isSome ↔ (row s.store (.pin id)).isSome := by
  rw [hs', row_written hdata.idKey (by simp), isSome_row_pin_recorded]
  constructor
  · rintro (⟨c, hc, hpinned, rfl⟩ | ⟨c, hc, hpinned, rfl⟩)
    · obtain ⟨r, -, hid, -, hpin, -⟩ := exists_left_of_mem hdata.codes hc
      rw [hpinned] at hpin
      rw [hid]
      exact hpin.symm
    · rw [← (hdata.circuit hs hc).2.2, hpinned]
  · intro hpin
    rcases (hattached id).pin hpin with hcode | hcircuit
    · obtain ⟨info, hinfo⟩ := hs.exists_code hcode
      obtain ⟨c, hc, hid, -, hpinned, -⟩ := exists_right_of_mem hdata.codes ((mem_codeInfos hs).mpr hinfo)
      exact .inl ⟨c, hc, hpinned.trans hpin, hid⟩
    · obtain ⟨info, hinfo⟩ := hs.exists_circuit hcircuit
      obtain ⟨c, hc, hid, -, hpinned, -⟩ :=
        exists_right_of_mem hdata.circuits ((mem_circuitInfos hs).mpr hinfo)
      exact .inr ⟨c, hc, hpinned.trans hpin, hid⟩

end comesBack

/-! ## The economy of circuits -/

/-- The two states answer alike to all questions about deposits, circuits and pins. -/
structure SameEconomy (k : Keeper ν β) (s s' : State ν β) : Prop where
  hasDeposit : ∀ addr blockTime,
    hasCircuitDeposit s'.store blockTime addr = hasCircuitDeposit s.store blockTime addr
  paidUntil : ∀ addr, circuitDepositPaidUntil s'.store addr = circuitDepositPaidUntil s.store addr
  paramID : ∀ zkID, getCircuitParamID s'.store zkID = getCircuitParamID s.store zkID
  circuit : ∀ zkID, k.circuitBlob s' zkID = k.circuitBlob s zkID
  found : ∀ creator max, circuitsFound s'.store creator max = circuitsFound s.store creator max
  pinnedCircuit : ∀ zkID, isPinnedCircuit s'.store zkID = isPinnedCircuit s.store zkID
  pinnedCode : ∀ codeID, isPinnedCode s'.store codeID = isPinnedCode s.store codeID

section economy

variable {s : Store} (hs : Formed s)
include hs

theorem circuitDepositPaidUntil_eq_none {addr : AccAddress} :
    circuitDepositPaidUntil s addr = none ↔ row s (.depositee addr) = none := by
  rw [circuitDepositPaidUntil, show s.get (getCircuitDepositeeKey addr) = row s (.depositee addr) from rfl]
  cases hrow : row s (.depositee addr) with
  | none => simp
  | some v =>
    have hkind := hs.holds hrow
    cases v with
    | raw b =>
      have hlen : b.length = 8 := hkind
      simp [hlen, getBE64]
    | _ => exact hkind.elim

theorem circuitsFound_of_none {creator : AccAddress} (h : ∀ id, row s (.creator creator id) = none)
    (max : ℕ) : circuitsFound s creator max = ([], false) := by
  obtain ⟨ids, hkeys, -, hmem⟩ := exists_creatorIDs hs creator
  obtain rfl : ids = [] := by
    refine eq_nil_iff_forall_not_mem.mpr fun id hid => ?_
    have hsome := (hmem id).mp hid
    simp [h id] at hsome
  rw [circuitsFound, hkeys]
  rfl

end economy

theorem getCircuitParamID_of_row {s : Store} {id paramID : UInt64}
    (h : row s (.circuitParamRef id) = some (.raw (be64 paramID))) :
    getCircuitParamID s id = some paramID := by
  rw [getCircuitParamID, show s.get (getCircuitParamRefKey id) = row s (.circuitParamRef id) from rfl, h]
  simp

theorem getCircuitParamID_of_none {s : Store} {id : UInt64} (h : row s (.circuitParamRef id) = none) :
    getCircuitParamID s id = none := by
  rw [getCircuitParamID, show s.get (getCircuitParamRefKey id) = row s (.circuitParamRef id) from rfl, h]

/-- **The import of an exported state answers as the state did exactly if there are no circuits and no
deposits.** -/
theorem sameEconomy_iff (hlaws : Lawful k.engine k.sha256 names)
    (p : Params) (vm vm' : ν) (app app' : β) (ops : List Op) (hread : ∀ op ∈ ops, k.Reads op)
    (hlen : ops.length < 2 ^ 63) {data : GenesisState} {s' : State ν β}
    (hexport : k.exportGenesis (run k.step ⟨initialStore p, vm, app⟩ ops) = .ok data)
    (himport : k.initGenesis ⟨.empty, vm', app'⟩ data = .ok s') :
    SameEconomy k (run k.step ⟨initialStore p, vm, app⟩ ops) s' ↔
      (∀ zkID, getCircuitInfo (run k.step ⟨initialStore p, vm, app⟩ ops).store zkID = none) ∧
        ∀ addr, circuitDepositPaidUntil (run k.step ⟨initialStore p, vm, app⟩ ops).store addr = none := by
  obtain ⟨n, hs, hn, hstored⟩ := run_stored hlaws p vm app ops hlen
  have hindexed := (run_indexed p vm app ops hread hlen).2
  have hattached := run_attached (k := k) p vm app ops hlen
  generalize run k.step ⟨initialStore p, vm, app⟩ ops = s at *
  obtain ⟨data', hexport', hdata⟩ := exportGenesis_eq_ok hlaws hs hn hstored
  obtain rfl : data = data' := ok.inj (hexport.symm.trans hexport')
  have hs' := (initGenesis_eq_ok himport).1
  have hformed : Formed s'.store := hs' ▸ formed_written hdata.idKey
  -- no row of a deposit, a reference or an index is imported
  have hlost : ∀ key : Key, (∀ q, key ≠ .seq q) → key ≠ .params → (∀ id, key ∉ Key.recordedAs id) →
      row s'.store key = none := by
    intro key hseq hparams hkey
    rw [hs', row_written hdata.idKey hseq, row_recorded_eq_none hparams hkey]
  have hpaid : ∀ addr, circuitDepositPaidUntil s'.store addr = none := fun addr =>
    (circuitDepositPaidUntil_eq_none hformed).mpr
      (hlost (.depositee addr) (by simp) (by simp) (by simp [Key.recordedAs]))
  have href : ∀ id, getCircuitParamID s'.store id = none := fun id =>
    getCircuitParamID_of_none (hlost _ (by simp) (by simp) (by simp [Key.recordedAs]))
  have hpins : ∀ id, (row s'.store (.pin id)).isSome = (row s.store (.pin id)).isSome := fun id =>
    Bool.eq_iff_iff.mpr (hdata.pins hs hs' hattached id)
  constructor
  · intro h
    refine ⟨fun id => ?_, fun addr => by rw [← h.paidUntil, hpaid]⟩
    cases hinfo : getCircuitInfo s.store id with
    | none => rfl
    | some info =>
      obtain ⟨paramID, hparam⟩ := (hattached id).refers (by rw [getCircuitInfo_eq_some.mp hinfo]; rfl)
      have hsame := h.paramID id
      simp [href id, getCircuitParamID_of_row hparam] at hsame
  · rintro ⟨hcircuit, hdeposit⟩
    have hcircuit' : ∀ id, row s.store (.circuit id) = none := by
      intro id
      by_contra hsome
      obtain ⟨info, hinfo⟩ := hs.exists_circuit (isSome_iff_ne_none.mpr hsome)
      have hnone := hcircuit id
      simp [getCircuitInfo_eq_some.mpr hinfo] at hnone
    constructor
    · intro addr blockTime
      rw [hasCircuitDeposit, hasCircuitDeposit, hpaid, hdeposit]
    · intro addr
      rw [hpaid, hdeposit]
    · intro id
      rw [href, getCircuitParamID_of_none]
      by_contra hsome
      have hthere := (hattached id).paramRef (isSome_iff_ne_none.mpr hsome)
      simp [hcircuit'] at hthere
    · exact hdata.circuitBlob hs hs' hattached
    · intro creator max
      rw [circuitsFound_of_none hformed fun id => hlost _ (by simp) (by simp) (by simp [Key.recordedAs]),
        circuitsFound_of_none hs]
      intro id
      by_contra hsome
      obtain ⟨info, hinfo, -⟩ := hindexed.circuit (isSome_iff_ne_none.mpr hsome)
      simp [hcircuit'] at hinfo
    · exact hpins
    · exact hpins

/-! ## A deposit that is lost -/

def openRun (ops : List Op) : State Files Unit :=
  run sample.keeper.step ⟨initialStore defaultParams, {}, ()⟩ ops

def storedOps : List Op := [.storeVkParam 0 (account 1) true sampleParams .default]

/-- Account 1 pays for a year and stores a circuit. -/
def paidOps : List Op :=
  [.payCircuitDeposit 0 (account 1) 1,
    .storeFullCircuit 0 (account 1) true sampleParams sampleBody .default]

def reimport (s : State Files Unit) : Outcome Err (State Files Unit) :=
  sample.keeper.exportGenesis s >>= sample.keeper.initGenesis ⟨.empty, {}, ()⟩

theorem stored_sameEconomy : (getVkParamInfo (openRun storedOps).store 1).isSome = true ∧
    ∃ data s', sample.keeper.exportGenesis (openRun storedOps) = .ok data ∧
      sample.keeper.initGenesis ⟨.empty, {}, ()⟩ data = .ok s' ∧
      SameEconomy sample.keeper (openRun storedOps) s' := by
  have hok : (reimport (openRun storedOps)).isOk = true := by decide
  obtain ⟨s', hs'⟩ := isOk_iff.mp hok
  obtain ⟨data, hexport, himport⟩ := bind_eq_ok.mp hs'
  have hiff := sameEconomy_iff sample_lawful defaultParams {} {} () ()
    storedOps (by decide) (by decide) hexport himport
  have hcircuits : ((openRun storedOps).store.iterator circuitKeyPrefix).isEmpty = true := by decide
  have hdeposits : ((openRun storedOps).store.iterator circuitDepositeePrefix).isEmpty = true := by decide
  refine ⟨by decide, data, s', hexport, himport, hiff.mpr ⟨fun id => ?_, fun addr => ?_⟩⟩
  · have hget := KVStore.get_of_iterator_isEmpty hcircuits (be64 id)
    rw [getCircuitInfo]
    exact hget ▸ rfl
  · have hget := KVStore.get_of_iterator_isEmpty hdeposits addr.bytes
    rw [circuitDepositPaidUntil]
    exact hget ▸ rfl

/-- After export and import the payer has no deposit, and the circuit no parameters; it is not found by its creator.
-/
theorem paid_not_sameEconomy : ∃ data s', sample.keeper.exportGenesis (openRun paidOps) = .ok data ∧
    sample.keeper.initGenesis ⟨.empty, {}, ()⟩ data = .ok s' ∧
    hasCircuitDeposit (openRun paidOps).store 0 (account 1) = true ∧
    hasCircuitDeposit s'.store 0 (account 1) = false ∧
    getCircuitParamID (openRun paidOps).store 1 = some 1 ∧ getCircuitParamID s'.store 1 = none ∧
    circuitsFound (openRun paidOps).store (account 1) 2 = ([1], false) ∧
    circuitsFound s'.store (account 1) 2 = ([], false) := by
  have hok : (reimport (openRun paidOps)).isOk = true := by decide
  have hlost : hasCircuitDeposit ((reimport (openRun paidOps)).orElse ⟨.empty, {}, ()⟩).store 0
        (account 1) = false ∧
      getCircuitParamID ((reimport (openRun paidOps)).orElse ⟨.empty, {}, ()⟩).store 1 = none ∧
      circuitsFound ((reimport (openRun paidOps)).orElse ⟨.empty, {}, ()⟩).store (account 1) 2 =
        ([], false) := by decide
  obtain ⟨s', hs'⟩ := isOk_iff.mp hok
  obtain ⟨data, hexport, himport⟩ := bind_eq_ok.mp hs'
  rw [hs'] at hlost
  exact ⟨data, s', hexport, himport, by decide, hlost.1, by decide, hlost.2.1, by decide, hlost.2.2⟩

end Wasm
