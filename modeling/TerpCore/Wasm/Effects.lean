/-
  What the operations of the keeper do to the rows of the store, one lemma for each operation that
  returns.
-/
import TerpCore.Wasm.Rows

namespace Wasm

open Lib Outcome

variable {ν β : Type} {k : Keeper ν β}

/-! ## Pins and removal -/

/-- The rows of a circuit that its removal deletes. -/
def Keeper.circuitRows (k : Keeper ν β) (zkID : UInt64) (info : CircuitInfo) : List Key :=
  .pin zkID :: ((k.accAddressFromBech32 info.creator).toList.map fun creator => .creator creator zkID) ++
    [.circuit zkID, .circuitBytes zkID, .circuitParamRef zkID]

theorem deleteCircuitRows_eq (s : Store) (zkID : UInt64) (info : CircuitInfo) :
    k.deleteCircuitRows s zkID info = (k.circuitRows zkID info).foldl drop s := by
  unfold Keeper.deleteCircuitRows Keeper.circuitRows
  cases k.accAddressFromBech32 info.creator <;> rfl

theorem row_deleteCircuitRows (s : Store) (zkID : UInt64) (info : CircuitInfo) (key : Key) :
    row (k.deleteCircuitRows s zkID info) key =
      if key ∈ k.circuitRows zkID info then none else row s key := by
  rw [deleteCircuitRows_eq, row_foldl_drop]

section ok

variable {s s' : State ν β} {id : UInt64}

theorem engineOr_eq_ok {e : Err} {o : Option ν} {vm : ν} : engineOr e o = .ok vm ↔ o = some vm := by
  cases o <;> simp [engineOr]

theorem pinCode_eq_ok (h : k.pinCode s id = .ok s') :
    (getCodeInfo s.store id).isSome ∧ s'.store = put s.store (.pin id) (.raw [1]) ∧
      ∃ hs, k.engine.syncPinnedCodes s.vm hs = some s'.vm := by
  unfold Keeper.pinCode at h
  cases hinfo : getCodeInfo s.store id with
  | none => simp [hinfo] at h
  | some info =>
    simp only [hinfo, bind_eq_ok] at h
    obtain ⟨checksums, -, vm, hvm, h⟩ := h
    rw [← ok.inj h]
    exact ⟨rfl, rfl, _, engineOr_eq_ok.mp hvm⟩

theorem unpinCode_eq_ok (h : k.unpinCode s id = .ok s') :
    s'.store = drop s.store (.pin id) ∧ ∃ hs, k.engine.syncPinnedCodes s.vm hs = some s'.vm := by
  unfold Keeper.unpinCode at h
  cases hinfo : getCodeInfo s.store id with
  | none => simp [hinfo] at h
  | some info =>
    simp only [hinfo, bind_eq_ok] at h
    obtain ⟨checksums, -, vm, hvm, h⟩ := h
    rw [← ok.inj h]
    exact ⟨rfl, _, engineOr_eq_ok.mp hvm⟩

theorem pinCircuit_eq_ok (h : k.pinCircuit s id = .ok s') :
    (getCircuitInfo s.store id).isSome ∧ s'.store = put s.store (.pin id) (.raw [1]) ∧
      ∃ info keys, row s.store (.circuit id) = some (.circuitInfo info) ∧
        collectPinnedCircuitKeys s.store none = .ok keys ∧
        k.engine.syncPinnedCircuits s.vm (keys ++ [info.circuitHash]) = some s'.vm := by
  unfold Keeper.pinCircuit at h
  cases hinfo : getCircuitInfo s.store id with
  | none => simp [hinfo] at h
  | some info =>
    simp only [hinfo, bind_eq_ok] at h
    obtain ⟨keys, hkeys, vm, hvm, h⟩ := h
    rw [← ok.inj h]
    exact ⟨rfl, rfl, info, keys, getCircuitInfo_eq_some.mp hinfo, hkeys, engineOr_eq_ok.mp hvm⟩

theorem unpinCircuit_eq_ok (h : k.unpinCircuit s id = .ok s') :
    s'.store = drop s.store (.pin id) ∧ ∃ keys, collectPinnedCircuitKeys s.store (some id) = .ok keys ∧
      k.engine.syncPinnedCircuits s.vm keys = some s'.vm := by
  unfold Keeper.unpinCircuit at h
  cases hinfo : getCircuitInfo s.store id with
  | none => simp [hinfo] at h
  | some info =>
    simp only [hinfo, bind_eq_ok] at h
    obtain ⟨keys, hkeys, vm, hvm, h⟩ := h
    rw [← ok.inj h]
    exact ⟨rfl, keys, hkeys, engineOr_eq_ok.mp hvm⟩

theorem removeCircuit_eq_ok (h : k.removeCircuit s id = .ok s') :
    ∃ info, row s.store (.circuit id) = some (.circuitInfo info) ∧ s'.store = k.deleteCircuitRows s.store id info ∧
      s'.vm = k.engine.removeCircuit (k.engine.unpinCircuit s.vm info.circuitHash) info.circuitHash := by
  unfold Keeper.removeCircuit at h
  cases hinfo : getCircuitInfo s.store id with
  | none => simp [hinfo] at h
  | some info =>
    simp only [hinfo] at h
    rw [← ok.inj h]
    exact ⟨info, getCircuitInfo_eq_some.mp hinfo, rfl, rfl⟩

end ok

/-! ## Uploads -/

theorem createFailedOr_eq_ok {α : Type} {o : Option α} {a : α} : createFailedOr o = .ok a ↔ o = some a := by
  cases o <;> simp [createFailedOr]

section uploads

variable {s s' : State ν β} {creator : AccAddress} {authZ : AuthorizationPolicy} {id : UInt64}

theorem create_eq_ok {wasmCode : Bytes} {access : Option AccessConfig}
    (h : k.create s creator wasmCode access authZ = .ok (id, s')) :
    ∃ code info, k.engine.storeCode s.vm code = some (info.codeHash, s'.vm) ∧
      peekAutoIncrementID s.store keySequenceCodeID = .ok id ∧
      s'.store = put (put s.store (.seq .code) (.raw (be64 (id + 1)))) (.code id) (.codeInfo info) := by
  unfold Keeper.create at h
  simp only [bind_eq_ok] at h
  obtain ⟨params, -, config, -, ok, -, -, -, code, -, ⟨checksum, vm⟩, hstore, -, -, ⟨id', store⟩, hid, h⟩ := h
  cases h
  obtain ⟨hpeek, rfl⟩ := autoIncrementID_eq_ok (q := .code) hid
  exact ⟨code, ⟨checksum, k.bech32 creator, access.getD config⟩, createFailedOr_eq_ok.mp hstore, hpeek, rfl⟩

theorem storeVkParam_eq_ok {blockTime : Int64} {hasAuth : Bool} {paramBytes : Bytes}
    (h : k.storeVkParam s blockTime creator hasAuth paramBytes authZ = .ok (id, s')) :
    ∃ params info, params ≠ [] ∧ k.engine.storeParam s.vm params = some (info.dataHash, s'.vm) ∧
      peekAutoIncrementID s.store keySequenceVkParamID = .ok id ∧
      s'.store = put (put (put s.store (.seq .vkParam) (.raw (be64 (id + 1))))
        (.vkParam id) (.vkParamInfo info)) (.vkParamBytes id) (.raw params) := by
  unfold Keeper.storeVkParam at h
  simp only [bind_eq_ok] at h
  obtain ⟨_, -, _, -, _, -, _, -, params, -, _, hne, ⟨key, vm⟩, hstore, _, -, ⟨id', store⟩, hid, h⟩ := h
  cases h
  obtain ⟨hpeek, rfl⟩ := autoIncrementID_eq_ok (q := .vkParam) hid
  exact ⟨params, ⟨id', k.bech32 creator, key⟩, by simpa using hne, createFailedOr_eq_ok.mp hstore, hpeek, rfl⟩

theorem storeCircuit_eq_ok {blockTime : Int64} {paramID : UInt64} {vkBody : Bytes} {access : Option AccessConfig}
    (h : k.storeCircuit s blockTime creator paramID vkBody access authZ = .ok (id, s')) :
    ∃ params body info paramInfo key vm, k.authorizeCircuitUpload s.store blockTime creator info.instantiateConfig authZ
        "can not create circuit" = .ok () ∧
      row s.store (.vkParam paramID) = some (.vkParamInfo paramInfo) ∧
      row s.store (.vkParamBytes paramID) = some (.raw params) ∧
      k.engine.storeParam s.vm params = some (key, vm) ∧ body ≠ [] ∧
      k.engine.storeCircuit vm (params ++ body) = some (info.circuitHash, s'.vm) ∧
      info.creator = k.bech32 creator ∧ info.vkpLen = UInt64.ofNat params.length ∧
      peekAutoIncrementID s.store keySequenceCircuitID = .ok id ∧
      s'.store = put (put (put (put (put s.store (.seq .circuit) (.raw (be64 (id + 1))))
        (.circuit id) (.circuitInfo info)) (.circuitParamRef id) (.raw (be64 paramID)))
        (.creator creator id) (.raw [1])) (.circuitBytes id) (.raw (params ++ body)) := by
  unfold Keeper.storeCircuit at h
  simp only [bind_eq_ok] at h
  obtain ⟨_, -, _, -, config, -, _, hauth, h⟩ := h
  cases hparam : getVkParamInfo s.store paramID with
  | none => simp [hparam] at h
  | some paramInfo =>
    simp only [hparam, bind_eq_ok] at h
    obtain ⟨params, hparams, _, -, ⟨key, vm⟩, hstoreParam, body, -, _, hne, ⟨checksum, vm'⟩, hstore,
      _, -, ⟨id', store⟩, hid, h⟩ := h
    cases h
    obtain ⟨hpeek, rfl⟩ := autoIncrementID_eq_ok (q := .circuit) hid
    exact ⟨params, body, ⟨checksum, k.bech32 creator, access.getD config, 0,
        UInt64.ofNat params.length, 0, UInt64.ofNat body.length⟩, paramInfo, key, vm, hauth,
      getVkParamInfo_eq_some.mp hparam, getVkParamBytes_eq_ok.mp hparams,
      createFailedOr_eq_ok.mp hstoreParam, by simpa using hne, createFailedOr_eq_ok.mp hstore, rfl,
      rfl, hpeek, rfl⟩

theorem storeFullCircuit_eq_ok {blockTime : Int64} {hasAuth : Bool} {paramBytes vkBody : Bytes} {paramID : UInt64}
    (h : k.storeFullCircuit s blockTime creator hasAuth paramBytes vkBody authZ = .ok (paramID, id, s')) :
    ∃ t, k.storeVkParam s blockTime creator hasAuth paramBytes authZ = .ok (paramID, t) ∧
      k.storeCircuit t blockTime creator paramID vkBody none authZ = .ok (id, s') := by
  unfold Keeper.storeFullCircuit at h
  simp only [bind_eq_ok] at h
  obtain ⟨⟨paramID', t⟩, hparam, ⟨id', t'⟩, hcircuit, h⟩ := h
  cases h
  exact ⟨t, hparam, hcircuit⟩

end uploads

/-! ## Parameters and payments -/

section other

variable {s s' : State ν β}

theorem updateParams_eq_ok {authority : Bytes} {p : Params} (h : k.updateParams s authority p = .ok s') :
    s'.vm = s.vm ∧ s'.store = put s.store .params (.params p) := by
  unfold Keeper.updateParams at h
  simp only [bind_eq_ok] at h
  obtain ⟨-, -, -, -, -, -, h⟩ := h
  cases h
  exact ⟨rfl, rfl⟩

variable {blockTime : Int64} {payer : AccAddress} {years : UInt32}
  (h : k.payCircuitDeposit s blockTime payer years = .ok s')

include h

theorem payCircuitDeposit_eq_ok : s'.vm = s.vm ∧ ∃ paidUntil t,
      (t = s.store ∧ circuitDepositPaidUntil s.store payer = none ∨
        ∃ old, t = drop s.store (.expiry old payer) ∧ circuitDepositPaidUntil s.store payer = some old) ∧
      s'.store = drop (put (put t (.depositee payer) (.raw (be64 paidUntil)))
        (.expiry paidUntil payer) (.raw [1])) (.gc payer) := by
  unfold Keeper.payCircuitDeposit at h
  simp only [bind_eq_ok] at h
  obtain ⟨-, -, amt, -, app, -, h⟩ := h
  cases hpaid : circuitDepositPaidUntil s.store payer with
  | none =>
    simp only [hpaid] at h
    cases h
    exact ⟨rfl, _, s.store, .inl ⟨rfl, rfl⟩, rfl⟩
  | some old =>
    simp only [hpaid] at h
    cases h
    exact ⟨rfl, _, drop s.store (.expiry old payer), .inr ⟨old, rfl, rfl⟩, rfl⟩

theorem payCircuitDeposit_rows : row s'.store (.gc payer) = none ∧ (row s'.store (.depositee payer)).isSome ∧
      ∀ addr, addr ≠ payer → row s'.store (.gc addr) = row s.store (.gc addr) ∧
        row s'.store (.depositee addr) = row s.store (.depositee addr) := by
  obtain ⟨-, paidUntil, t, ht, hstore⟩ := payCircuitDeposit_eq_ok h
  have hkeep : ∀ addr, row t (.gc addr) = row s.store (.gc addr) ∧
      row t (.depositee addr) = row s.store (.depositee addr) := by
    rcases ht with ⟨rfl, -⟩ | ⟨old, rfl, -⟩
    · exact fun _ => ⟨rfl, rfl⟩
    · exact fun _ => ⟨row_drop_of_ne (by simp), row_drop_of_ne (by simp)⟩
  refine ⟨by rw [hstore, row_drop_self], by simp [hstore, row_put, row_drop], fun addr hne => ?_⟩
  simp [hstore, row_put, row_drop, Ne.symm hne, hkeep addr]

end other

end Wasm
