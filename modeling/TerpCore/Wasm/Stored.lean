/-
  What a reachable store holds: every code, parameter set and circuit comes with bytes that the engine
  knows under the recorded hash, and every circuit starts with stored parameters.
-/
import TerpCore.Wasm.Genesis
import TerpCore.Wasm.System

namespace Wasm

open Lib

variable {ν β : Type}

/-! ## The engine -/

/-- The names an engine gives to codes, parameters and circuits, as functions of their bytes. -/
structure Naming where
  codeHash : Bytes → Option Bytes
  paramKey : Bytes → Option Bytes
  circuitKey : Bytes → Option Bytes

def Tables.naming (t : Tables) : Naming where
  codeHash code := t.codes.lookup code
  paramKey params := t.params.lookup params
  circuitKey blob := t.circuits.lookup blob

/-- The engine has a code with this checksum. -/
def WasmEngine.Serves (e : WasmEngine ν) (names : Naming) (vm : ν) (checksum : Bytes) : Prop :=
  ∃ code, e.getCode vm checksum = some code ∧ names.codeHash code = some checksum ∧
    isGzip code = false

/-- A circuit ends with a footer that has the length and the hash of the parameters at its front, and its key starts
with theirs. -/
structure CircuitLayout (sha256 : Bytes → Bytes) (names : Naming) (blob key : Bytes) : Prop where
  footer_le : cosmwasmFooterLength ≤ blob.length
  length_lt : blob.length < 2 ^ 63
  not_gzip : isGzip blob = false
  key_length : 36 ≤ key.length
  checksum : footerParamChecksum blob = sha256 (blob.take (footerParamLen blob))
  paramKey : names.paramKey (blob.take (footerParamLen blob)) = some (key.take 36)

/-- What is assumed about the engine. -/
structure Lawful (e : WasmEngine ν) (sha256 : Bytes → Bytes) (names : Naming) : Prop where
  storeCodeUnchecked : ∀ vm code, (e.storeCodeUnchecked vm code).map Prod.fst = names.codeHash code
  storeParam : ∀ vm params, (e.storeParam vm params).map Prod.fst = names.paramKey params
  storeCircuitUnchecked : ∀ vm blob,
    (e.storeCircuitUnchecked vm blob).map Prod.fst = names.circuitKey blob
  storeCode : ∀ {vm code checksum vm'}, e.storeCode vm code = some (checksum, vm') →
    names.codeHash code = some checksum ∧ isGzip code = false ∧ e.getCode vm' checksum = some code
  storeCircuit : ∀ {vm blob key vm'}, e.storeCircuit vm blob = some (key, vm') →
    names.circuitKey blob = some key ∧ CircuitLayout sha256 names blob key
  paramKey : ∀ {params key}, names.paramKey params = some key →
    key.length = 36 ∧ key.drop 4 = sha256 params
  getCode_storeCodeUnchecked : ∀ {vm code checksum vm'}, e.storeCodeUnchecked vm code = some (checksum, vm') →
    e.getCode vm' checksum = some code
  syncPinnedCodes : ∀ {vm hs}, (∀ h ∈ hs, e.Serves names vm h) → (e.syncPinnedCodes vm hs).isSome
  serves_storeCode : ∀ {vm h code r vm'}, e.Serves names vm h → e.storeCode vm code = some (r, vm') →
    e.Serves names vm' h
  serves_storeCodeUnchecked : ∀ {vm h code r vm'}, e.Serves names vm h →
    e.storeCodeUnchecked vm code = some (r, vm') → e.Serves names vm' h
  serves_storeParam : ∀ {vm h params r vm'}, e.Serves names vm h →
    e.storeParam vm params = some (r, vm') → e.Serves names vm' h
  serves_storeCircuit : ∀ {vm h blob r vm'}, e.Serves names vm h →
    e.storeCircuit vm blob = some (r, vm') → e.Serves names vm' h
  serves_storeCircuitUnchecked : ∀ {vm h blob r vm'}, e.Serves names vm h →
    e.storeCircuitUnchecked vm blob = some (r, vm') → e.Serves names vm' h
  serves_syncPinnedCodes : ∀ {vm h hs vm'}, e.Serves names vm h → e.syncPinnedCodes vm hs = some vm' →
    e.Serves names vm' h
  serves_syncPinnedCircuits : ∀ {vm h zs vm'}, e.Serves names vm h →
    e.syncPinnedCircuits vm zs = some vm' → e.Serves names vm' h
  serves_unpinCircuit : ∀ {vm h key}, e.Serves names vm h → e.Serves names (e.unpinCircuit vm key) h
  serves_removeCircuit : ∀ {vm h key}, e.Serves names vm h → e.Serves names (e.removeCircuit vm key) h

variable {k : Keeper ν β} {names : Naming}

section serves

variable (hlaws : Lawful k.engine k.sha256 names)
include hlaws

theorem Calls.serves {vm vm' : ν} {h : Bytes} (hcalls : Calls k.engine vm vm')
    (hs : k.engine.Serves names vm h) : k.engine.Serves names vm' h := by
  induction hcalls with
  | refl => exact hs
  | storeCode _ hcall ih => exact hlaws.serves_storeCode ih hcall
  | storeParam _ hcall ih => exact hlaws.serves_storeParam ih hcall
  | storeCircuit _ hcall ih => exact hlaws.serves_storeCircuit ih hcall
  | syncPinnedCodes _ hcall ih => exact hlaws.serves_syncPinnedCodes ih hcall
  | syncPinnedCircuits _ hcall ih => exact hlaws.serves_syncPinnedCircuits ih hcall
  | unpinCircuit key _ ih => exact hlaws.serves_unpinCircuit ih
  | removeCircuit key _ ih => exact hlaws.serves_removeCircuit ih

end serves

/-! ## The invariant -/

/-- A set of parameters with the bytes it names. -/
def HoldsParam (names : Naming) (s : Store) (id : UInt64) (info : VkParamInfo) (params : Bytes) : Prop :=
  row s (.vkParam id) = some (.vkParamInfo info) ∧ row s (.vkParamBytes id) = some (.raw params) ∧
    params ≠ [] ∧ names.paramKey params = some info.dataHash

/-- A circuit with the bytes it names, which start with stored parameters. -/
structure HoldsCircuit (k : Keeper ν β) (names : Naming) (s : Store) (id : UInt64) (info : CircuitInfo)
    (blob : Bytes) : Prop where
  bytes : row s (.circuitBytes id) = some (.raw blob)
  key : names.circuitKey blob = some info.circuitHash
  layout : CircuitLayout k.sha256 names blob info.circuitHash
  params : ∃ params body paramID paramInfo, blob = params ++ body ∧ body ≠ [] ∧
    info.vkpLen = UInt64.ofNat params.length ∧ HoldsParam names s paramID paramInfo params

structure Stored (k : Keeper ν β) (names : Naming) (s : State ν β) : Prop where
  params : ∃ p, row s.store .params = some (.params p)
  code : ∀ {id info}, row s.store (.code id) = some (.codeInfo info) →
    k.engine.Serves names s.vm info.codeHash
  vkParam : ∀ {id info}, row s.store (.vkParam id) = some (.vkParamInfo info) →
    ∃ params, HoldsParam names s.store id info params
  circuit : ∀ {id info}, row s.store (.circuit id) = some (.circuitInfo info) →
    ∃ blob, HoldsCircuit k names s.store id info blob

theorem HoldsCircuit.of_rows {s t : Store} {id : UInt64} {info : CircuitInfo} {blob : Bytes}
    (h : HoldsCircuit k names s id info blob)
    (hbytes : row t (.circuitBytes id) = row s (.circuitBytes id))
    (hparams : ∀ {paramID paramInfo params}, HoldsParam names s paramID paramInfo params →
      HoldsParam names t paramID paramInfo params) : HoldsCircuit k names t id info blob where
  bytes := hbytes.trans h.bytes
  key := h.key
  layout := h.layout
  params := by
    obtain ⟨params, body, paramID, paramInfo, hblob, hbody, hlen, hheld⟩ := h.params
    exact ⟨params, body, paramID, paramInfo, hblob, hbody, hlen, hparams hheld⟩

theorem HoldsParam.of_rows {s t : Store} {id : UInt64} {info : VkParamInfo} {params : Bytes}
    (h : HoldsParam names s id info params) (hrow : row t (.vkParam id) = row s (.vkParam id))
    (hbytes : row t (.vkParamBytes id) = row s (.vkParamBytes id)) : HoldsParam names t id info params :=
  ⟨hrow.trans h.1, hbytes.trans h.2.1, h.2.2⟩

namespace Stored

variable {s s' : State ν β} {blockTime : Int64} {creator : AccAddress} {authZ : AuthorizationPolicy} {id : UInt64}

/-- Rows outside `parts` are kept; in them, a row is an old one or holds what it should. -/
theorem of_parts (h : Stored k names s) {parts : List Part}
    (hkeep : ∀ key : Key, key.part ∉ parts → row s'.store key = row s.store key)
    (hserves : ∀ {checksum}, k.engine.Serves names s.vm checksum → k.engine.Serves names s'.vm checksum)
    (hparams : Part.params ∈ parts → ∃ p, row s'.store .params = some (.params p))
    (hcode : Part.codes ∈ parts → ∀ {id info}, row s'.store (.code id) = some (.codeInfo info) →
      row s.store (.code id) = some (.codeInfo info) ∨ k.engine.Serves names s'.vm info.codeHash)
    (hheld : Part.vkParams ∈ parts → ∀ {id info params}, HoldsParam names s.store id info params →
      HoldsParam names s'.store id info params)
    (hvkParam : Part.vkParams ∈ parts → ∀ {id info}, row s'.store (.vkParam id) = some (.vkParamInfo info) →
      row s.store (.vkParam id) = some (.vkParamInfo info) ∨ ∃ params, HoldsParam names s'.store id info params)
    (hcircuit : Part.circuits ∈ parts → ∀ {id info}, row s'.store (.circuit id) = some (.circuitInfo info) →
      row s.store (.circuit id) = some (.circuitInfo info) ∧
          row s'.store (.circuitBytes id) = row s.store (.circuitBytes id) ∨
        ∃ blob, HoldsCircuit k names s'.store id info blob) : Stored k names s' := by
  have hheld : ∀ {id info params}, HoldsParam names s.store id info params →
      HoldsParam names s'.store id info params := by
    intro id info params hold
    by_cases hpart : Part.vkParams ∈ parts
    · exact hheld hpart hold
    · exact hold.of_rows (hkeep _ hpart) (hkeep _ hpart)
  have hold : ∀ {id info}, row s.store (.circuit id) = some (.circuitInfo info) →
      row s'.store (.circuitBytes id) = row s.store (.circuitBytes id) →
      ∃ blob, HoldsCircuit k names s'.store id info blob := by
    intro id info hold hbytes
    obtain ⟨blob, hblob⟩ := h.circuit hold
    exact ⟨blob, hblob.of_rows hbytes hheld⟩
  refine ⟨?_, fun {id info} hrow => ?_, fun {id info} hrow => ?_, fun {id info} hrow => ?_⟩
  · by_cases hpart : Part.params ∈ parts
    · exact hparams hpart
    · rw [hkeep .params hpart]
      exact h.params
  · by_cases hpart : Part.codes ∈ parts
    · rcases hcode hpart hrow with hcode | hnew
      · exact hserves (h.code hcode)
      · exact hnew
    · rw [hkeep (.code id) hpart] at hrow
      exact hserves (h.code hrow)
  · by_cases hpart : Part.vkParams ∈ parts
    · rcases hvkParam hpart hrow with hvkParam | hnew
      · exact (h.vkParam hvkParam).imp fun _ => hheld
      · exact hnew
    · rw [hkeep (.vkParam id) hpart] at hrow
      exact (h.vkParam hrow).imp fun _ => hheld
  · by_cases hpart : Part.circuits ∈ parts
    · rcases hcircuit hpart hrow with ⟨hcircuit, hbytes⟩ | hnew
      · exact hold hcircuit hbytes
      · exact hnew
    · rw [hkeep (.circuit id) hpart] at hrow
      exact hold hrow (hkeep _ hpart)

section laws

variable (hlaws : Lawful k.engine k.sha256 names)
include hlaws

variable (h : Stored k names s)

include h

theorem create {wasmCode : Bytes} {access : Option AccessConfig}
    (heq : k.create s creator wasmCode access authZ = .ok (id, s')) : Stored k names s' := by
  have hkeep : ∀ key : Key, key.part ∉ [Part.sequence .code, .codes] →
      row s'.store key = row s.store key := fun key => (create_touches heq).row_eq
  obtain ⟨code, info, hvm, -, hstore⟩ := create_eq_ok heq
  refine h.of_parts hkeep (fun hserves => hlaws.serves_storeCode hserves hvm) (by simp) (fun _ id' info' hrow => ?_)
    (by simp) (by simp) (by simp)
  by_cases hid : id = id'
  · subst hid
    obtain rfl : info = info' := by simpa [hstore] using hrow
    obtain ⟨hhash, hgzip, hget⟩ := hlaws.storeCode hvm
    exact .inr ⟨code, hget, hhash, hgzip⟩
  · rw [hstore, row_put_of_ne (by simpa using hid), row_put_of_ne (by simp)] at hrow
    exact .inl hrow

theorem storeVkParam {n : ℕ} {hasAuth : Bool} {paramBytes : Bytes} (hn : Numbered n s.store)
    (heq : k.storeVkParam s blockTime creator hasAuth paramBytes authZ = .ok (id, s')) : Stored k names s' := by
  have hkeep : ∀ key : Key, key.part ∉ [Part.sequence .vkParam, .vkParams] →
      row s'.store key = row s.store key := fun key => (storeVkParam_touches heq).row_eq
  obtain ⟨params, info, hne, hvm, hid, hstore⟩ := storeVkParam_eq_ok heq
  have hfresh : row s.store (.vkParam id) = none := hn.row_next rfl hid
  have hother : ∀ id', id' ≠ id → row s'.store (.vkParam id') = row s.store (.vkParam id') ∧
      row s'.store (.vkParamBytes id') = row s.store (.vkParamBytes id') := by
    intro id' hid'
    simp [hstore, row_put, Ne.symm hid']
  refine h.of_parts hkeep (fun hserves => hlaws.serves_storeParam hserves hvm) (by simp) (by simp)
    (fun _ id' info' params' hheld => ?_) (fun _ id' info' hrow => ?_) (by simp)
  · have hid' : id' ≠ id := by
      rintro rfl
      simp [hheld.1] at hfresh
    exact hheld.of_rows (hother id' hid').1 (hother id' hid').2
  · by_cases hid' : id' = id
    · subst hid'
      obtain rfl : info = info' := by simpa [hstore, row_put] using hrow
      refine .inr ⟨params, by simp [hstore, row_put], by simp [hstore], hne, ?_⟩
      rw [← hlaws.storeParam s.vm params, hvm]
      rfl
    · rw [(hother id' hid').1] at hrow
      exact .inl hrow

theorem storeCircuit {paramID : UInt64} {vkBody : Bytes} {access : Option AccessConfig}
    (heq : k.storeCircuit s blockTime creator paramID vkBody access authZ = .ok (id, s')) : Stored k names s' := by
  have hkeep : ∀ key : Key, key.part ∉ [Part.sequence .circuit, .circuits] →
      row s'.store key = row s.store key := fun key => (storeCircuit_touches heq).row_eq
  obtain ⟨params, body, info, paramInfo, key, vm, -, hparam, hparamBytes, hvm, hbody, hvm', -, hlen, -,
    hstore⟩ := storeCircuit_eq_ok heq
  refine h.of_parts hkeep (fun hserves => hlaws.serves_storeCircuit (hlaws.serves_storeParam hserves hvm) hvm')
    (by simp) (by simp) (by simp) (by simp) (fun _ id' info' hrow => ?_)
  by_cases hid : id' = id
  · subst hid
    obtain rfl : info = info' := by simpa [hstore, row_put] using hrow
    obtain ⟨params', hparams'⟩ := h.vkParam hparam
    obtain rfl : params = params' := by simpa [hparamBytes] using hparams'.2.1
    obtain ⟨hkey, hlayout⟩ := hlaws.storeCircuit hvm'
    exact .inr ⟨params ++ body, by simp [hstore], hkey, hlayout, params, body, paramID, paramInfo, rfl, hbody, hlen,
      hparams'.of_rows (hkeep _ (by simp)) (hkeep _ (by simp))⟩
  · refine .inl ?_
    simpa [hstore, row_put, Ne.symm hid] using hrow

theorem exec {n : ℕ} {op : Op} (hs : Formed s.store) (hn : Numbered n s.store)
    (heq : k.exec s op = .ok s') : Stored k names s' := by
  have hkeep : ∀ key : Key, key.part ∉ op.parts → row s'.store key = row s.store key := fun key => row_exec hs heq
  have hserves {checksum : Bytes} : k.engine.Serves names s.vm checksum → k.engine.Serves names s'.vm checksum :=
    (exec_calls hs heq).serves hlaws
  cases op with
  | storeCode =>
    obtain ⟨id, heq⟩ := resultState_eq_ok heq
    exact h.create hlaws heq
  | storeVkParam =>
    obtain ⟨id, heq⟩ := resultState_eq_ok heq
    exact h.storeVkParam hlaws hn heq
  | storeCircuit =>
    obtain ⟨id, heq⟩ := resultState_eq_ok heq
    exact h.storeCircuit hlaws heq
  | storeFullCircuit =>
    obtain ⟨t, paramID, id, hparam, hcircuit⟩ := exec_storeFullCircuit heq
    exact (h.storeVkParam hlaws hn hparam).storeCircuit hlaws hcircuit
  | updateParams authority p =>
    obtain ⟨-, hstore⟩ := updateParams_eq_ok heq
    exact h.of_parts hkeep hserves (fun _ => ⟨p, by rw [hstore, row_put_self]⟩) (by simp) (by simp)
      (by simp) (by simp)
  | endBlock blockTime =>
    refine h.of_parts hkeep hserves (by simp) (by simp) (by simp) (by simp) (fun _ id info hrow => .inl ?_)
    obtain ⟨hcircuit, hbytes⟩ := row_circuitBytes_prune hs id heq (by rw [hrow]; rfl)
    exact ⟨hcircuit ▸ hrow, hbytes⟩
  | _ =>
    exact h.of_parts hkeep hserves (by simp) (by simp) (by simp) (by simp) (by simp)

end laws

end Stored

theorem run_stored (hlaws : Lawful k.engine k.sha256 names) (p : Params) (vm : ν) (app : β)
    (ops : List Op) (hlen : ops.length < 2 ^ 63) :
    ∃ n, Formed (run k.step ⟨initialStore p, vm, app⟩ ops).store ∧
      Numbered n (run k.step ⟨initialStore p, vm, app⟩ ops).store ∧
      Stored k names (run k.step ⟨initialStore p, vm, app⟩ ops) := by
  have hstart : Stored k names ⟨initialStore p, vm, app⟩ :=
    { params := ⟨p, row_put_self ..⟩
      code := fun hrow => by simp [row_initialStore] at hrow
      vkParam := fun hrow => by simp [row_initialStore] at hrow
      circuit := fun hrow => by simp [row_initialStore] at hrow }
  exact run_numbered (fun hs hn _ heq h => h.exec hlaws hs hn heq) hstart ops hlen

end Wasm
