/-
  State sync: a node starts from the rows of a snapshot and a stream of wasm codes.

  The stream has no parameters and no circuits.
-/
import TerpCore.Wasm.PinIndex
import TerpCore.Wasm.Export
import TerpCore.Wasm.Vm

namespace Wasm

open Lib Outcome List

variable {ν β : Type}

/-! ## The snapshotter -/

def snapshotFormat : Nat := 1

/-- The loop over the code infos; `seenBefore` has the hashes that were written already. -/
def Keeper.snapshotCodes (k : Keeper ν β) (gzipIt : Bytes → Option Bytes) (s : State ν β)
    (seenBefore : List Bytes) : List (UInt64 × CodeInfo) → Outcome Err (List Bytes)
  | [] => .ok []
  | (id, info) :: infos =>
    if seenBefore.contains (hex info.codeHash) then k.snapshotCodes gzipIt s seenBefore infos
    else do
      let wasmBytes ← k.getByteCode s id
      match gzipIt wasmBytes with
      | none => .error .outside
      | some compressedWasm => do
        let payloads ← k.snapshotCodes gzipIt s (hex info.codeHash :: seenBefore) infos
        return compressedWasm :: payloads

/-- `SnapshotExtension`: the payloads, in the order they are written. -/
def Keeper.snapshotExtension (k : Keeper ν β) (gzipIt : Bytes → Option Bytes) (s : State ν β) :
    Outcome Err (List Bytes) :=
  k.snapshotCodes gzipIt s [] (codeInfos s.store)

/-- One item of a snapshot is stored. -/
def Keeper.restoreV1 (k : Keeper ν β) (vm : ν) (compressedCode : Bytes) : Outcome Err ν := do
  require (isGzip compressedCode) (.wrap "not a gzip" .invalid)
  let wasmCode ← createFailedOr (k.uncompress compressedCode maxInt64)
  let (_, vm) ← createFailedOr (k.engine.storeCodeUnchecked vm wasmCode)
  return vm

/-- The pins are loaded after the last item. -/
def Keeper.finalizeV1 (k : Keeper ν β) (s : State ν β) : Outcome Err ν := k.initalizedPinnedCodesAndCircuits s

/-- The loop over the items. -/
def Keeper.processAllItems (k : Keeper ν β) (s : State ν β) (payloads : List Bytes) : Outcome Err ν := do
  let vm ← forEach (fun _ vm payload => wrapErr "processing snapshot item" (k.restoreV1 vm payload))
    0 s.vm payloads
  k.finalizeV1 { s with vm := vm }

def Keeper.restoreExtension (k : Keeper ν β) (s : State ν β) (format : Nat) (payloads : List Bytes) : Outcome Err ν :=
  if format = snapshotFormat then k.processAllItems s payloads
  else .error (.errorf "unknown snapshot format")

/-! ## What a node needs -/

/-- The engine has a file for each record of the store. -/
structure Content.Complete (c : Content) (s : Store) (vm : Vm) : Prop where
  code : ∀ id info, row s (.code id) = some (.codeInfo info) → c.hasCode vm info.codeHash = true
  circuit : ∀ id info, row s (.circuit id) = some (.circuitInfo info) → c.hasCircuit vm info.circuitHash = true
  vkParam : ∀ id info, row s (.vkParam id) = some (.vkParamInfo info) → c.hasParam vm info.dataHash = true

/-- A new node, with the rows of the snapshot and an empty engine, restores and is complete. -/
def Keeper.HandsOver (k : Keeper Vm β) (c : Content) (gzipIt : Bytes → Option Bytes) (s : State Vm β) : Prop :=
  ∃ payloads vm, k.snapshotExtension gzipIt s = .ok payloads ∧
    k.restoreExtension { s with vm := {} } snapshotFormat payloads = .ok vm ∧ c.Complete s.store vm

/-! ## The node that took the snapshot -/

/-- A parameter set is stored. -/
def HasParams (s : Store) : Prop := ∃ id, (row s (.vkParam id)).isSome

/-- The node that executed the uploads has the codes, and a circuit comes with parameters. -/
structure Executed (c : Content) (s : State Vm β) : Prop where
  code : ∀ id info, row s.store (.code id) = some (.codeInfo info) → c.hasCode s.vm info.codeHash = true
  circuit : ∀ id, (row s.store (.circuit id)).isSome → HasParams s.store

section executed

variable {c : Content} {k : Keeper Vm β} {s s' : State Vm β} {op : Op}

theorem Calls.hasCode {vm vm' : Vm} (h : Calls c.engine vm vm') {checksum : Bytes}
    (hcode : c.hasCode vm checksum = true) : c.hasCode vm' checksum = true := by
  obtain ⟨code, hmem, hname⟩ := Content.hasCode_iff.mp hcode
  exact Content.hasCode_iff.mpr ⟨code, Content.codes_subset_of_calls h hmem, hname⟩

theorem HasParams.of_row {s t : Store} (h : HasParams s) (hrow : ∀ id, row t (.vkParam id) = row s (.vkParam id)) :
    HasParams t := by
  obtain ⟨id, hid⟩ := h
  exact ⟨id, by rwa [hrow]⟩

theorem storeVkParam_hasParams {blockTime : Int64} {creator : AccAddress} {hasAuth : Bool} {paramBytes : Bytes}
    {authZ : AuthorizationPolicy} {id : UInt64}
    (h : k.storeVkParam s blockTime creator hasAuth paramBytes authZ = .ok (id, s')) : HasParams s'.store := by
  obtain ⟨params, info, -, -, -, hstore⟩ := storeVkParam_eq_ok h
  exact ⟨id, by simp [hstore, row_put]⟩

theorem storeCircuit_hasParams {blockTime : Int64} {creator : AccAddress} {paramID : UInt64} {vkBody : Bytes}
    {access : Option AccessConfig} {authZ : AuthorizationPolicy} {id : UInt64}
    (h : k.storeCircuit s blockTime creator paramID vkBody access authZ = .ok (id, s')) : HasParams s'.store := by
  have hkeep : ∀ id, row s'.store (.vkParam id) = row s.store (.vkParam id) := fun id =>
    (storeCircuit_touches h).row_eq (by simp)
  obtain ⟨params, body, info, paramInfo, key, vm, -, hparam, -⟩ := storeCircuit_eq_ok h
  exact ⟨paramID, by rw [hkeep, hparam]; rfl⟩

theorem exec_circuit_hasParams (hformed : Formed s.store)
    (hs : ∀ id, (row s.store (.circuit id)).isSome → HasParams s.store) (h : k.exec s op = .ok s')
    (id : UInt64) (hid : (row s'.store (.circuit id)).isSome) : HasParams s'.store := by
  have hquiet : Part.vkParams ∉ op.parts → Part.circuits ∉ op.parts → HasParams s'.store := by
    intro hvkParams hcircuits
    have hkeep : row s'.store (.circuit id) = row s.store (.circuit id) := row_exec hformed h hcircuits
    exact (hs id (hkeep ▸ hid)).of_row fun id => row_exec hformed h hvkParams
  cases op with
  | storeVkParam =>
    obtain ⟨id, h⟩ := resultState_eq_ok h
    exact storeVkParam_hasParams h
  | storeCircuit =>
    obtain ⟨id, h⟩ := resultState_eq_ok h
    exact storeCircuit_hasParams h
  | storeFullCircuit =>
    obtain ⟨t, paramID, id, -, hcircuit⟩ := exec_storeFullCircuit h
    exact storeCircuit_hasParams hcircuit
  | endBlock blockTime =>
    have hkeep : HasParams s.store → HasParams s'.store := fun hp =>
      hp.of_row fun id => row_exec hformed h (by simp)
    have hor : row s'.store (.circuit id) = row s.store (.circuit id) ∨ row s'.store (.circuit id) = none :=
      row_prune_or hformed (by simp) h
    rcases hor with heq | heq
    · exact hkeep (hs id (heq ▸ hid))
    · simp [heq] at hid
  | _ => exact hquiet (by simp) (by simp)

theorem exec_executed (hengine : k.engine = c.engine) (hformed : Formed s.store) (hs : Executed c s)
    (h : k.exec s op = .ok s') : Executed c s' where
  circuit := exec_circuit_hasParams hformed hs.circuit h
  code := by
    intro id info hrow
    have hcalls := exec_calls hformed h
    rw [hengine] at hcalls
    by_cases hparts : Part.codes ∈ op.parts
    · cases op with
      | storeCode =>
        obtain ⟨id', h⟩ := resultState_eq_ok h
        obtain ⟨code, info', hvm, -, hstore⟩ := create_eq_ok h
        rw [hstore, row_put] at hrow
        split_ifs at hrow with hid
        · obtain rfl : info' = info := by simpa using hrow
          rw [hengine] at hvm
          obtain ⟨hname, hvm'⟩ := Content.storeCode_eq_some hvm
          exact Content.hasCode_iff.mpr ⟨code, by simp [hvm'], hname⟩
        · rw [row_put_of_ne (by simp)] at hrow
          exact hcalls.hasCode (hs.code id info hrow)
      | _ => simp at hparts
    · have hkeep : row s'.store (.code id) = row s.store (.code id) := row_exec hformed h hparts
      exact hcalls.hasCode (hs.code id info (hkeep ▸ hrow))

theorem run_executed (hengine : k.engine = c.engine) (p : Params) (vm : Vm) (app : β) (ops : List Op) :
    Formed (run k.step ⟨initialStore p, vm, app⟩ ops).store ∧
      Executed c (run k.step ⟨initialStore p, vm, app⟩ ops) := by
  refine run_preserves (I := fun s : State Vm β => Formed s.store ∧ Executed c s) (fun s op hs => ?_) _ ops
    ⟨initialStore_formed p, fun id info hrow => ?_, fun id hrow => ?_⟩
  · exact orElse_elim (P := fun t : State Vm β => Formed t.store ∧ Executed c t) hs fun s' heq =>
      ⟨exec_formed hs.1 heq, exec_executed hengine hs.1 hs.2 heq⟩
  · simp [row_initialStore] at hrow
  · simp [row_initialStore] at hrow

end executed

/-! ## Taking and restoring a snapshot -/

/-- Each payload is the archive of a code, and uncompressing it gives the code back. -/
def Keeper.Zips (k : Keeper ν β) (gzipIt : Bytes → Option Bytes) : Prop :=
  ∀ code, ∃ payload, gzipIt code = some payload ∧ isGzip payload = true ∧
    k.uncompress payload maxInt64 = some code

section restore

variable {c : Content} {k : Keeper Vm β} {gzipIt : Bytes → Option Bytes} {s : State Vm β}

/-- The payloads restore to codes. -/
def Keeper.Archives (k : Keeper ν β) (payloads codes : List Bytes) : Prop :=
  List.Forall₂ (fun payload code => isGzip payload = true ∧ k.uncompress payload maxInt64 = some code)
    payloads codes

section

variable (hengine : k.engine = c.engine)

include hengine

theorem snapshotCodes_returns (hzips : k.Zips gzipIt) (hs : Executed c s) :
    ∀ (infos : List (UInt64 × CodeInfo)) (seenBefore : List Bytes),
      (∀ r ∈ infos, row s.store (.code r.1) = some (.codeInfo r.2)) →
      ∃ payloads codes, k.snapshotCodes gzipIt s seenBefore infos = .ok payloads ∧ k.Archives payloads codes ∧
        (∀ code ∈ codes, ∃ checksum, c.codeHash code = some checksum) ∧
        ∀ r ∈ infos, hex r.2.codeHash ∈ seenBefore ∨ ∃ code ∈ codes, c.codeHash code = some r.2.codeHash
  | [], _, _ => ⟨[], [], rfl, .nil, by simp, by simp⟩
  | (id, info) :: infos, seenBefore, hinfos => by
    have hrest : ∀ r ∈ infos, row s.store (.code r.1) = some (.codeInfo r.2) := fun r hr =>
      hinfos r (mem_cons_of_mem _ hr)
    rw [Keeper.snapshotCodes]
    by_cases hseen : seenBefore.contains (hex info.codeHash) = true
    · obtain ⟨payloads, codes, heq, harchives, hnamed, hall⟩ :=
        snapshotCodes_returns hzips hs infos seenBefore hrest
      refine ⟨payloads, codes, by rw [if_pos hseen, heq], harchives, hnamed, fun r hr => ?_⟩
      rcases mem_cons.mp hr with rfl | hr
      · exact .inl (by simpa using hseen)
      · exact hall r hr
    · have hrow := hinfos (id, info) mem_cons_self
      obtain ⟨code, hget, hname⟩ := Content.getCode_of_hasCode (hs.code id info hrow)
      have hbytes : k.getByteCode s id = .ok code := by
        rw [Keeper.getByteCode, getCodeInfo_eq_some.mpr hrow, hengine]
        simp only [hget]
      obtain ⟨payload, hzip, hgzip, hunzip⟩ := hzips code
      obtain ⟨payloads, codes, heq, harchives, hnamed, hall⟩ :=
        snapshotCodes_returns hzips hs infos (hex info.codeHash :: seenBefore) hrest
      refine ⟨payload :: payloads, code :: codes, ?_, .cons ⟨hgzip, hunzip⟩ harchives, ?_, fun r hr => ?_⟩
      · rw [if_neg hseen, hbytes, ok_bind, hzip]
        simp only [heq]
        rfl
      · intro code' hcode'
        rcases mem_cons.mp hcode' with rfl | hcode'
        · exact ⟨_, hname⟩
        · exact hnamed code' hcode'
      · rcases mem_cons.mp hr with rfl | hr
        · exact Or.inr ⟨code, mem_cons_self, hname⟩
        · rcases hall r hr with hmem | ⟨code', hcode', hname'⟩
          · rcases mem_cons.mp hmem with hhex | hmem
            · exact Or.inr ⟨code, mem_cons_self, by rw [hname, hex_injective hhex]⟩
            · exact .inl hmem
          · exact Or.inr ⟨code', mem_cons_of_mem _ hcode', hname'⟩

theorem restoreV1_of_archive (vm : Vm) {payload code checksum : Bytes} (hgzip : isGzip payload = true)
    (hunzip : k.uncompress payload maxInt64 = some code) (hname : c.codeHash code = some checksum) :
    k.restoreV1 vm payload = .ok { vm with codes := code :: vm.codes } := by
  rw [Keeper.restoreV1, hgzip, hunzip, hengine]
  simp [Content.engine, Content.storeCodeUnchecked, hname, createFailedOr, require]

theorem restoreItems_returns {payloads codes : List Bytes} (harchives : k.Archives payloads codes)
    (hnamed : ∀ code ∈ codes, ∃ checksum, c.codeHash code = some checksum) (i : ℕ) (vm : Vm) :
    forEach (fun _ vm payload => wrapErr "processing snapshot item" (k.restoreV1 vm payload)) i vm
      payloads = .ok { vm with codes := codes.reverse ++ vm.codes } := by
  induction harchives generalizing i vm with
  | nil => rfl
  | @cons payload code payloads codes hfirst _ ih =>
    obtain ⟨checksum, hname⟩ := hnamed code mem_cons_self
    rw [forEach, restoreV1_of_archive hengine vm hfirst.1 hfirst.2 hname, wrapErr_ok, ok_bind,
      ih (fun code hcode => hnamed code (mem_cons_of_mem _ hcode))]
    simp

theorem params_restoreV1 {vm vm' : Vm} {payload : Bytes}
    (h : k.restoreV1 vm payload = .ok vm') : vm'.params = vm.params := by
  obtain ⟨-, -, h₁⟩ := bind_eq_ok.mp h
  obtain ⟨code, -, h₂⟩ := bind_eq_ok.mp h₁
  obtain ⟨⟨checksum, vm''⟩, hstore, h₃⟩ := bind_eq_ok.mp h₂
  cases h₃
  rw [createFailedOr_eq_ok, hengine] at hstore
  rw [(Content.storeCodeUnchecked_eq_some hstore).2]

theorem finalizeV1_eq_ok (hformed : Formed s.store) {vm : Vm} (h : k.finalizeV1 s = .ok vm) :
    vm.params = s.vm.params ∧ ∀ id, (row s.store (.pin id)).isSome → (row s.store (.circuit id)).isSome := by
  obtain ⟨vm₁, hcodes, h₁⟩ := bind_eq_ok.mp h
  obtain ⟨keys, hkeys, h₂⟩ := bind_eq_ok.mp h₁
  have hvm₁ : vm₁.params = s.vm.params := by
    obtain ⟨checksums, -, h₃⟩ := bind_eq_ok.mp hcodes
    split_ifs at h₃
    · rw [← ok.inj h₃]
    · rw [engineOr_eq_ok, hengine] at h₃
      rw [Content.syncPinnedCodes_eq_some h₃]
  refine ⟨?_, fun id hpin => ?_⟩
  · rw [← hvm₁]
    split_ifs at h₂
    · rw [← ok.inj h₂]
    · rw [engineOr_eq_ok, hengine] at h₂
      rw [Content.syncPinnedCircuits_eq_some h₂]
  · obtain ⟨info, hrow, -⟩ := mem_collectPinnedCircuitKeys hformed hkeys hpin (by simp)
    rw [hrow]
    rfl

end

theorem finalizeV1_of_no_pins (hformed : Formed s.store) (hpins : ∀ id, row s.store (.pin id) = none) :
    k.finalizeV1 s = .ok s.vm := by
  have hkeys : (s.store.iterator pinnedCodeIndexPrefix).map Prod.fst = [] := by
    obtain ⟨ids, hids, -, hmem⟩ := exists_pinned fun key v _ hget => hformed key v trivial hget
    have hnil : ids = [] := eq_nil_iff_forall_not_mem.mpr fun id hid => by simpa [hpins] using (hmem id).mp hid
    rw [hids, hnil]
    rfl
  rw [Keeper.finalizeV1, Keeper.initalizedPinnedCodesAndCircuits, Keeper.initializePinnedCodes,
    collectPinnedChecksums, collectPinnedCircuitKeys,
    show pinnedCircuitsIndexPrefix = pinnedCodeIndexPrefix from rfl, hkeys]
  rfl

end restore

/-- The state sync hands over exactly the states that have no parameters (hence no circuits) and no pins. -/
theorem handsOver_iff (c : Content) (k : Keeper Vm β) (hengine : k.engine = c.engine)
    (gzipIt : Bytes → Option Bytes) (hzips : k.Zips gzipIt) (p : Params) (vm : Vm) (app : β) (ops : List Op) :
    k.HandsOver c gzipIt (run k.step ⟨initialStore p, vm, app⟩ ops) ↔
      (∀ id, row (run k.step ⟨initialStore p, vm, app⟩ ops).store (.vkParam id) = none) ∧
        ∀ id, row (run k.step ⟨initialStore p, vm, app⟩ ops).store (.pin id) = none := by
  obtain ⟨hformed, hs⟩ := run_executed hengine p vm app ops
  generalize run k.step ⟨initialStore p, vm, app⟩ ops = s at hformed hs
  constructor
  · rintro ⟨payloads, vm', -, hrestore, hcomplete⟩
    obtain ⟨vm₁, hitems, hfinal⟩ := bind_eq_ok.mp hrestore
    have hvm₁ : vm₁.params = [] :=
      forEach_rule
        (fun _ _ _ _ _ hitem hvm => (params_restoreV1 hengine (wrapErr_eq_ok.mp hitem)).trans hvm)
        payloads 0 {} vm₁ hitems rfl
    obtain ⟨hparams, hpins⟩ := finalizeV1_eq_ok hengine (s := { s with vm := vm₁ }) hformed hfinal
    have hno : ∀ id, row s.store (.vkParam id) = none := by
      intro id
      by_contra hsome
      obtain ⟨v, hv⟩ := Option.ne_none_iff_exists'.mp hsome
      have hkind := hformed.holds hv
      cases v with
      | vkParamInfo info =>
        obtain ⟨params, hmem, -⟩ := Content.hasParam_iff.mp (hcomplete.vkParam id info hv)
        rw [hparams, hvm₁] at hmem
        simp at hmem
      | _ => exact hkind.elim
    refine ⟨hno, fun id => ?_⟩
    by_contra hsome
    obtain ⟨id', hid'⟩ := hs.circuit id (hpins id (Option.isSome_iff_ne_none.mpr hsome))
    simp [hno id'] at hid'
  · rintro ⟨hno, hpins⟩
    obtain ⟨payloads, codes, hsnapshot, harchives, hnamed, hall⟩ :=
      snapshotCodes_returns hengine hzips hs (codeInfos s.store) [] fun r hr => (mem_codeInfos hformed).mp hr
    refine ⟨payloads, { codes := codes.reverse }, hsnapshot, ?_, fun id info hrow => ?_, fun id info hrow => ?_,
      fun id info hrow => ?_⟩
    · rw [Keeper.restoreExtension, Keeper.processAllItems, restoreItems_returns hengine harchives hnamed]
      simpa using finalizeV1_of_no_pins (s := { s with vm := { codes := codes.reverse } }) hformed hpins
    · rcases hall (id, info) ((mem_codeInfos hformed).mpr hrow) with hseen | ⟨code, hcode, hname⟩
      · simp at hseen
      · exact Content.hasCode_iff.mpr ⟨code, by simpa using hcode, hname⟩
    · obtain ⟨id', hid'⟩ := hs.circuit id (by rw [hrow]; rfl)
      simp [hno id'] at hid'
    · simp [hno id] at hrow

/-! ## A node with a code, and a node with a circuit -/

theorem nodeKeeper_zips (t : Tables) : t.nodeKeeper.Zips Tables.gzip := fun code =>
  ⟨[0x1f, 0x8b, 0x08] ++ code, rfl, rfl, rfl⟩

open Tables in
theorem code_handed_over :
    sampleNode.nodeKeeper.HandsOver sampleNode.content gzip
      (run sampleNode.nodeKeeper.step ⟨initialStore defaultParams, {}, ()⟩
        [.storeCode (account 1) sampleCode none .default]) := by
  have hok : (sampleNode.nodeKeeper.exec ⟨initialStore defaultParams, {}, ()⟩
      (.storeCode (account 1) sampleCode none .default)).isOk = true := by decide +kernel
  obtain ⟨s, hs⟩ := isOk_iff.mp hok
  have hrun : run sampleNode.nodeKeeper.step ⟨initialStore defaultParams, {}, ()⟩
      [.storeCode (account 1) sampleCode none .default] = s := by
    rw [run_cons, Keeper.step, hs]
    rfl
  have hrow : ∀ key : Key, key.part ∉ [Part.sequence .code, .codes] → key ≠ .params → row s.store key = none := by
    intro key hpart hne
    rw [row_exec (initialStore_formed _) hs hpart]
    exact row_initialStore hne
  refine (handsOver_iff sampleNode.content sampleNode.nodeKeeper rfl gzip (nodeKeeper_zips _) defaultParams {} ()
    [.storeCode (account 1) sampleCode none .default]).mpr ?_
  rw [hrun]
  exact ⟨fun id => hrow _ (by simp) (by simp), fun id => hrow _ (by simp) (by simp)⟩

/-- A node on which one account stored parameters and a circuit. -/
def circuitNode : State Vm Unit :=
  run Tables.sampleNode.nodeKeeper.step ⟨initialStore defaultParams, {}, ()⟩
    [.storeFullCircuit 0 (Tables.account 1) true Tables.sampleParams Tables.sampleBody .default]

open Tables in
/-- The new node restores, but its engine does not have the circuit. -/
theorem circuit_not_handed_over : ∃ info, row circuitNode.store (.circuit 1) = some (.circuitInfo info) ∧
    sampleNode.content.hasCircuit circuitNode.vm info.circuitHash = true ∧
    sampleNode.nodeKeeper.snapshotExtension gzip circuitNode = .ok [] ∧
    sampleNode.nodeKeeper.restoreExtension { circuitNode with vm := {} } snapshotFormat [] = .ok {} ∧
    sampleNode.content.hasCircuit {} info.circuitHash = false ∧
    ¬ sampleNode.nodeKeeper.HandsOver sampleNode.content gzip circuitNode := by
  have hsome : ((getCircuitInfo circuitNode.store 1).any fun info =>
      sampleNode.content.hasCircuit circuitNode.vm info.circuitHash) = true := by decide +kernel
  have hsnapshot : sampleNode.nodeKeeper.snapshotExtension gzip circuitNode = .ok [] := by decide +kernel
  have hrestore : sampleNode.nodeKeeper.restoreExtension { circuitNode with vm := {} } snapshotFormat [] =
      .ok {} := by decide +kernel
  obtain ⟨info, hinfo, hhas⟩ := (Option.any_eq_true _ _).mp hsome
  have hrow := getCircuitInfo_eq_some.mp hinfo
  refine ⟨info, hrow, hhas, hsnapshot, hrestore, rfl, ?_⟩
  rintro ⟨payloads, vm, hpayloads, hvm, hcomplete⟩
  cases hsnapshot.symm.trans hpayloads
  cases hrestore.symm.trans hvm
  have hmissing := hcomplete.circuit 1 info hrow
  cases hmissing

end Wasm
