/-
  Code uploaded together with a circuit.

  `create_with_circuit` reads and writes the sequence of `store_circuit` as four bytes, least significant first,
  where the other has eight, most significant first.
-/
import TerpCore.Wasm.System

namespace Wasm

open Lib Outcome List

variable {ν β : Type}

/-! ## `create_with_circuit` -/

/-- The sequence as four bytes, least significant first. -/
def autoIncrementIDUint32 (s : Store) (sequenceKey : Bytes) : Outcome Err (UInt32 × Store) := do
  let id ← match s.get sequenceKey with
    | none => .ok 1
    | some (.raw bz) => .ofOption (getLE32 bz)
    | some _ => .panicked
  return (id, s.set sequenceKey (.raw (le32 (id + 1))))

def circuitKeyLen : Nat := 72

/-- Code and a circuit that passed the checks, as the engine has stored them. -/
structure CodeUpload (ν : Type) where
  wasmChecksum : Bytes
  circuitKey : Bytes
  vkCode : Bytes
  access : AccessConfig
  vm : ν

/-- A circuit that passed the checks of `store_circuit`, as the engine has stored it. -/
structure CircuitUpload (ν : Type) where
  checksum : Bytes
  paramBytes : Bytes
  vkBody : Bytes
  access : AccessConfig
  vm : ν

namespace Keeper

variable (k : Keeper ν β) (s : State ν β)

/-- The first half of `create_with_circuit`, up to the sequences; `none` is a nil circuit. -/
def checkCodeUpload (creator : AccAddress) (wasmCode : Bytes) (vkCode : Option Bytes)
    (instantiateAccess : Option AccessConfig) (authZ : AuthorizationPolicy) : Outcome Err (CodeUpload ν) := do
  let params ← getParams s.store
  let defaultAccessConfig ← k.accessWith params.instantiateDefaultPermission creator
  let access := instantiateAccess.getD defaultAccessConfig
  let chainConfigs : ChainAccessConfigs := ⟨defaultAccessConfig, params.codeUploadAccess⟩
  let ok ← .ofOption (authZ.canCreateCode chainConfigs (k.bech32 creator) access)
  require ok (.wrap "can not create code" .unauthorized)
  let code ← k.uncompressIfGzip wasmCode k.maxWasmSize "uncompress wasm archive"
  let (wasmChecksum, vm) ← createFailedOr (k.engine.storeCode s.vm code)
  let (circuitChecksum, vm) ← match vkCode with
    | some vkCode => createFailedOr (k.engine.storeCircuit vm vkCode)
    | none => .ok ([], vm)
  require (wasmChecksum.length == 32)
    (.wrap s!"invalid wasm checksum length: expected 32, got {wasmChecksum.length}" .createFailed)
  require (circuitChecksum.length != 0) (.wrap "circuit key is empty" .createFailed)
  require (circuitChecksum.length == circuitKeyLen)
    (.wrap s!"invalid circuit key length: expected 72, got {circuitChecksum.length}" .createFailed)
  require (k.engine.analyzeCode vm wasmChecksum) .createFailed
  return ⟨wasmChecksum, circuitChecksum, vkCode.getD [], access, vm⟩

/-- The second half: the ids are taken, and the records written. -/
def writeCodeUpload (creator : AccAddress) (u : CodeUpload ν) :
    Outcome Err (UInt64 × UInt64 × List Bytes × State ν β) := do
  let (codeID, store) ← autoIncrementID s.store keySequenceCodeID
  let (zkIDUint32, store) ← autoIncrementIDUint32 store keySequenceCircuitID
  let store := mustStoreCodeInfo store codeID ⟨u.wasmChecksum, k.bech32 creator, u.access⟩
  let store := mustStoreCircuitInfo store zkIDUint32.toUInt64 ⟨u.circuitKey, k.bech32 creator, u.access, 0, 0, 0, 0⟩
  let store := setCircuitCreatorIndex store creator zkIDUint32.toUInt64
  let store := mustStoreCircuitBytes store zkIDUint32.toUInt64 u.vkCode
  -- the result `zkID` is never assigned
  return (codeID, 0, [u.wasmChecksum, u.circuitKey], { s with store := store, vm := u.vm })

/-- `create_with_circuit`: code and circuit in one message. -/
def createWithCircuit (creator : AccAddress) (wasmCode : Bytes) (vkCode : Option Bytes)
    (instantiateAccess : Option AccessConfig) (authZ : AuthorizationPolicy) :
    Outcome Err (UInt64 × UInt64 × List Bytes × State ν β) := do
  let u ← k.checkCodeUpload s creator wasmCode vkCode instantiateAccess authZ
  k.writeCodeUpload s creator u

/-! ## `store_circuit` in two halves -/

/-- The first half of `storeCircuit`, up to the sequence. -/
def checkCircuitUpload (blockTime : Int64) (creator : AccAddress) (paramID : UInt64) (vkBody : Bytes)
    (instantiateAccess : Option AccessConfig) (authZ : AuthorizationPolicy) : Outcome Err (CircuitUpload ν) := do
  require (paramID != 0) (.wrap "param_key is required" .invalidRequest)
  let params ← getParams s.store
  let defaultAccessConfig ← k.accessWith params.instantiateDefaultPermission creator
  let access := instantiateAccess.getD defaultAccessConfig
  k.authorizeCircuitUpload s.store blockTime creator access authZ "can not create circuit"
  let some paramInfo := getVkParamInfo s.store paramID
    | .error (.wrap s!"vk param {paramID}" .notFound)
  let paramBytes ← getVkParamBytes s.store paramID
  k.checkParamHash paramInfo.dataHash paramBytes
  let (_, vm) ← createFailedOr (k.engine.storeParam s.vm paramBytes)
  let vkBody ← k.uncompressIfGzip vkBody k.maxCircuitSize "uncompress vk body"
  require (vkBody != []) (.wrap "empty vk_body" .invalidRequest)
  let (checksum, vm) ← createFailedOr (k.engine.storeCircuit vm (paramBytes ++ vkBody))
  require (checksum != []) (.wrap "empty circuit key from wasmvm" .createFailed)
  return ⟨checksum, paramBytes, vkBody, access, vm⟩

/-- The second half of `storeCircuit`. -/
def writeCircuitUpload (creator : AccAddress) (paramID : UInt64) (u : CircuitUpload ν) :
    Outcome Err (UInt64 × State ν β) := do
  let (zkID, store) ← autoIncrementID s.store keySequenceCircuitID
  let store := mustStoreCircuitInfo store zkID
    ⟨u.checksum, k.bech32 creator, u.access, 0, UInt64.ofNat u.paramBytes.length, 0, UInt64.ofNat u.vkBody.length⟩
  let store := mustStoreCircuitParamRef store zkID paramID
  let store := setCircuitCreatorIndex store creator zkID
  return (zkID, { s with store := mustStoreCircuitBytes store zkID (u.paramBytes ++ u.vkBody), vm := u.vm })

theorem storeCircuit_eq (blockTime : Int64) (creator : AccAddress) (paramID : UInt64) (vkBody : Bytes)
    (instantiateAccess : Option AccessConfig) (authZ : AuthorizationPolicy) :
    k.storeCircuit s blockTime creator paramID vkBody instantiateAccess authZ =
      k.checkCircuitUpload s blockTime creator paramID vkBody instantiateAccess authZ >>=
        k.writeCircuitUpload s creator paramID := by
  unfold storeCircuit checkCircuitUpload
  cases getVkParamInfo s.store paramID with
  | none => simp only [bind_assoc, error_bind]
  | some paramInfo => simp only [bind_assoc, pure_eq, ok_bind, writeCircuitUpload]

end Keeper

/-! ## Both kinds of uploads -/

/-- The two uploads that number circuits. -/
inductive Upload where
  | createWithCircuit (creator : AccAddress) (wasmCode : Bytes) (vkCode : Option Bytes)
      (access : Option AccessConfig) (authZ : AuthorizationPolicy)
  | storeCircuit (blockTime : Int64) (creator : AccAddress) (paramID : UInt64) (vkBody : Bytes)
      (access : Option AccessConfig) (authZ : AuthorizationPolicy)

/-- The two encodings of the sequence. -/
inductive Upload.Kind where
  | create
  | store
  deriving DecidableEq

def Upload.kind : Upload → Upload.Kind
  | .createWithCircuit .. => .create
  | .storeCircuit .. => .store

/-- The record of a circuit is written, where there was none, and no other. -/
structure WritesRecord (zkID : UInt64) (s t : Store) : Prop where
  fresh : getCircuitInfo s zkID = none
  written : (getCircuitInfo t zkID).isSome
  others : ∀ id, id ≠ zkID → getCircuitInfo t id = getCircuitInfo s id

namespace Keeper

variable (k : Keeper ν β)

/-- The circuit id that a call returns, and the state after it. -/
def upload (s : State ν β) : Upload → Outcome Err (UInt64 × State ν β)
  | .createWithCircuit creator wasmCode vkCode access authZ => do
    let (_, zkID, _, s) ← k.createWithCircuit s creator wasmCode vkCode access authZ
    return (zkID, s)
  | .storeCircuit blockTime creator paramID vkBody access authZ =>
    k.storeCircuit s blockTime creator paramID vkBody access authZ

/-- A call passes its checks and comes to the sequences. -/
def reaches (s : State ν β) : Upload → Bool
  | .createWithCircuit creator wasmCode vkCode access authZ =>
    (k.checkCodeUpload s creator wasmCode vkCode access authZ).isOk
  | .storeCircuit blockTime creator paramID vkBody access authZ =>
    (k.checkCircuitUpload s blockTime creator paramID vkBody access authZ).isOk

/-- An upload that fails changes nothing. -/
def stepUpload (s : State ν β) (u : Upload) : State ν β := (resultState (k.upload s u)).orElse s

/-- The kinds of the calls that come to the sequences in a run. -/
def reached : State ν β → List Upload → List Upload.Kind
  | _, [] => []
  | s, u :: uploads =>
    if k.reaches s u then u.kind :: reached (k.stepUpload s u) uploads else reached (k.stepUpload s u) uploads

/-- A call that comes to the sequences returns, and its id is that of the one record that it writes. -/
def Numbers (s : State ν β) (u : Upload) : Prop :=
  k.reaches s u = true → ∃ zkID t, k.upload s u = .ok (zkID, t) ∧ WritesRecord zkID s.store t.store

end Keeper

/-- After `n` calls of `store_circuit`: more of them, with one `create_with_circuit` at the end if there is one before
it. -/
def InOrder (n : ℕ) (kinds : List Upload.Kind) : Prop :=
  ∃ m, kinds = List.replicate m .store ∨ 0 < n + m ∧ kinds = List.replicate m .store ++ [.create]

theorem inOrder_nil (n : ℕ) : InOrder n [] := ⟨0, .inl rfl⟩

theorem inOrder_store {n : ℕ} {kinds : List Upload.Kind} : InOrder n (.store :: kinds) ↔ InOrder (n + 1) kinds := by
  constructor
  · rintro ⟨m, hm⟩
    cases m with
    | zero => simp at hm
    | succ m =>
      rw [replicate_succ, cons_append, List.cons.injEq, List.cons.injEq] at hm
      exact ⟨m, hm.imp And.right fun h => ⟨by omega, h.2.2⟩⟩
  · rintro ⟨m, hm⟩
    refine ⟨m + 1, ?_⟩
    rw [replicate_succ, cons_append, List.cons.injEq, List.cons.injEq]
    exact hm.imp (fun h => ⟨rfl, h⟩) fun h => ⟨by omega, rfl, h.2⟩

theorem inOrder_create {n : ℕ} {kinds : List Upload.Kind} : InOrder n (.create :: kinds) ↔ 0 < n ∧ kinds = [] := by
  constructor
  · rintro ⟨m, hm⟩
    cases m with
    | zero => simpa using hm
    | succ m => simp [replicate_succ] at hm
  · rintro ⟨hn, rfl⟩
    exact ⟨0, .inr ⟨hn, rfl⟩⟩

/-! ## The sequence -/

/-- After `n` calls of `store_circuit`, from a store without circuits. -/
structure Counted (n : ℕ) (s : Store) : Prop where
  sequence : ∃ next : UInt64, next.toNat = n + 1 ∧
    row s (.seq .circuit) = if n = 0 then none else some (.raw (be64 next))
  code : row s (.seq .code) = none
  free : ∀ id : UInt64, id = 0 ∨ n < id.toNat → row s (.circuit id) = none

/-- After `create_with_circuit`. -/
def Recoded (s : Store) : Prop := row s (.seq .circuit) = some (.raw (le32 1)) ∧ (getCircuitInfo s 0).isSome

section writes

variable {k : Keeper ν β} {s t : State ν β} {n : ℕ} {creator : AccAddress} {paramID zkID : UInt64}

theorem WritesRecord.of_rows {s t : Store} (hfree : row s (.circuit zkID) = none)
    (hinfo : ∃ info, row t (.circuit zkID) = some (.circuitInfo info))
    (hothers : ∀ id, id ≠ zkID → row t (.circuit id) = row s (.circuit id)) : WritesRecord zkID s t where
  fresh := by rw [getCircuitInfo, show s.get (getCircuitKey zkID) = none from hfree]
  written := by
    obtain ⟨info, hinfo⟩ := hinfo
    rw [getCircuitInfo_eq_some.mpr hinfo]
    rfl
  others id hid := getCircuitInfo_congr (hothers id hid)

theorem Counted.peek {s : Store} (h : Counted n s) :
    ∃ next : UInt64, next.toNat = n + 1 ∧ peekAutoIncrementID s keySequenceCircuitID = .ok next := by
  obtain ⟨next, hnext, hrow⟩ := h.sequence
  have hget : s.get keySequenceCircuitID = _ := hrow
  refine ⟨next, hnext, ?_⟩
  rw [peekAutoIncrementID, hget]
  by_cases hn : n = 0
  · obtain rfl : next = 1 := UInt64.toNat_inj.mp (by rw [hnext, hn]; rfl)
    rw [if_pos hn]
  · rw [if_neg hn]
    simp

theorem Counted.writeCircuitUpload (h : Counted n s.store) (hn : n + 2 < 2 ^ 64) (u : CircuitUpload ν) :
    ∃ zkID t, k.writeCircuitUpload s creator paramID u = .ok (zkID, t) ∧ Counted (n + 1) t.store ∧
      WritesRecord zkID s.store t.store := by
  obtain ⟨next, hnext, hpeek⟩ := h.peek
  have hwrite : ∃ info, k.writeCircuitUpload s creator paramID u = .ok (next,
      { s with
        store := put (put (put (put (put s.store (.seq .circuit) (.raw (be64 (next + 1)))) (.circuit next)
          (.circuitInfo info)) (.circuitParamRef next) (.raw (be64 paramID))) (.creator creator next) (.raw [1]))
          (.circuitBytes next) (.raw (u.paramBytes ++ u.vkBody))
        vm := u.vm }) := by
    rw [Keeper.writeCircuitUpload, autoIncrementID, hpeek]
    exact ⟨_, rfl⟩
  obtain ⟨info, hwrite⟩ := hwrite
  refine ⟨_, _, hwrite, ⟨⟨next + 1, ?_, ?_⟩, ?_, fun id hid => ?_⟩,
    .of_rows (h.free _ (.inr (by omega))) ⟨info, ?_⟩ fun id hid => ?_⟩
  · rw [UInt64.toNat_add, UInt64.toNat_one]
    omega
  · simp [row_put]
  · simp [row_put, h.code]
  · have hne : next ≠ id := by
      rintro rfl
      rw [← UInt64.toNat_inj, UInt64.toNat_zero] at hid
      omega
    simp [row_put, hne, h.free id (hid.imp_right fun hid => by omega)]
  · simp [row_put]
  · simp [row_put, Ne.symm hid]

theorem Counted.autoIncrementIDUint32 {s : Store} (h : Counted n s) (hn : n + 1 < 2 ^ 32) (v : Value) :
    autoIncrementIDUint32 (put s (.seq .code) v) keySequenceCircuitID = .ok (if n = 0 then 1 else 0,
      put (put s (.seq .code) v) (.seq .circuit) (.raw (le32 ((if n = 0 then 1 else 0) + 1)))) := by
  obtain ⟨next, hnext, hrow⟩ := h.sequence
  have hget : (put s (.seq .code) v).get keySequenceCircuitID = _ := (row_put_of_ne (by simp)).trans hrow
  rw [Wasm.autoIncrementIDUint32, hget]
  by_cases hzero : n = 0
  · simp only [if_pos hzero]
    rfl
  · simp only [if_neg hzero, getLE32_be64 (x := next) (by omega)]
    rfl

/-- `create_with_circuit` writes its record under one, or under zero, and returns zero. -/
theorem Counted.writeCodeUpload (h : Counted n s.store) (hn : n + 1 < 2 ^ 32) (creator : AccAddress)
    (u : CodeUpload ν) :
    ∃ codeID checksums info t, k.writeCodeUpload s creator u = .ok (codeID, 0, checksums, t) ∧
      row t.store (.seq .circuit) = some (.raw (le32 ((if n = 0 then 1 else 0) + 1))) ∧
      ∀ id, row t.store (.circuit id) = if (if n = 0 then 1 else 0 : UInt32).toUInt64 = id then some (.circuitInfo info)
        else row s.store (.circuit id) := by
  have hcode : Wasm.autoIncrementID s.store keySequenceCodeID =
      .ok (1, put s.store (.seq .code) (.raw (be64 (1 + 1)))) := by
    rw [autoIncrementID, peekAutoIncrementID, show s.store.get keySequenceCodeID = none from h.code]
    rfl
  rw [Keeper.writeCodeUpload, hcode, ok_bind]
  dsimp only
  rw [h.autoIncrementIDUint32 hn]
  generalize (if n = 0 then 1 else 0 : UInt32) = zkID
  refine ⟨_, _, ⟨u.circuitKey, k.bech32 creator, u.access, 0, 0, 0, 0⟩, _, rfl, ?_, fun id => ?_⟩
  all_goals
    show row (put (put (put (put (put _ (.seq .circuit) _) (.code 1) _) (.circuit zkID.toUInt64) _)
      (.creator creator zkID.toUInt64) _) (.circuitBytes zkID.toUInt64) _) _ = _
    simp [row_put]

end writes

/-! ## Calls -/

section calls

variable {k : Keeper ν β} {s : State ν β} {n : ℕ} {u : Upload}

theorem stepUpload_of_ok {zkID : UInt64} {t : State ν β} (h : k.upload s u = .ok (zkID, t)) : k.stepUpload s u = t := by
  rw [Keeper.stepUpload, resultState_of_ok h]
  rfl

theorem stepUpload_of_not_reaches (h : k.reaches s u = false) : k.stepUpload s u = s := by
  have hupload : (k.upload s u).isOk = false := by
    cases u with
    | createWithCircuit creator wasmCode vkCode access authZ =>
      simp only [Keeper.upload, Keeper.createWithCircuit]
      rcases hcheck : k.checkCodeUpload s creator wasmCode vkCode access authZ with up | e | _
      · rw [Keeper.reaches, hcheck] at h
        cases h
      · rfl
      · rfl
    | storeCircuit blockTime creator paramID vkBody access authZ =>
      rw [Keeper.upload, Keeper.storeCircuit_eq]
      rcases hcheck : k.checkCircuitUpload s blockTime creator paramID vkBody access authZ with up | e | _
      · rw [Keeper.reaches, hcheck] at h
        cases h
      · rfl
      · rfl
  rcases hresult : k.upload s u with ⟨zkID, t⟩ | e | _
  · rw [hresult] at hupload
    cases hupload
  · rw [Keeper.stepUpload, hresult]
    rfl
  · rw [Keeper.stepUpload, hresult]
    rfl

theorem Counted.store (h : Counted n s.store) (hn : n + 2 < 2 ^ 64) (hreach : k.reaches s u = true)
    (hkind : u.kind = .store) :
    ∃ zkID t, k.upload s u = .ok (zkID, t) ∧ Counted (n + 1) t.store ∧ WritesRecord zkID s.store t.store := by
  cases u with
  | createWithCircuit => cases hkind
  | storeCircuit =>
    obtain ⟨up, hup⟩ := isOk_iff.mp hreach
    rw [Keeper.upload, Keeper.storeCircuit_eq, hup]
    exact h.writeCircuitUpload hn up

theorem Counted.create (h : Counted n s.store) (hn : n + 1 < 2 ^ 32) (hreach : k.reaches s u = true)
    (hkind : u.kind = .create) : ∃ t, k.upload s u = .ok (0, t) ∧ (n = 0 → getCircuitInfo t.store 0 = none) ∧
      (n ≠ 0 → Recoded t.store ∧ WritesRecord 0 s.store t.store) := by
  cases u with
  | storeCircuit => cases hkind
  | createWithCircuit creator =>
    obtain ⟨up, hup⟩ := isOk_iff.mp hreach
    obtain ⟨codeID, checksums, info, t, hwrite, hseq, hrows⟩ := h.writeCodeUpload hn creator up
    refine ⟨t, ?_, fun hzero => ?_, fun hzero => ?_⟩
    · rw [Keeper.upload, Keeper.createWithCircuit, hup, ok_bind, hwrite]
      rfl
    · have hrow := hrows 0
      simp only [if_pos hzero] at hrow
      rw [h.free 0 (.inl rfl)] at hrow
      rw [getCircuitInfo, show t.store.get (getCircuitKey 0) = none from hrow]
    · simp only [if_neg hzero] at hseq hrows
      have hwrites : WritesRecord 0 s.store t.store := by
        refine .of_rows (h.free 0 (.inl rfl)) ⟨info, (hrows 0).trans (if_pos rfl)⟩ fun id hid => ?_
        exact (hrows id).trans (if_neg (Ne.symm hid))
      exact ⟨⟨hseq, hwrites.written⟩, hwrites⟩

theorem Recoded.not_numbers (h : Recoded s.store) (hreach : k.reaches s u = true) : ¬ k.Numbers s u := by
  intro hnumbers
  obtain ⟨zkID, t, hupload, hwrites⟩ := hnumbers hreach
  cases u with
  | createWithCircuit =>
    -- the id that it returns is taken
    obtain ⟨⟨codeID, zkID', checksums, t'⟩, hcreate, hresult⟩ := bind_eq_ok.mp hupload
    obtain ⟨up, -, hwrite⟩ := bind_eq_ok.mp hcreate
    obtain ⟨code, -, hwrite⟩ := bind_eq_ok.mp hwrite
    obtain ⟨zk, -, hwrite⟩ := bind_eq_ok.mp hwrite
    cases hwrite
    cases hresult
    have hsome := h.2
    simp [hwrites.fresh] at hsome
  | storeCircuit =>
    -- four bytes are no number of eight
    obtain ⟨up, hup⟩ := isOk_iff.mp hreach
    rw [Keeper.upload, Keeper.storeCircuit_eq, hup, ok_bind, Keeper.writeCircuitUpload, autoIncrementID,
      peekAutoIncrementID, show s.store.get keySequenceCircuitID = _ from h.1] at hupload
    cases hupload

end calls

/-! ## Runs -/

theorem Recoded.along_iff {k : Keeper ν β} {s : State ν β} (h : Recoded s.store) : ∀ uploads : List Upload,
    Along k.stepUpload k.Numbers s uploads ↔ k.reached s uploads = []
  | [] => iff_of_true trivial rfl
  | u :: uploads => by
    rw [Along, Keeper.reached]
    cases hreach : k.reaches s u with
    | true => exact iff_of_false (fun hall => h.not_numbers hreach hall.1) (by simp)
    | false =>
      rw [stepUpload_of_not_reaches hreach, h.along_iff uploads]
      exact and_iff_right fun hyes => by rw [hreach] at hyes; cases hyes

theorem Counted.along_iff {k : Keeper ν β} : ∀ (uploads : List Upload) {n : ℕ} {s : State ν β}, Counted n s.store →
    n + uploads.length < 2 ^ 32 → (Along k.stepUpload k.Numbers s uploads ↔ InOrder n (k.reached s uploads))
  | [], n, _, _, _ => iff_of_true trivial (inOrder_nil n)
  | u :: uploads, n, s, h, hlen => by
    rw [length_cons] at hlen
    rw [Along, Keeper.reached]
    cases hreach : k.reaches s u with
    | false =>
      rw [stepUpload_of_not_reaches hreach, h.along_iff uploads (by omega)]
      exact and_iff_right fun hyes => by rw [hreach] at hyes; cases hyes
    | true =>
      cases hkind : u.kind with
      | store =>
        obtain ⟨zkID, t, hupload, hcounted, hwrites⟩ := h.store (by omega) hreach hkind
        rw [stepUpload_of_ok hupload, hcounted.along_iff uploads (by omega), if_pos rfl, inOrder_store]
        exact and_iff_right fun _ => ⟨zkID, t, hupload, hwrites⟩
      | create =>
        obtain ⟨t, hupload, hfirst, hlater⟩ := h.create (by omega) hreach hkind
        rw [stepUpload_of_ok hupload, if_pos rfl, inOrder_create]
        by_cases hzero : n = 0
        · refine iff_of_false (fun hall => ?_) (by omega)
          obtain ⟨zkID, t', hupload', hwrites⟩ := hall.1 hreach
          cases hupload.symm.trans hupload'
          have hsome := hwrites.written
          simp [hfirst hzero] at hsome
        · obtain ⟨hrecoded, hwrites⟩ := hlater hzero
          rw [hrecoded.along_iff uploads]
          exact and_congr_left fun _ => iff_of_true (fun _ => ⟨0, t, hupload, hwrites⟩) (Nat.pos_of_ne_zero hzero)

/-- From a store without circuits, in every run of fewer than `2 ^ 32` uploads: each that comes to the sequences
returns the id of the record that it wrote, if and only if these are uploads of circuits alone, or some and then a
single one of code with a circuit. -/
theorem numbered_iff (k : Keeper ν β) (s : State ν β) (hcircuits : row s.store (.seq .circuit) = none)
    (hcodes : row s.store (.seq .code) = none) (hempty : ∀ id, row s.store (.circuit id) = none)
    (uploads : List Upload) (hlen : uploads.length < 2 ^ 32) :
    Along k.stepUpload k.Numbers s uploads ↔ InOrder 0 (k.reached s uploads) := by
  have hstart : Counted 0 s.store := ⟨⟨1, rfl, hcircuits⟩, hcodes, fun id _ => hempty id⟩
  exact hstart.along_iff uploads (by omega)

/-! ## Uploads of one account -/

namespace Tables

def codeSample : Tables := { sample with codes := [([1], List.replicate 32 0)] }

def createUpload : Upload := .createWithCircuit (account 1) [1] (some (sampleParams ++ sampleBody)) none .default

def storeUpload : Upload := .storeCircuit 0 (account 1) 1 sampleBody none .default

end Tables

open Tables in
/-- Two circuits, and then code with a circuit, which gets the id zero. -/
theorem third_numbered_zero : let s := sampleRun (lapsedOps.take 2)
    Along codeSample.keeper.stepUpload codeSample.keeper.Numbers s [storeUpload, storeUpload, createUpload] ∧
      (getCircuitInfo
        (run codeSample.keeper.stepUpload s [storeUpload, storeUpload, createUpload]).store 0).isSome := by
  have hempty : ∀ id, row (sampleRun (lapsedOps.take 2)).store (.circuit id) = none := by
    intro id
    refine Option.eq_none_iff_forall_ne_some.mpr fun v hv => ?_
    have hmem := KVStore.mem_iterator.mpr (show KVStore.get _ (circuitKeyPrefix ++ be64 id) = some v from hv)
    cases hmem
  refine ⟨(numbered_iff codeSample.keeper _ (by decide +kernel) (by decide +kernel) hempty _ (by decide)).mpr ?_,
    by decide +kernel⟩
  have hreached : codeSample.keeper.reached (sampleRun (lapsedOps.take 2)) [storeUpload, storeUpload, createUpload] =
      [.store, .store, .create] := by decide +kernel
  rw [hreached]
  exact ⟨2, .inr ⟨by decide, rfl⟩⟩

open Tables in
/-- Code with a circuit alone returns zero and writes the record of one; between circuits it makes the next upload
fail. -/
theorem first_numbered_wrongly : let s := sampleRun (lapsedOps.take 2)
    let t := run codeSample.keeper.stepUpload s [storeUpload, createUpload]
    ((codeSample.keeper.upload s createUpload).isOk = true ∧
      ((codeSample.keeper.upload s createUpload).orElse (0, s)).1 = 0 ∧
      getCircuitInfo (codeSample.keeper.stepUpload s createUpload).store 0 = none ∧
      (getCircuitInfo (codeSample.keeper.stepUpload s createUpload).store 1).isSome) ∧
    codeSample.keeper.reaches t storeUpload = true ∧ (codeSample.keeper.upload t storeUpload).isOk = false :=
  ⟨⟨by decide +kernel, by decide +kernel, by decide +kernel, by decide +kernel⟩, by decide +kernel, by decide +kernel⟩

end Wasm
