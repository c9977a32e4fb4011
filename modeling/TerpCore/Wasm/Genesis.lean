/-
  Export and import of the module's state.

  Contracts are not part of the model, so there are none in a genesis.
-/
import TerpCore.Lib.GoMap
import TerpCore.Wasm.Pin

namespace Wasm

open Lib Outcome

variable {ν β : Type} (k : Keeper ν β)

/-- A code in a genesis. -/
structure Code where
  codeID : UInt64
  codeInfo : CodeInfo
  codeBytes : Bytes
  pinned : Bool
  deriving DecidableEq

/-- A parameter set in a genesis. -/
structure VkParam where
  paramID : UInt64
  paramKey : Bytes
  creator : Bytes
  paramBytes : Bytes
  deriving DecidableEq

/-- A circuit in a genesis. -/
structure Circuit where
  zkID : UInt64
  zkInfo : CircuitInfo
  zkBytes : Bytes
  pinned : Bool
  deriving DecidableEq

/-- A sequence in a genesis. -/
structure Sequence where
  idKey : Bytes
  value : UInt64
  deriving DecidableEq

/-- The genesis of the module. -/
structure GenesisState where
  params : Params
  codes : List Code
  vkParams : List VkParam
  circuits : List Circuit
  sequences : List Sequence
  deriving DecidableEq

/-! ## The parameters inside a circuit -/

def cosmwasmFooterLength : Nat := 80

/-- The last bytes of a circuit. -/
def footer (zkBinary : Bytes) : Bytes := zkBinary.drop (zkBinary.length - cosmwasmFooterLength)

/-- `binary.LittleEndian.Uint32(footer[4:8])`. -/
def footerParamLen (zkBinary : Bytes) : Nat := ofLE (((footer zkBinary).drop 4).take 4)

/-- The hash of the parameters in the footer. -/
def footerParamChecksum (zkBinary : Bytes) : Bytes := ((footer zkBinary).drop 16).take 32

/-- The parameters at the front of a circuit; their length is in the record or in the footer. -/
def circuitParamBytes (zkBinary : Bytes) (zkInfo : CircuitInfo) : Option Bytes :=
  let paramLen : Int :=
    if zkInfo.vkpLen.toInt64 = 0 ∧ cosmwasmFooterLength ≤ zkBinary.length then footerParamLen zkBinary
    else zkInfo.vkpLen.toInt64.toInt
  if paramLen ≤ 0 ∨ zkBinary.length ≤ paramLen then none else some (zkBinary.take paramLen.toNat)

/-- The parameters of a circuit hash to what its footer says. -/
def Keeper.validateCircuitParamAlignment (zkBinary : Bytes) (zkInfo : CircuitInfo) : Outcome Err Unit :=
  match circuitParamBytes zkBinary zkInfo with
  | none => .ok ()
  | some paramBytes => do
    let sum := k.sha256 paramBytes
    let hasFooter : Bool := cosmwasmFooterLength ≤ zkBinary.length
    require (!hasFooter || sum == footerParamChecksum zkBinary)
      (.errorf "param SHA256 %x != footer.param_checksum %x (blob will fail check_circuit)")
    require (!hasFooter || footerParamLen zkBinary == paramBytes.length)
      (.errorf "param slice length %d != footer.param_len %d")
    require (zkInfo.circuitHash.length < 36 || sum == (zkInfo.circuitHash.drop 4).take 32)
      (.errorf "param SHA256 %x != circuit_key param_checksum %x")

/-- The key of the parameters begins the key of the circuit. -/
def assertParamKeyMatchesCircuit (paramKey circuitHash : Bytes) : Outcome Err Unit := do
  require (paramKey.length == 36) (.errorf "param_key length %d, want 36")
  require (circuitHash.length < 36 || paramKey == circuitHash.take 36)
    (.errorf ("StoreParam key %x does not match circuit_key[:36] %x " ++
      "— params will not load for this circuit"))

/-! ## Cross references -/

/-- The loop over the parameters: the key of each ends with the hash of its bytes, and is new. -/
def Keeper.checkVkParam (_ : Nat) (byKey : GoMap Bytes VkParam) (p : VkParam) : Outcome Err (GoMap Bytes VkParam) := do
  require (p.paramKey.length == 36)
    (.errorf "genesis vk_param id %d: param_key length %d, want 36")
  require (p.paramBytes != []) (.errorf "genesis vk_param id %d: empty param_bytes")
  require (k.sha256 p.paramBytes == (p.paramKey.drop 4).take 32)
    (.errorf "genesis vk_param id %d: param_key checksum %x != SHA256(param_bytes) %x")
  require (byKey.lookup p.paramKey).isNone
    (.errorf "genesis vk_param id %d: duplicate param_key %x (also param_id %d)")
  return byKey.insert p.paramKey p

/-- The loop over the circuits: the parameters of each are declared. -/
def Keeper.checkCircuit (byKey : GoMap Bytes VkParam) (c : Circuit) : Outcome Err Unit := do
  wrapErr s!"genesis circuit zk_id {c.zkID}" (k.validateCircuitParamAlignment c.zkBytes c.zkInfo)
  if c.zkInfo.circuitHash.length < 36 then return ()
  match byKey.lookup (c.zkInfo.circuitHash.take 36) with
  | none =>
    .error (.errorf ("genesis circuit zk_id %d: circuit_key[:36]=%x has no matching vk_params entry " ++
      "— every circuit param half must be declared in genesis vk_params"))
  | some vp =>
    match circuitParamBytes c.zkBytes c.zkInfo with
    | none => return ()
    | some paramBytes =>
      require (paramBytes == vp.paramBytes)
        (.errorf ("genesis circuit zk_id %d: embedded params (%d bytes) != vk_param id %d bytes (%d) " ++
          "for param_key %x"))

/-- The parameter sets and then the circuits are checked. -/
def Keeper.validateGenesisParamCircuitCrossRefs (data : GenesisState) : Outcome Err Unit := do
  let byKey ← forEach k.checkVkParam 0 ∅ data.vkParams
  forEach (fun _ _ c => k.checkCircuit byKey c) 0 () data.circuits

/-! ## Import -/

def maxInt64 : Nat := 2 ^ 63 - 1

/-- `importCode`: an id that is taken is an error. -/
def Keeper.importCode (s : State ν β) (codeID : UInt64) (codeInfo : CodeInfo) (wasmCode : Bytes) :
    Outcome Err (State ν β) := do
  let wasmCode ← k.uncompressIfGzip wasmCode maxInt64 "uncompress wasm archive"
  let (newCodeHash, vm) ← createFailedOr (k.engine.storeCodeUnchecked s.vm wasmCode)
  require (codeInfo.codeHash == newCodeHash) (.wrap "code hashes not same" .invalid)
  require (!s.store.has (getCodeKey codeID)) (.wrap s!"duplicate code: {codeID}" .duplicate)
  return { s with store := mustStoreCodeInfo s.store codeID codeInfo, vm := vm }

def Keeper.importVkParam (s : State ν β) (paramID : UInt64) (info : VkParamInfo) (paramBytes : Bytes) :
    Outcome Err (State ν β) := do
  require (paramBytes != []) (.wrap "empty param bytes" .invalid)
  let (paramKey, vm) ← createFailedOr (k.engine.storeParam s.vm paramBytes)
  require (paramKey.length == 36)
    (.wrap s!"StoreParam returned {paramKey.length}-byte key, want 36" .invalid)
  require (info.dataHash == [] || paramKey == info.dataHash)
    (.wrap s!"param_id {paramID}: StoreParam key %x does not match genesis param_key %x" .invalid)
  let store := mustStoreVkParamInfo s.store paramID { info with vkID := paramID, dataHash := paramKey }
  return { s with store := store.set (getVkParamBytesKey paramID) (.raw paramBytes), vm := vm }

/-- Hands the parameters of a circuit to the engine before the circuit. -/
def Keeper.warmParam (vm : ν) (zkID : UInt64) (zkInfo : CircuitInfo) (zkBinary : Bytes) : Outcome Err ν :=
  match circuitParamBytes zkBinary zkInfo with
  | none => .ok vm
  | some paramBytes => do
    let (paramKey, vm) ← createFailedOr (k.engine.storeParam vm paramBytes)
    wrapErr s!"circuit zk_id {zkID} after StoreParam"
      (assertParamKeyMatchesCircuit paramKey zkInfo.circuitHash)
    return vm

def Keeper.importCircuit (s : State ν β) (zkID : UInt64) (zkInfo : CircuitInfo) (zkBinary : Bytes) :
    Outcome Err (State ν β) := do
  let zkBinary ← k.uncompressIfGzip zkBinary maxInt64 "uncompress wasm archive"
  wrapErr s!"circuit zk_id {zkID} param alignment" (k.validateCircuitParamAlignment zkBinary zkInfo)
  let vm ← k.warmParam s.vm zkID zkInfo zkBinary
  let (newCircuitHash, vm) ← createFailedOr (k.engine.storeCircuitUnchecked vm zkBinary)
  require (zkInfo.circuitHash == newCircuitHash) (.wrap "circuit hash not same" .invalid)
  require (!s.store.has (getCircuitKey zkID)) (.wrap s!"duplicate circuit: {zkID}" .duplicate)
  let store := mustStoreCircuitInfo s.store zkID zkInfo
  return { s with store := mustStoreCircuitBytes store zkID zkBinary, vm := vm }

/-- `importAutoIncrementID`: a sequence that is set is an error. -/
def importAutoIncrementID (s : Store) (seq : Sequence) : Outcome Err Store := do
  require (!s.has seq.idKey) (.wrap "autoincrement id: %s" .duplicate)
  return s.set seq.idKey (.raw (be64 seq.value))

/-- `PermissionedKeeper.PinCircuit` pins a code. -/
def Keeper.permissionedPinCircuit (s : State ν β) (codeID : UInt64) : Outcome Err (State ν β) :=
  k.pinCode s codeID

/-- The body of the loop over the codes. -/
def Keeper.importCodeEntry (i : Nat) (s : State ν β) (c : Code) : Outcome Err (State ν β) := do
  let s ← wrapErr s!"code {i} with id: {c.codeID}" (k.importCode s c.codeID c.codeInfo c.codeBytes)
  if c.pinned then wrapErr s!"contract number {i}" (k.pinCode s c.codeID) else return s

/-- The body of the loop over the parameter sets. -/
def Keeper.importVkParamEntry (i : Nat) (s : State ν β) (p : VkParam) : Outcome Err (State ν β) :=
  wrapErr s!"vk_param {i} id {p.paramID}"
    (k.importVkParam s p.paramID ⟨p.paramID, p.creator, p.paramKey⟩ p.paramBytes)

/-- The body of the loop over the circuits. -/
def Keeper.importCircuitEntry (i : Nat) (s : State ν β) (c : Circuit) : Outcome Err (State ν β) := do
  let s ← wrapErr s!"circuit {i} with idzk-: {c.zkID}" (k.importCircuit s c.zkID c.zkInfo c.zkBytes)
  if c.pinned then wrapErr s!"contract number {i}" (k.permissionedPinCircuit s c.zkID) else return s

/-- The body of the loop over the sequences. -/
def importSequenceEntry (i : Nat) (s : Store) (seq : Sequence) : Outcome Err Store :=
  wrapErr s!"sequence number {i}" (importAutoIncrementID s seq)

/-- The checks of `InitGenesis` at the end, on what the import has written. -/
def Keeper.checkSequences (s : Store) (maxCodeID maxCircuitID : UInt64) : Outcome Err Unit := do
  let seqVal ← peekAutoIncrementID s keySequenceCodeID
  require (maxCodeID < seqVal)
    (.wrap s!"seq %s with value: {seqVal} must be greater than: {maxCodeID} " .invalid)
  let circuitSeqVal ← peekAutoIncrementID s keySequenceCircuitID
  require (maxCircuitID < circuitSeqVal)
    (.wrap s!"circuitSeqVal %s with value: {seqVal} must be greater than: {maxCodeID} " .invalid)
  let seqVal ← peekAutoIncrementID s keySequenceInstanceID
  require (!s.has (getContractAddressKey (k.classicAddress seqVal)))
    (.wrap s!"value: {seqVal} for seq %s was used already" .invalid)

def maxID (ids : List UInt64) : UInt64 := ids.foldl (fun m id => if m < id then id else m) 0

def Keeper.initGenesis (s : State ν β) (data : GenesisState) : Outcome Err (State ν β) := do
  let s := { s with store := setParams s.store data.params }
  match k.validateGenesisParamCircuitCrossRefs data with
  | .ok () => do
    let s ← forEach k.importCodeEntry 0 s data.codes
    let s ← forEach k.importVkParamEntry 0 s data.vkParams
    let s ← forEach k.importCircuitEntry 0 s data.circuits
    let store ← forEach importSequenceEntry 0 s.store data.sequences
    k.checkSequences store (maxID (data.codes.map Code.codeID)) (maxID (data.circuits.map Circuit.zkID))
    return { s with store := store }
  | .error e => .error (.wrap e.message .invalid)
  | .panicked => .panicked

/-! ## Export -/

/-- `GetByteCode`; the export panics on its errors. -/
def Keeper.getByteCode (s : State ν β) (codeID : UInt64) : Outcome Err Bytes :=
  match getCodeInfo s.store codeID with
  | none => .ok []
  | some info =>
    match k.engine.getCode s.vm info.codeHash with
    | some code => .ok code
    | none => .error .outside

/-- `GetCircuit`: a circuit without bytes in the store is read from the engine and written back. -/
def Keeper.getCircuit (s : State ν β) (zkID : UInt64) : Outcome Err (Bytes × State ν β) :=
  match s.store.get (getCircuitBytesKey zkID) with
  | some (.raw blob) => .ok (blob, s)
  | _ =>
    match getCircuitInfo s.store zkID with
    | none => .ok ([], s)
    | some info =>
      match k.engine.getCircuit s.vm info.circuitHash with
      | some blob => .ok (blob, { s with store := mustStoreCircuitBytes s.store zkID blob })
      | none => .error .outside

/-- `if err != nil { panic(err) }`. -/
def orPanic {α : Type} : Outcome Err α → Outcome Err α
  | .ok a => .ok a
  | _ => .panicked

/-- The loop of `ExportGenesis` over the codes. -/
def Keeper.exportCodes (k : Keeper ν β) (s : State ν β) : List (UInt64 × CodeInfo) → Outcome Err (List Code)
  | [] => .ok []
  | (codeID, info) :: codes => do
    let bytecode ← orPanic (k.getByteCode s codeID)
    let rest ← k.exportCodes s codes
    return ⟨codeID, info, bytecode, isPinnedCode s.store codeID⟩ :: rest

/-- The loop over the parameter sets. -/
def exportVkParams (s : Store) : List (UInt64 × VkParamInfo) → Outcome Err (List VkParam)
  | [] => .ok []
  | (paramID, info) :: params => do
    let blob ← orPanic (getVkParamBytes s paramID)
    let rest ← exportVkParams s params
    return ⟨paramID, info.dataHash, info.creator, blob⟩ :: rest

/-- What the loop over the circuits works on. -/
structure Exported (ν β : Type) where
  state : State ν β
  circuits : List Circuit
  vkParams : List VkParam
  exportedParamKeys : List Bytes
  nextSyntheticParamID : UInt64

/-- The parameters of a circuit are added if no exported ones have their key. -/
def addSyntheticParam (info : CircuitInfo) (blob : Bytes) (e : Exported ν β) : Exported ν β :=
  let paramHalf := info.circuitHash.take 36
  if info.circuitHash.length < 36 ∨ e.exportedParamKeys.contains paramHalf then e
  else
    match circuitParamBytes blob info with
    | none => e
    | some paramBytes =>
      { e with
        vkParams := e.vkParams ++ [⟨e.nextSyntheticParamID + 1, paramHalf, info.creator, paramBytes⟩]
        exportedParamKeys := paramHalf :: e.exportedParamKeys
        nextSyntheticParamID := e.nextSyntheticParamID + 1 }

/-- The body of the loop over the circuits. -/
def Keeper.exportCircuit (_ : Nat) (e : Exported ν β) (c : UInt64 × CircuitInfo) : Outcome Err (Exported ν β) := do
  let (blob, s) ← orPanic (k.getCircuit e.state c.1)
  return addSyntheticParam c.2 blob
    { e with state := s, circuits := e.circuits ++ [⟨c.1, c.2, blob, isPinnedCircuit s.store c.1⟩] }

/-- A sequence is exported if it is in the store. -/
def exportSequences (s : Store) : List Bytes → Outcome Err (List Sequence)
  | [] => .ok []
  | key :: keys => do
    if s.has key then
      let id ← orPanic (peekAutoIncrementID s key)
      let rest ← exportSequences s keys
      return ⟨key, id⟩ :: rest
    else exportSequences s keys

def Keeper.exportGenesis (s : State ν β) : Outcome Err GenesisState := do
  let params ← getParams s.store
  let codes ← k.exportCodes s (codeInfos s.store)
  let vkParams ← exportVkParams s.store (vkParamInfos s.store)
  let e ← forEach k.exportCircuit 0
    { state := s
      circuits := []
      vkParams := vkParams
      exportedParamKeys := (vkParams.map VkParam.paramKey).filter fun key => key.length = 36
      nextSyntheticParamID := maxID (vkParams.map VkParam.paramID) }
    (circuitInfos s.store)
  let sequences ← exportSequences e.state.store
    [keySequenceCodeID, keySequenceInstanceID, keySequenceCircuitID, keySequenceVkParamID]
  return ⟨params, codes, e.vkParams, e.circuits, sequences⟩

end Wasm
