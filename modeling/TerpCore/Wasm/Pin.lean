/-
  Pins: the codes and circuits the engine keeps in memory, and the removal of circuits.
-/
import TerpCore.Wasm.Keeper

namespace Wasm

open Lib

variable {ν β : Type} (k : Keeper ν β)

/-! ## The index -/

def isPinnedCode (s : Store) (codeID : UInt64) : Bool := s.has (getPinnedCodeIndexPrefix codeID)

def isPinnedCircuit (s : Store) (zkID : UInt64) : Bool := s.has (getPinnedCircuitIndexPrefix zkID)

/-- The loop over the keys of the index: the hash of each id but `exclude`, and the error of the first without one. -/
def collectPinned (hash : UInt64 → Option Bytes) (missing : UInt64 → Err) (exclude : Option UInt64) :
    List Bytes → Outcome Err (List Bytes)
  | [] => .ok []
  | key :: keys => do
    let id ← .ofOption (bigEndianToUint64 key)
    if exclude = some id then collectPinned hash missing exclude keys
    else
      match hash id with
      | none => .error (missing id)
      | some h => do
        let rest ← collectPinned hash missing exclude keys
        return h :: rest

/-- The hash under which the engine knows a code. -/
def codeHashOf (s : Store) (codeID : UInt64) : Option Bytes :=
  (getCodeInfo s codeID).map CodeInfo.codeHash

/-- The hash under which the engine knows a circuit. -/
def circuitHashOf (s : Store) (zkID : UInt64) : Option Bytes :=
  (getCircuitInfo s zkID).map CircuitInfo.circuitHash

def noSuchCodeErr (codeID : UInt64) : Err := .wrap s!"code id {codeID}" .noSuchCode

/-- The hashes of the pinned codes, but for one. -/
def collectPinnedChecksums (s : Store) (excludeCodeID : Option UInt64) : Outcome Err (List Bytes) :=
  collectPinned (codeHashOf s) noSuchCodeErr excludeCodeID
    ((s.iterator pinnedCodeIndexPrefix).map Prod.fst)

/-- The hashes of the pinned circuits, but for one. -/
def collectPinnedCircuitKeys (s : Store) (excludeZkID : Option UInt64) : Outcome Err (List Bytes) :=
  collectPinned (circuitHashOf s) (fun zkID => .wrap s!"zk-circuit id {zkID}" .noSuchCircuit)
    excludeZkID ((s.iterator pinnedCircuitsIndexPrefix).map Prod.fst)

/-- An error of the engine. -/
def engineOr (e : Err) : Option ν → Outcome Err ν
  | some vm => .ok vm
  | none => .error e

/-! ## Pinning -/

/-- `pinCode`: the engine is told of all pins. -/
def Keeper.pinCode (s : State ν β) (codeID : UInt64) : Outcome Err (State ν β) := do
  let some codeInfo := getCodeInfo s.store codeID | .error (noSuchCodeErr codeID)
  let checksums ← collectPinnedChecksums s.store none
  let vm ← engineOr .syncPinnedCodesFailed
    (k.engine.syncPinnedCodes s.vm (checksums ++ [codeInfo.codeHash]))
  return { s with store := s.store.set (getPinnedCodeIndexPrefix codeID) (.raw [1]), vm := vm }

def Keeper.pinCircuit (s : State ν β) (zkID : UInt64) : Outcome Err (State ν β) := do
  let some zkInfo := getCircuitInfo s.store zkID | .error (.wrap s!"zk id {zkID}" .noSuchCode)
  let keys ← collectPinnedCircuitKeys s.store none
  let vm ← engineOr .pinCircuitFailed
    (k.engine.syncPinnedCircuits s.vm (keys ++ [zkInfo.circuitHash]))
  return { s with store := s.store.set (getPinnedCircuitIndexPrefix zkID) (.raw [1]), vm := vm }

def Keeper.unpinCode (s : State ν β) (codeID : UInt64) : Outcome Err (State ν β) := do
  let some _ := getCodeInfo s.store codeID | .error (noSuchCodeErr codeID)
  let checksums ← collectPinnedChecksums s.store (some codeID)
  let vm ← engineOr .syncPinnedCodesFailed (k.engine.syncPinnedCodes s.vm checksums)
  return { s with store := s.store.delete (getPinnedCodeIndexPrefix codeID), vm := vm }

def Keeper.unpinCircuit (s : State ν β) (zkID : UInt64) : Outcome Err (State ν β) := do
  let some _ := getCircuitInfo s.store zkID
    | .error (.wrap s!"zk-circuit id {zkID}" .noSuchCode)
  let keys ← collectPinnedCircuitKeys s.store (some zkID)
  let vm ← engineOr .unpinCircuitFailed (k.engine.syncPinnedCircuits s.vm keys)
  return { s with store := s.store.delete (getPinnedCircuitIndexPrefix zkID), vm := vm }

/-- Pins on a restart: the engine is called only if there is something to pin. -/
def Keeper.initializePinnedCodes (s : State ν β) : Outcome Err ν := do
  let checksums ← collectPinnedChecksums s.store none
  if checksums = [] then return s.vm
  engineOr .pinContractFailed (k.engine.syncPinnedCodes s.vm checksums)

/-- `InitalizedPinnedCodesAndCircuits`, at the start of a node. -/
def Keeper.initalizedPinnedCodesAndCircuits (s : State ν β) : Outcome Err ν := do
  let vm ← k.initializePinnedCodes s
  let keys ← collectPinnedCircuitKeys s.store none
  if keys = [] then return vm
  engineOr .pinCircuitFailed (k.engine.syncPinnedCircuits vm keys)

/-! ## Removal -/

/-- The rows `removeCircuit` deletes. -/
def Keeper.deleteCircuitRows (s : Store) (zkID : UInt64) (zkInfo : CircuitInfo) : Store :=
  let s := s.delete (getPinnedCircuitIndexPrefix zkID)
  let s := match k.accAddressFromBech32 zkInfo.creator with
    | some creator => deleteCircuitCreatorIndex s creator zkID
    | none => s
  ((s.delete (getCircuitKey zkID)).delete (getCircuitBytesKey zkID)).delete
    (getCircuitParamRefKey zkID)

/-- `removeCircuit`: the circuit leaves the engine and the store. -/
def Keeper.removeCircuit (s : State ν β) (zkID : UInt64) : Outcome Err (State ν β) := do
  let some zkInfo := getCircuitInfo s.store zkID
    | .error (.wrap s!"zk id {zkID}" .noSuchCircuit)
  let vm := k.engine.removeCircuit (k.engine.unpinCircuit s.vm zkInfo.circuitHash) zkInfo.circuitHash
  return { s with store := k.deleteCircuitRows s.store zkID zkInfo, vm := vm }

end Wasm
