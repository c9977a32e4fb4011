/-
  The keeper of the wasm module: what it is built from, and its access to the store.

  The engine is a state `ν` of its own that a failed message does not roll back; the bank works on the state `β` of
  the other modules.  Gas is not metered: a message that runs out of gas fails like any other.
-/
import TerpCore.Wasm.Keys
import TerpCore.Wasm.Types

namespace Wasm

open Lib

/-! ## The keeper -/

/-- The calls of `types.WasmEngine` that the module makes; `none` is an error. -/
structure WasmEngine (ν : Type) where
  storeCode : ν → Bytes → Option (Bytes × ν)
  storeCodeUnchecked : ν → Bytes → Option (Bytes × ν)
  analyzeCode : ν → Bytes → Bool
  getCode : ν → Bytes → Option Bytes
  storeParam : ν → Bytes → Option (Bytes × ν)
  storeCircuit : ν → Bytes → Option (Bytes × ν)
  storeCircuitUnchecked : ν → Bytes → Option (Bytes × ν)
  getCircuit : ν → Bytes → Option Bytes
  syncPinnedCodes : ν → List Bytes → Option ν
  syncPinnedCircuits : ν → List Bytes → Option ν
  /-- errors of the next two are logged and dropped -/
  unpinCircuit : ν → Bytes → ν
  removeCircuit : ν → Bytes → ν

/-- The keeper: the engine, the codecs and the bank. -/
structure Keeper (ν β : Type) where
  engine : WasmEngine ν
  /-- `AccAddress.String` -/
  bech32 : AccAddress → Bytes
  accAddressFromBech32 : Bytes → Option AccAddress
  /-- `sdk.ValidateAuthority` -/
  isAuthority : Bytes → Bool
  sha256 : Bytes → Bytes
  /-- `ioutils.Uncompress`, and the sizes it is called with -/
  uncompress : Bytes → (maxSize : Nat) → Option Bytes
  maxWasmSize : Nat
  maxCircuitSize : Nat
  circuitDepositYearly : Coin
  sendCoins : β → (sender recipient : AccAddress) → List Coin → Option β
  sendCoinsFromAccountToModule : β → (sender : AccAddress) → (module : Bytes) → List Coin → Option β
  /-- `ClassicAddressGenerator` -/
  classicAddress : UInt64 → Bytes

/-- The store, the engine and the other modules. -/
structure State (ν β : Type) where
  store : Store
  vm : ν
  app : β

/-! ## Store access

  A row of the wrong kind does not occur under a key of its own. -/

/-- It panics if there are no parameters. -/
def getParams (s : Store) : Outcome Err Params :=
  match s.get paramsKey with
  | some (.params p) => .ok p
  | _ => .panicked

def setParams (s : Store) (p : Params) : Store := s.set paramsKey (.params p)

def getCodeInfo (s : Store) (codeID : UInt64) : Option CodeInfo :=
  match s.get (getCodeKey codeID) with
  | some (.codeInfo c) => some c
  | _ => none

def mustStoreCodeInfo (s : Store) (codeID : UInt64) (c : CodeInfo) : Store :=
  s.set (getCodeKey codeID) (.codeInfo c)

def getCircuitInfo (s : Store) (zkID : UInt64) : Option CircuitInfo :=
  match s.get (getCircuitKey zkID) with
  | some (.circuitInfo c) => some c
  | _ => none

def mustStoreCircuitInfo (s : Store) (zkID : UInt64) (c : CircuitInfo) : Store :=
  s.set (getCircuitKey zkID) (.circuitInfo c)

def getVkParamInfo (s : Store) (vkParamID : UInt64) : Option VkParamInfo :=
  match s.get (getVkParamId vkParamID) with
  | some (.vkParamInfo p) => some p
  | _ => none

def mustStoreVkParamInfo (s : Store) (paramID : UInt64) (p : VkParamInfo) : Store :=
  s.set (getVkParamId paramID) (.vkParamInfo p)

def getVkParamBytes (s : Store) (vkParamID : UInt64) : Outcome Err Bytes :=
  match s.get (getVkParamBytesKey vkParamID) with
  | some (.raw b) => .ok b
  | _ => .error (.wrap s!"vk param bytes {vkParamID}" .notFound)

/-- The parameter set of a circuit. -/
def mustStoreCircuitParamRef (s : Store) (zkID paramID : UInt64) : Store :=
  s.set (getCircuitParamRefKey zkID) (.raw (be64 paramID))

/-- The parameters a circuit was stored with, if recorded. -/
def getCircuitParamID (s : Store) (zkID : UInt64) : Option UInt64 :=
  match s.get (getCircuitParamRefKey zkID) with
  | some (.raw bz) => if bz.length = 8 then bigEndianToUint64 bz else none
  | _ => none

def mustStoreCircuitBytes (s : Store) (zkID : UInt64) (blob : Bytes) : Store :=
  s.set (getCircuitBytesKey zkID) (.raw blob)

/-- An entry of the index by creator. -/
def setCircuitCreatorIndex (s : Store) (creator : AccAddress) (zkID : UInt64) : Store :=
  s.set (getCircuitByCreatorIDKey creator zkID) (.raw [1])

def deleteCircuitCreatorIndex (s : Store) (creator : AccAddress) (zkID : UInt64) : Store :=
  s.delete (getCircuitByCreatorIDKey creator zkID)

/-- The creator has a circuit. -/
def hasCircuitCreatorIndex (s : Store) (creator : AccAddress) : Bool :=
  !(s.iterator (getCircuitByCreatorIDPrefix creator)).isEmpty

/-- The next id of a sequence; sequences start at one. -/
def peekAutoIncrementID (s : Store) (sequenceKey : Bytes) : Outcome Err UInt64 :=
  match s.get sequenceKey with
  | none => .ok 1
  | some (.raw bz) => .ofOption (getBE64 bz)
  | some _ => .panicked

/-- `mustAutoIncrementID`: the next id, and the store with the sequence moved on. -/
def autoIncrementID (s : Store) (sequenceKey : Bytes) : Outcome Err (UInt64 × Store) := do
  let id ← peekAutoIncrementID s sequenceKey
  return (id, s.set sequenceKey (.raw (be64 (id + 1))))

/-- The records under a prefix with their ids, in order. -/
def infos {α : Type} (decode : Value → Option α) (s : Store) (p : Bytes) : List (UInt64 × α) :=
  (s.iterator p).filterMap fun e => do
    let info ← decode e.2
    let id ← getBE64 e.1
    return (id, info)

/-- `IterateCodeInfos`. -/
def codeInfos (s : Store) : List (UInt64 × CodeInfo) := infos Value.codeInfo? s codeKeyPrefix

/-- `IterateCircuitInfos`. -/
def circuitInfos (s : Store) : List (UInt64 × CircuitInfo) := infos Value.circuitInfo? s circuitKeyPrefix

/-- `IterateVkParamInfos`. -/
def vkParamInfos (s : Store) : List (UInt64 × VkParamInfo) := infos Value.vkParamInfo? s vkParamKeyPrefix

/-! ## Gzip -/

/-- `IsGzip`: the magic bytes. -/
def isGzip (input : Bytes) : Bool := input.take 3 == [0x1f, 0x8b, 0x08]

variable {ν β : Type} (k : Keeper ν β)

/-- Uncompresses what starts with the magic bytes of gzip. -/
def Keeper.uncompressIfGzip (input : Bytes) (maxSize : Nat) (what : String) : Outcome Err Bytes :=
  if isGzip input then
    match k.uncompress input maxSize with
    | some b => .ok b
    | none => .error (.wrap (what ++ ": %s") .createFailed)
  else .ok input

/-- An engine call that returns a checksum. -/
def createFailedOr {α : Type} : Option α → Outcome Err α
  | some a => .ok a
  | none => .error .createFailed

/-! ## Keepers that run

  Concrete executions need concrete outside functions.  Tables list the values the engine and the hash
  take on the inputs at hand; the engine rejects other inputs.  Three addresses have their real strings. -/

/-- The files of an engine. -/
structure Files where
  codes : List (Bytes × Bytes) := []
  circuits : List (Bytes × Bytes) := []

structure Tables where
  codes : List (Bytes × Bytes) := []
  params : List (Bytes × Bytes) := []
  circuits : List (Bytes × Bytes) := []
  hashes : List (Bytes × Bytes) := []

namespace Tables

variable (t : Tables)

def storeCode (f : Files) (code : Bytes) : Option (Bytes × Files) :=
  (t.codes.lookup code).map fun checksum => (checksum, { f with codes := (checksum, code) :: f.codes })

def storeCircuit (f : Files) (blob : Bytes) : Option (Bytes × Files) :=
  (t.circuits.lookup blob).map fun key => (key, { f with circuits := (key, blob) :: f.circuits })

def engine : WasmEngine Files where
  storeCode := t.storeCode
  storeCodeUnchecked := t.storeCode
  analyzeCode _ _ := true
  getCode f checksum := f.codes.lookup checksum
  storeParam f params := (t.params.lookup params).map fun key => (key, f)
  storeCircuit := t.storeCircuit
  storeCircuitUnchecked := t.storeCircuit
  getCircuit f key := f.circuits.lookup key
  syncPinnedCodes f _ := some f
  syncPinnedCircuits f _ := some f
  unpinCircuit f _ := f
  removeCircuit f key := { f with circuits := f.circuits.filter fun e => e.1 != key }

def account (b : UInt8) : AccAddress := ⟨List.replicate 20 b, by simp, by simp⟩

def string (addr : AccAddress) : Bytes :=
  if addr = account 1 then ascii "terp1qyqszqgpqyqszqgpqyqszqgpqyqszqgp4egj80"
  else if addr = account 2 then ascii "terp1qgpqyqszqgpqyqszqgpqyqszqgpqyqszyawhve"
  else if addr = account 3 then ascii "terp1qvpsxqcrqvpsxqcrqvpsxqcrqvpsxqcr9d0kxc"
  else 0 :: addr.bytes

def address (b : Bytes) : Option AccAddress :=
  if b = string (account 1) then some (account 1)
  else if b = string (account 2) then some (account 2)
  else if b = string (account 3) then some (account 3)
  else AccAddress.ofVerified b.tail

def keeper : Keeper Files Unit where
  engine := t.engine
  bech32 := string
  accAddressFromBech32 := address
  isAuthority authority := authority == string (account 3)
  sha256 b := (t.hashes.lookup b).getD (List.replicate 32 0)
  uncompress _ _ := none
  maxWasmSize := 1638400
  maxCircuitSize := 33554432
  circuitDepositYearly := ⟨ascii "uterp", 1000000⟩
  sendCoins app _ _ _ := some app
  sendCoinsFromAccountToModule app _ _ _ := some app
  classicAddress _ := []

/-- A circuit: one byte of parameters, one of verifying key, and the footer with the length and the hash of the
parameters. -/
def sampleParams : Bytes := [0x70]

def sampleHash : Bytes :=
  [0x14, 0x8d, 0xe9, 0xc5, 0xa7, 0xa4, 0x4d, 0x19, 0xe5, 0x6c, 0xd9, 0xae, 0x1a, 0x55, 0x4b, 0xf6,
   0x78, 0x47, 0xaf, 0xb0, 0xc5, 0x8f, 0x6e, 0x12, 0xfa, 0x29, 0xac, 0x7d, 0xdf, 0xca, 0x99, 0x40]

def sampleParamKey : Bytes := [1, 0, 0, 0] ++ sampleHash

def sampleBody : Bytes :=
  [0x76] ++ [0, 0, 0, 0, 1, 0, 0, 0] ++ List.replicate 8 0 ++ sampleHash ++ List.replicate 32 0

def sampleCircuitKey : Bytes := sampleParamKey ++ List.replicate 36 0

def sample : Tables where
  params := [(sampleParams, sampleParamKey)]
  circuits := [(sampleParams ++ sampleBody, sampleCircuitKey)]
  hashes := [(sampleParams, sampleHash)]

end Tables

end Wasm
