/-
  An engine that holds files: codes, parameters and circuits, each under the name that its bytes have, and the
  names that are pinned.  A name can be pinned only if a file has it.
-/
import TerpCore.Wasm.Stored

namespace Wasm

open Lib

variable {ν β : Type}

/-- What the engine makes of bytes: their names, and whether its checks accept them. -/
structure Content extends Naming where
  checkCode : Bytes → Bool
  /-- whether `AnalyzeCode` finds the exports of the code with the checksum in order -/
  analyzes : Bytes → Bool
  checkCircuit : Bytes → Bool

structure Vm where
  codes : List Bytes := []
  params : List Bytes := []
  circuits : List Bytes := []
  pinnedCodes : List Bytes := []
  pinnedCircuits : List Bytes := []
  deriving DecidableEq

namespace Content

variable (c : Content)

def hasCode (vm : Vm) (checksum : Bytes) : Bool := vm.codes.any fun code => c.codeHash code == some checksum

def hasParam (vm : Vm) (key : Bytes) : Bool := vm.params.any fun params => c.paramKey params == some key

def hasCircuit (vm : Vm) (key : Bytes) : Bool := vm.circuits.any fun blob => c.circuitKey blob == some key

def storeCodeUnchecked (vm : Vm) (code : Bytes) : Option (Bytes × Vm) :=
  (c.codeHash code).map fun checksum => (checksum, { vm with codes := code :: vm.codes })

def storeCircuitUnchecked (vm : Vm) (blob : Bytes) : Option (Bytes × Vm) :=
  (c.circuitKey blob).map fun key => (key, { vm with circuits := blob :: vm.circuits })

def engine : WasmEngine Vm where
  storeCode vm code := if c.checkCode code then c.storeCodeUnchecked vm code else none
  storeCodeUnchecked := c.storeCodeUnchecked
  analyzeCode vm checksum := c.hasCode vm checksum && c.analyzes checksum
  getCode vm checksum := vm.codes.find? fun code => c.codeHash code == some checksum
  storeParam vm params :=
    (c.paramKey params).map fun key => (key, { vm with params := params :: vm.params })
  storeCircuit vm blob := if c.checkCircuit blob then c.storeCircuitUnchecked vm blob else none
  storeCircuitUnchecked := c.storeCircuitUnchecked
  getCircuit vm key := vm.circuits.find? fun blob => c.circuitKey blob == some key
  syncPinnedCodes vm checksums :=
    if checksums.all (c.hasCode vm) then some { vm with pinnedCodes := checksums } else none
  syncPinnedCircuits vm keys :=
    if keys.all (c.hasCircuit vm) then some { vm with pinnedCircuits := keys } else none
  unpinCircuit vm key := { vm with pinnedCircuits := vm.pinnedCircuits.filter fun key' => key' != key }
  removeCircuit vm key := { vm with circuits := vm.circuits.filter fun blob => c.circuitKey blob != some key }

/-! ## Calls -/

variable {c} {vm vm' : Vm} {bytes r key : Bytes} {keys : List Bytes}

theorem storeCodeUnchecked_eq_some (h : c.storeCodeUnchecked vm bytes = some (r, vm')) :
    c.codeHash bytes = some r ∧ vm' = { vm with codes := bytes :: vm.codes } := by
  obtain ⟨checksum, hname, heq⟩ := Option.map_eq_some_iff.mp h
  cases heq
  exact ⟨hname, rfl⟩

theorem storeCode_eq_some (h : c.engine.storeCode vm bytes = some (r, vm')) :
    c.codeHash bytes = some r ∧ vm' = { vm with codes := bytes :: vm.codes } := by
  simp only [engine] at h
  split_ifs at h
  exact storeCodeUnchecked_eq_some h

theorem storeParam_eq_some (h : c.engine.storeParam vm bytes = some (r, vm')) :
    c.paramKey bytes = some r ∧ vm' = { vm with params := bytes :: vm.params } := by
  obtain ⟨key, hname, heq⟩ := Option.map_eq_some_iff.mp h
  cases heq
  exact ⟨hname, rfl⟩

theorem storeCircuit_eq_some (h : c.engine.storeCircuit vm bytes = some (r, vm')) :
    c.circuitKey bytes = some r ∧ vm' = { vm with circuits := bytes :: vm.circuits } := by
  simp only [engine] at h
  split_ifs at h
  obtain ⟨key, hname, heq⟩ := Option.map_eq_some_iff.mp h
  cases heq
  exact ⟨hname, rfl⟩

theorem syncPinnedCodes_eq_some (h : c.engine.syncPinnedCodes vm keys = some vm') :
    vm' = { vm with pinnedCodes := keys } := by
  simp only [engine] at h
  split_ifs at h
  exact (Option.some.inj h).symm

theorem syncPinnedCircuits_eq_some (h : c.engine.syncPinnedCircuits vm keys = some vm') :
    vm' = { vm with pinnedCircuits := keys } := by
  simp only [engine] at h
  split_ifs at h
  exact (Option.some.inj h).symm

theorem hasCode_iff : c.hasCode vm key = true ↔ ∃ code ∈ vm.codes, c.codeHash code = some key := by
  simp [hasCode]

theorem hasParam_iff : c.hasParam vm key = true ↔ ∃ params ∈ vm.params, c.paramKey params = some key := by
  simp [hasParam]

theorem hasCircuit_iff : c.hasCircuit vm key = true ↔ ∃ blob ∈ vm.circuits, c.circuitKey blob = some key := by
  simp [hasCircuit]

theorem getCode_of_hasCode (h : c.hasCode vm key = true) :
    ∃ code, c.engine.getCode vm key = some code ∧ c.codeHash code = some key := by
  obtain ⟨code, hfind⟩ := Option.isSome_iff_exists.mp
    ((List.find?_isSome (p := fun code => c.codeHash code == some key)).mpr (by simpa using hasCode_iff.mp h))
  exact ⟨code, hfind, by simpa using List.find?_some hfind⟩

theorem codes_subset_of_calls (h : Calls c.engine vm vm') : vm.codes ⊆ vm'.codes := by
  induction h with
  | refl => exact List.Subset.refl _
  | storeCode _ hcall ih =>
    rw [(storeCode_eq_some hcall).2]
    exact List.subset_cons_of_subset _ ih
  | storeParam _ hcall ih =>
    rw [(storeParam_eq_some hcall).2]
    exact ih
  | storeCircuit _ hcall ih =>
    rw [(storeCircuit_eq_some hcall).2]
    exact ih
  | syncPinnedCodes _ hcall ih =>
    rw [syncPinnedCodes_eq_some hcall]
    exact ih
  | syncPinnedCircuits _ hcall ih =>
    rw [syncPinnedCircuits_eq_some hcall]
    exact ih
  | unpinCircuit _ _ ih | removeCircuit _ _ ih => exact ih

end Content

/-! ## A node that runs -/

namespace Tables

def content (t : Tables) : Content where
  toNaming := t.naming
  checkCode _ := true
  analyzes _ := true
  checkCircuit _ := true

def gzip (code : Bytes) : Option Bytes := some ([0x1f, 0x8b, 0x08] ++ code)

def gunzip (archive : Bytes) (_ : Nat) : Option Bytes := some (archive.drop 3)

/-- The sample keeper with an engine that holds files. -/
def nodeKeeper (t : Tables) : Keeper Vm Unit where
  engine := t.content.engine
  bech32 := string
  accAddressFromBech32 := address
  isAuthority authority := authority == string (account 3)
  sha256 b := (t.hashes.lookup b).getD (List.replicate 32 0)
  uncompress := gunzip
  maxWasmSize := 1638400
  maxCircuitSize := 33554432
  circuitDepositYearly := ⟨ascii "uterp", 1000000⟩
  sendCoins app _ _ _ := some app
  sendCoinsFromAccountToModule app _ _ _ := some app
  classicAddress _ := []

def sampleCode : Bytes := [0, 0x61, 0x73, 0x6d]

def sampleNode : Tables := { sample with codes := [(sampleCode, [0xc0, 0xde])] }

end Tables

end Wasm
