/-
  The callbacks of one confirmed root.
-/
import TerpCore.Hashmerchant.Binding
import TerpCore.Hashmerchant.Escrow

namespace Hashmerchant

open Lib KVStore

variable {β : Type} {k : Keeper β}

/-! ## Who is called -/

/-- The account called for a registration: it is enabled for the chain, its escrow is paid, its address decodes. -/
def Keeper.callee (k : Keeper β) (blockHeight : UInt64) (chainUID : Bytes) (s : Store) (c : RegisteredContract) :
    Option Bytes :=
  if c.chainUid = chainUID ∧ c.enabled = true then
    match getEscrowRecord s c.contractAddr with
    | .ok escrow => if blockHeight ≤ escrow.paidUntilHeight then k.accAddressFromBech32 c.contractAddr else none
    | _ => none
  else none

theorem callee_eq_some {blockHeight : UInt64} {chainUID : Bytes} {s : Store} {c : RegisteredContract} {addr : Bytes} :
    k.callee blockHeight chainUID s c = some addr ↔ c.chainUid = chainUID ∧ c.enabled = true ∧
        (∃ escrow, getEscrowRecord s c.contractAddr = .ok escrow ∧ blockHeight ≤ escrow.paidUntilHeight) ∧
        k.accAddressFromBech32 c.contractAddr = some addr := by
  unfold Keeper.callee
  split_ifs with hfor
  · cases getEscrowRecord s c.contractAddr <;> simp [hfor]
  · simp only [false_iff]
    rintro ⟨hchain, henabled, -⟩
    exact hfor ⟨hchain, henabled⟩

/-- The registration of a row, with the account that is called. -/
def Keeper.calledRow (k : Keeper β) (blockHeight : UInt64) (chainUID : Bytes) (s : Store) :
    Bytes × Value → Option (Bytes × Bytes)
  | (key, .contract c) => (k.callee blockHeight chainUID s c).map fun addr => (key, addr)
  | _ => none

/-- The calls of one root: the rows of the registry, in order, with the accounts. -/
def Keeper.calls (k : Keeper β) (blockHeight : UInt64) (chainUID : Bytes) (s : Store) : List (Bytes × Bytes) :=
  (s.iterator keyPrefixRegisteredContracts).filterMap (k.calledRow blockHeight chainUID s)

section calls

variable {blockHeight : UInt64} {chainUID : Bytes} {s : Store}

theorem calledRow_eq_some {key addr : Bytes} {e : Bytes × Value} :
    k.calledRow blockHeight chainUID s e = some (key, addr) ↔
      ∃ c, e = (key, .contract c) ∧ k.callee blockHeight chainUID s c = some addr := by
  obtain ⟨key', v⟩ := e
  cases v with
  | contract c =>
    simp only [Keeper.calledRow, Option.map_eq_some_iff, Prod.mk.injEq, Value.contract.injEq]
    constructor
    · rintro ⟨addr', hcallee, rfl, rfl⟩
      exact ⟨c, ⟨rfl, rfl⟩, hcallee⟩
    · rintro ⟨c', ⟨rfl, rfl⟩, hcallee⟩
      exact ⟨addr, hcallee, rfl, rfl⟩
  | _ => simp [Keeper.calledRow]

theorem mem_calls {key addr : Bytes} : (key, addr) ∈ k.calls blockHeight chainUID s ↔
    ∃ c, s.get (keyRegisteredContract key) = some (.contract c) ∧ k.callee blockHeight chainUID s c = some addr := by
  rw [Keeper.calls, List.mem_filterMap]
  constructor
  · rintro ⟨e, he, hrow⟩
    obtain ⟨c, rfl, hcallee⟩ := calledRow_eq_some.mp hrow
    exact ⟨c, mem_iterator.mp he, hcallee⟩
  · rintro ⟨c, hget, hcallee⟩
    exact ⟨(key, .contract c), mem_iterator.mpr hget, calledRow_eq_some.mpr ⟨c, rfl, hcallee⟩⟩

theorem calls_keys_nodup : ((k.calls blockHeight chainUID s).map Prod.fst).Nodup := by
  rw [Keeper.calls, List.map_filterMap]
  refine filterMap_iterator_nodup ?_
  intro key v key' v' row _ _ hrow hrow'
  rw [Option.map_eq_some_iff] at hrow hrow'
  obtain ⟨⟨_, addr⟩, hrow, rfl⟩ := hrow
  obtain ⟨⟨_, addr'⟩, hrow', rfl⟩ := hrow'
  obtain ⟨c, heq, -⟩ := calledRow_eq_some.mp hrow
  obtain ⟨c', heq', -⟩ := calledRow_eq_some.mp hrow'
  exact (congrArg Prod.fst heq).trans (congrArg Prod.fst heq').symm

theorem calls_accounts : (k.calls blockHeight chainUID s).map Prod.snd =
    (registeredContracts s).filterMap (k.callee blockHeight chainUID s) := by
  rw [Keeper.calls, registeredContracts, List.map_filterMap, List.filterMap_filterMap]
  congr 1
  funext e
  obtain ⟨key, v⟩ := e
  cases v with
  | contract c => simp [Keeper.calledRow]
  | _ => rfl

end calls

/-! ## What a call does -/

def gasLimitOf (s : Store) : UInt64 :=
  match getParams s with
  | .ok params => params.sudoGasLimit
  | _ => defaultContractGasLimit

/-- The state after a call: what it wrote if it returned, and nothing otherwise. -/
def Keeper.afterCall (k : Keeper β) (payload : HashMerchantSudoPayload) (limit : UInt64) (s : State β)
    (addr : Bytes) : State β :=
  match k.wasmSudo s addr payload limit with
  | .ok s' => s'
  | _ => s

/-- A callback does not write the module's store, and panics only by running out of gas. -/
structure SudoContained (k : Keeper β) : Prop where
  store : ∀ s contract payload limit s', k.wasmSudo s contract payload limit = .ok s' → s'.store = s.store
  panics : ∀ s contract payload limit, k.wasmSudo s contract payload limit ≠ .panicked

theorem gasLimitOf_ne_zero (s : Store) : gasLimitOf s ≠ 0 := by
  have hdefault : defaultContractGasLimit ≠ 0 := by decide
  unfold gasLimitOf Params.sudoGasLimit
  split
  · split_ifs with hzero
    · exact hdefault
    · exact hzero
  · exact hdefault

variable (hk : SudoContained k)
include hk

theorem afterCall_store (payload : HashMerchantSudoPayload) (limit : UInt64) (s : State β) (addr : Bytes) :
    (k.afterCall payload limit s addr).store = s.store := by
  unfold Keeper.afterCall
  split
  · next s' hcall => exact hk.store _ _ _ _ _ hcall
  · rfl

section

variable {limit : UInt64} (hlimit : limit ≠ 0)

include hlimit

theorem sudoBounded_eq (s : State β) (addr : Bytes) (payload : HashMerchantSudoPayload) :
    k.sudoBounded s addr payload limit = .ok (k.afterCall payload limit s addr) := by
  unfold Keeper.sudoBounded Keeper.afterCall
  rw [if_neg hlimit]
  cases hcall : k.wasmSudo s addr payload limit with
  | panicked => exact absurd hcall (hk.panics _ _ _ _)
  | ok s' | error | outOfGas => rfl

theorem dispatchTo_eq (blockHeight : UInt64) (root : HashRoot) (atts : List OracleAttestation) (s : State β)
    (c : RegisteredContract) : k.dispatchTo blockHeight limit root atts s c =
      .ok ((k.callee blockHeight root.chainUid s.store c).elim (s, []) fun addr =>
        (k.afterCall (k.sudoPayload root atts) limit s addr, [.sudoCall addr (k.sudoPayload root atts)])) := by
  unfold Keeper.dispatchTo Keeper.callee
  by_cases hfor : c.chainUid = root.chainUid ∧ c.enabled = true
  · rw [if_neg (by simp [hfor]), if_pos hfor]
    cases getEscrowRecord s.store c.contractAddr with
    | ok escrow =>
      by_cases hpaid : blockHeight ≤ escrow.paidUntilHeight
      · simp only [if_neg (UInt64.not_lt.mpr hpaid), if_pos hpaid]
        cases k.accAddressFromBech32 c.contractAddr with
        | none => rfl
        | some addr =>
          simp only [sudoBounded_eq hk hlimit]
          rfl
      · simp only [if_pos (UInt64.not_le.mp hpaid), if_neg hpaid]
        rfl
    | error | panicked => rfl
  · rw [if_pos, if_neg hfor]
    · rfl
    · rw [not_and_or] at hfor
      simpa using hfor

/-- The callbacks of a list of registrations: the store stays, so each is judged by the store at the start. -/
theorem dispatchEach_eq (blockHeight : UInt64) (root : HashRoot) (atts : List OracleAttestation)
    (store : Store) : ∀ (cs : List RegisteredContract) (s : State β),
    s.store = store →
    k.dispatchEach blockHeight limit root atts s cs =
      .ok ((cs.filterMap (k.callee blockHeight root.chainUid store)).foldl
          (k.afterCall (k.sudoPayload root atts) limit) s,
        (cs.filterMap (k.callee blockHeight root.chainUid store)).map fun addr =>
          .sudoCall addr (k.sudoPayload root atts))
  | [], s, _ => rfl
  | c :: cs, s, hs => by
    rw [Keeper.dispatchEach, dispatchTo_eq hk hlimit, hs]
    cases hcallee : k.callee blockHeight root.chainUid store c with
    | none =>
      have hrest := dispatchEach_eq blockHeight root atts store cs s hs
      simp [hcallee, hrest]
    | some addr =>
      have hrest := dispatchEach_eq blockHeight root atts store cs
        (k.afterCall (k.sudoPayload root atts) limit s addr) ((afterCall_store hk _ _ _ _).trans hs)
      simp [hcallee, hrest]

end

theorem dispatchSudoCallbacks_eq (blockHeight : UInt64) (s : State β) (root : HashRoot)
    (atts : List OracleAttestation) :
    k.dispatchSudoCallbacks blockHeight s root atts =
      .ok (((k.calls blockHeight root.chainUid s.store).map Prod.snd).foldl
          (k.afterCall (k.sudoPayload root atts) (gasLimitOf s.store)) s,
        (k.calls blockHeight root.chainUid s.store).map fun row => .sudoCall row.2 (k.sudoPayload root atts)) := by
  have heach := dispatchEach_eq hk (gasLimitOf_ne_zero s.store) blockHeight root atts s.store
    (registeredContracts s.store) s rfl
  rw [← calls_accounts, List.map_map] at heach
  exact heach

omit hk

/-- **Callbacks are isolated, and none is left out.**  For every root and state: called are the enabled registrations
for the chain with a paid escrow and an address that decodes, each once, in the order of the registry and with the gas
of the parameters; the state is what the calls that returned wrote, one after the other; and with any other contracts
behind the same registry the calls are the same. -/
theorem sudo_dispatch_isolated (hk : SudoContained k) (blockHeight : UInt64) (s : State β) (root : HashRoot)
    (atts : List OracleAttestation) :
    let called := k.calls blockHeight root.chainUid s.store
    let payload := k.sudoPayload root atts
    (called.map Prod.fst).Nodup ∧
    (∀ key addr, (key, addr) ∈ called ↔ ∃ c escrow,
      s.store.get (keyRegisteredContract key) = some (.contract c) ∧ c.enabled = true ∧
      c.chainUid = root.chainUid ∧ k.accAddressFromBech32 c.contractAddr = some addr ∧
      getEscrowRecord s.store c.contractAddr = .ok escrow ∧ blockHeight ≤ escrow.paidUntilHeight) ∧
    k.dispatchSudoCallbacks blockHeight s root atts =
      .ok ((called.map Prod.snd).foldl (k.afterCall payload (gasLimitOf s.store)) s,
        called.map fun row => .sudoCall row.2 payload) ∧
    ∀ call, SudoContained (k.withContracts call) → ∃ s',
      (k.withContracts call).dispatchSudoCallbacks blockHeight s root atts =
        .ok (s', called.map fun row => .sudoCall row.2 payload) := by
  refine ⟨calls_keys_nodup, fun key addr => ?_, dispatchSudoCallbacks_eq hk blockHeight s root atts,
    fun call hcall => ⟨_, dispatchSudoCallbacks_eq hcall blockHeight s root atts⟩⟩
  rw [mem_calls]
  constructor
  · rintro ⟨c, hget, hcallee⟩
    obtain ⟨hchain, henabled, ⟨escrow, hescrow, hpaid⟩, haddr⟩ := callee_eq_some.mp hcallee
    exact ⟨c, escrow, hget, henabled, hchain, haddr, hescrow, hpaid⟩
  · rintro ⟨c, escrow, hget, henabled, hchain, haddr, hescrow, hpaid⟩
    exact ⟨c, hget, callee_eq_some.mpr ⟨hchain, henabled, ⟨escrow, hescrow, hpaid⟩, haddr⟩⟩

/-! ### Example -/

/-- The contract `b` fails, `d` runs out of gas, and the others count their calls. -/
def countingKeeper : Keeper ℤ :=
  { escrowKeeper with
    accAddressFromBech32 := some
    wasmSudo := fun s contract _ _ =>
      if contract = ascii "b" then .error
      else if contract = ascii "d" then .outOfGas
      else .ok { s with app := s.app + 1 } }

theorem countingKeeper_contained : SudoContained countingKeeper where
  store s contract payload limit s' h := by
    simp only [countingKeeper] at h
    split_ifs at h
    cases h
    rfl
  panics s contract payload limit h := by
    simp only [countingKeeper] at h
    split_ifs at h

/-- A registration for the chain `c`, paid until a height. -/
def countedContract (s : Store) (addr : String) (paidUntil : UInt64) : Store :=
  setEscrowRecord (setRegisteredContract s ⟨ascii addr, ascii "c", [], true⟩)
    ⟨ascii addr, ⟨ascii "uterp", 1⟩, paidUntil, 0⟩

/-- Of five contracts four are paid; two of these fail, and the two others are called all the same. -/
theorem failing_contracts_isolated :
    let store := [("a", 9), ("b", 9), ("d", 9), ("e", 4), ("f", 5)].foldl
      (fun s e => countedContract s e.1 e.2) empty
    let root : HashRoot := ⟨ascii "c", ascii "x", 0, [0xab], 1, 0, []⟩
    let payload := countingKeeper.sudoPayload root []
    SudoContained countingKeeper ∧ ∃ s', s'.app = 2 ∧ countingKeeper.dispatchSudoCallbacks 5 ⟨store, 0⟩ root [] =
        .ok (s', [.sudoCall (ascii "a") payload, .sudoCall (ascii "b") payload, .sudoCall (ascii "d") payload,
          .sudoCall (ascii "f") payload]) := by
  intro store root payload
  have hcalls : countingKeeper.calls 5 root.chainUid store =
      [(ascii "a", ascii "a"), (ascii "b", ascii "b"), (ascii "d", ascii "d"), (ascii "f", ascii "f")] := by
    decide +kernel
  obtain ⟨-, -, hdispatch, -⟩ := sudo_dispatch_isolated countingKeeper_contained 5 ⟨store, 0⟩ root []
  simp only [hcalls] at hdispatch
  exact ⟨countingKeeper_contained, _, by decide, hdispatch⟩

end Hashmerchant
