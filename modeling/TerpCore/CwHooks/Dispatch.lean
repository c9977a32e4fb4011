/-
  Telling the registered contracts.
-/
import TerpCore.CwHooks.Keeper
import TerpCore.Lib.Proc

namespace CwHooks

open Lib Proc

/-! ## The calls -/

/-- The stores of the chain: the module's, and the others. -/
structure Stores (ω : Type) where
  hooks : Store
  others : ω

/-- What is left of a call: how it ended, the stores it wrote to, and the gas on its meter. -/
structure Answer (ω : Type) where
  exit : Exit Err Bytes
  stores : Stores ω
  consumed : UInt64

/-- The contracts, and the gas that is charged for reading the store. -/
structure Host (ω : Type) where
  /-- `ContractOpsKeeper.Sudo`, by the limit of the meter, the address and the message -/
  wasmSudo : UInt64 → Bytes → Bytes → Stores ω → Answer ω
  getGas : Store → Bytes → UInt64
  iteratorGas : Store → Bytes → UInt64

/-- The part of the SDK context that the hooks work on. -/
structure Context (ω : Type) where
  stores : Stores ω
  gasMeter : GasMeter
  /-- the contracts called so far, with the message -/
  calls : List (Bytes × Bytes)

/-- Gas is taken from the meter of the context. -/
def consumeGas {ω : Type} (amount : UInt64) : Proc (Context ω) Err Unit :=
  .zoom Context.gasMeter (fun ctx gasMeter => { ctx with gasMeter }) (GasMeter.consumeGas amount)

/-- What a contract wrote is kept if it returned.  A panic that is not for want of gas goes on. -/
def Answer.settle {ω : Type} (answer : Answer ω) : Proc (Context ω) Err Unit :=
  match answer.exit with
  | .ok _ => .modify fun ctx => { ctx with stores := answer.stores }
  | .error _ | .outOfGas => pure ()
  | .panicked => .ofOutcome .panicked

namespace Host

variable {ω : Type} (h : Host ω)

/-- One call with a limit on its gas, which is billed afterwards. -/
def sudoContract (addr msgBz : Bytes) (limit : UInt64) : Proc (Context ω) Err Unit := do
  let ctx ← get
  let answer := h.wasmSudo limit addr msgBz ctx.stores
  .modify fun ctx => { ctx with calls := ctx.calls ++ [(addr, msgBz)] }
  answer.settle
  consumeGas (min answer.consumed limit)

/-- The limit and the contracts are read before the first call. -/
def executeMessageOnContracts (keyPrefix msgBz : Bytes) : Proc (Context ω) Err Unit := do
  let ctx ← get
  consumeGas (h.getGas ctx.stores.hooks paramsKey)
  consumeGas (h.iteratorGas ctx.stores.hooks keyPrefix)
  let _ ← forEach
    (fun _ addr => h.sudoContract addr msgBz (getParams ctx.stores.hooks).contractGasLimit) 0
    (getAllContracts ctx.stores.hooks keyPrefix)
  return ()

end Host

/-! ## The registered contracts -/

theorem mem_getAllContracts {s : Store} {keyPrefix addr : Bytes} :
    addr ∈ getAllContracts s keyPrefix ↔ s.has (keyPrefix ++ addr) = true := by
  simp [getAllContracts, KVStore.has, Option.isSome_iff_exists]

theorem getAllContracts_ascending (s : Store) (keyPrefix : Bytes) :
    (getAllContracts s keyPrefix).Pairwise fun a b => compare a b = .lt :=
  List.pairwise_map.mpr (s.iterator_sorted keyPrefix)

/-! ## What the calls leave -/

namespace Host

variable {ω : Type} (h : Host ω) (limit : UInt64) (msgBz : Bytes)

/-- The stores after a call: what a contract that returned wrote. -/
def told (stores : Stores ω) (addr : Bytes) : Stores ω :=
  if (h.wasmSudo limit addr msgBz stores).exit.isOk then (h.wasmSudo limit addr msgBz stores).stores else stores

/-- The gas that each call used, in the stores that those before it left. -/
def gasUsed : Stores ω → List Bytes → List ℕ
  | _, [] => []
  | stores, addr :: addrs =>
    (h.wasmSudo limit addr msgBz stores).consumed.toNat :: gasUsed (h.told limit msgBz stores addr) addrs

/-- What is charged for the calls. -/
def charged (stores : Stores ω) (addrs : List Bytes) : ℕ :=
  ((h.gasUsed limit msgBz stores addrs).map fun used => min used limit.toNat).sum

variable {h limit msgBz}

theorem charged_cons (stores : Stores ω) (addr : Bytes) (addrs : List Bytes) :
    h.charged limit msgBz stores (addr :: addrs) = min (h.wasmSudo limit addr msgBz stores).consumed.toNat limit.toNat +
        h.charged limit msgBz (h.told limit msgBz stores addr) addrs := rfl

end Host

/-- What telling the contracts leaves: it returns; the registered contracts were called, each once and in ascending
order; the stores are what the successful calls wrote, one after the other; and the gas is that of reading and of the
calls up to the limit. -/
structure Dispatched {ω : Type} (h : Host ω) (keyPrefix msgBz : Bytes) (ctx : Context ω)
    (r : Exit Err Unit × Context ω) : Prop where
  returns : r.1 = .ok ()
  called : ∃ addrs : List Bytes, r.2.calls = ctx.calls ++ addrs.map (fun addr => (addr, msgBz)) ∧
    (addrs.Pairwise fun a b => compare a b = .lt) ∧
    (∀ addr, addr ∈ addrs ↔ ctx.stores.hooks.has (keyPrefix ++ addr) = true) ∧
    r.2.stores = addrs.foldl (h.told (getParams ctx.stores.hooks).contractGasLimit msgBz) ctx.stores ∧
    r.2.gasMeter.consumed.toNat = ctx.gasMeter.consumed.toNat + (h.getGas ctx.stores.hooks paramsKey).toNat +
      (h.iteratorGas ctx.stores.hooks keyPrefix).toNat +
      h.charged (getParams ctx.stores.hooks).contractGasLimit msgBz ctx.stores addrs
  limit : r.2.gasMeter.limit = ctx.gasMeter.limit

section calls

variable {ω : Type} {h : Host ω} {limit : UInt64} {msgBz : Bytes}

/-- The context after `amount` of gas. -/
def Context.bill (ctx : Context ω) (amount : UInt64) : Context ω :=
  { ctx with gasMeter := { ctx.gasMeter with consumed := ctx.gasMeter.consumed + amount } }

section room

variable {amount : UInt64} {ctx : Context ω}
  (hroom : ctx.gasMeter.consumed.toNat + amount.toNat ≤ ctx.gasMeter.capacity)
include hroom

theorem consumeGas_of_le : consumeGas amount ctx = (.ok (), ctx.bill amount) := by
  simp only [consumeGas, zoom, GasMeter.consumeGas_of_le hroom, Context.bill]

theorem consumed_bill : (ctx.bill amount).gasMeter.consumed.toNat = ctx.gasMeter.consumed.toNat + amount.toNat :=
  GasMeter.toNat_consumed_add hroom

end room

/-- A call that does not panic: the context it leaves. -/
def Host.afterCall (h : Host ω) (limit : UInt64) (msgBz : Bytes) (ctx : Context ω) (addr : Bytes) : Context ω :=
  { ctx with stores := h.told limit msgBz ctx.stores addr, calls := ctx.calls ++ [(addr, msgBz)] }.bill
    (min (h.wasmSudo limit addr msgBz ctx.stores).consumed limit)

variable {ctx : Context ω} {addr : Bytes}

@[simp] theorem afterCall_calls : (h.afterCall limit msgBz ctx addr).calls = ctx.calls ++ [(addr, msgBz)] := rfl

@[simp] theorem afterCall_stores : (h.afterCall limit msgBz ctx addr).stores = h.told limit msgBz ctx.stores addr := rfl

theorem consumed_afterCall (hroom : ctx.gasMeter.consumed.toNat + limit.toNat ≤ ctx.gasMeter.capacity) :
    (h.afterCall limit msgBz ctx addr).gasMeter.consumed.toNat = ctx.gasMeter.consumed.toNat +
      min (h.wasmSudo limit addr msgBz ctx.stores).consumed.toNat limit.toNat := by
  have hle := Nat.min_le_right (h.wasmSudo limit addr msgBz ctx.stores).consumed.toNat limit.toNat
  rw [Host.afterCall, consumed_bill, GasMeter.toNat_min]
  rw [GasMeter.toNat_min]
  exact le_trans (Nat.add_le_add_left hle _) hroom

theorem settle_eq {answer : Answer ω} (hreturns : answer.exit ≠ .panicked) :
    answer.settle ctx = (.ok (), { ctx with stores := if answer.exit.isOk then answer.stores else ctx.stores }) := by
  unfold Answer.settle
  cases hexit : answer.exit with
  | ok | error | outOfGas => rfl
  | panicked => exact absurd hexit hreturns

theorem sudoContract_eq (hreturns : (h.wasmSudo limit addr msgBz ctx.stores).exit ≠ .panicked)
    (hroom : ctx.gasMeter.consumed.toNat + limit.toNat ≤ ctx.gasMeter.capacity) :
    h.sudoContract addr msgBz limit ctx = (.ok (), h.afterCall limit msgBz ctx addr) := by
  have hcharge : ctx.gasMeter.consumed.toNat + (min (h.wasmSudo limit addr msgBz ctx.stores).consumed limit).toNat ≤
      ctx.gasMeter.capacity := by
    rw [GasMeter.toNat_min]
    omega
  simp only [Host.sudoContract, Proc.bind_apply, Proc.get, settle_eq hreturns]
  exact consumeGas_of_le hcharge

/-- The loop, by induction on the contracts that are left: there is room for each of them. -/
theorem forEach_sudoContract (hreturns : ∀ addr stores, (h.wasmSudo limit addr msgBz stores).exit ≠ .panicked) :
    ∀ (addrs : List Bytes) (i : ℕ) (ctx : Context ω),
      ctx.gasMeter.consumed.toNat + addrs.length * limit.toNat ≤ ctx.gasMeter.capacity →
      ∃ us ctx', forEach (fun _ addr => h.sudoContract addr msgBz limit) i addrs ctx = (.ok us, ctx') ∧
        ctx'.calls = ctx.calls ++ addrs.map (fun addr => (addr, msgBz)) ∧
        ctx'.stores = addrs.foldl (h.told limit msgBz) ctx.stores ∧
        ctx'.gasMeter.consumed.toNat = ctx.gasMeter.consumed.toNat + h.charged limit msgBz ctx.stores addrs ∧
        ctx'.gasMeter.limit = ctx.gasMeter.limit
  | [], i, ctx, _ => ⟨[], ctx, rfl, by simp, rfl, rfl, rfl⟩
  | addr :: addrs, i, ctx, hroom => by
    rw [List.length_cons, Nat.succ_mul] at hroom
    have hcall := sudoContract_eq (hreturns addr ctx.stores) (by omega)
    have hused : (h.afterCall limit msgBz ctx addr).gasMeter.consumed.toNat = _ := consumed_afterCall (by omega)
    have hcapacity : (h.afterCall limit msgBz ctx addr).gasMeter.capacity = ctx.gasMeter.capacity := rfl
    obtain ⟨us, ctx', hrest, hcalls, hstores, hgas, hlimit⟩ :=
      forEach_sudoContract hreturns addrs (i + 1) (h.afterCall limit msgBz ctx addr) (by rw [hcapacity]; omega)
    refine ⟨() :: us, ctx', ?_, ?_, hstores, ?_, hlimit⟩
    · rw [forEach, bind_of_ok hcall, bind_of_ok hrest]
      rfl
    · rw [hcalls, afterCall_calls, List.map_cons, List.append_assoc, List.singleton_append]
    · rw [hgas, hused, Nat.add_assoc, afterCall_stores, Host.charged_cons]

end calls

/-- **Telling the contracts is isolated and billed**, whether they return, fail or run out of gas, if the meter has
room for reading the store and for the limit of each. -/
theorem dispatched {ω : Type} (h : Host ω) (keyPrefix msgBz : Bytes) (ctx : Context ω)
    (hreturns : ∀ limit addr msg stores, (h.wasmSudo limit addr msg stores).exit ≠ .panicked)
    (hroom : ctx.gasMeter.consumed.toNat + (h.getGas ctx.stores.hooks paramsKey).toNat +
      (h.iteratorGas ctx.stores.hooks keyPrefix).toNat + (getAllContracts ctx.stores.hooks keyPrefix).length *
      (getParams ctx.stores.hooks).contractGasLimit.toNat ≤ ctx.gasMeter.capacity) :
    Dispatched h keyPrefix msgBz ctx (h.executeMessageOnContracts keyPrefix msgBz ctx) := by
  have hfirst : ctx.gasMeter.consumed.toNat + (h.getGas ctx.stores.hooks paramsKey).toNat ≤ ctx.gasMeter.capacity := by
    omega
  have hget := consumeGas_of_le hfirst
  have hgot := consumed_bill hfirst
  have hcapacity : ∀ amount, (ctx.bill amount).gasMeter.capacity = ctx.gasMeter.capacity := fun _ => rfl
  have hread : (ctx.bill (h.getGas ctx.stores.hooks paramsKey)).gasMeter.consumed.toNat +
      (h.iteratorGas ctx.stores.hooks keyPrefix).toNat ≤
        (ctx.bill (h.getGas ctx.stores.hooks paramsKey)).gasMeter.capacity := by
    rw [hcapacity]
    omega
  obtain ⟨us, ctx', hloop, hcalls, hstores, hgas, hlimit⟩ := forEach_sudoContract
    (fun addr stores => hreturns (getParams ctx.stores.hooks).contractGasLimit addr msgBz stores)
    (getAllContracts ctx.stores.hooks keyPrefix) 0
    ((ctx.bill (h.getGas ctx.stores.hooks paramsKey)).bill (h.iteratorGas ctx.stores.hooks keyPrefix)) (by
      rw [consumed_bill hread, hgot]
      exact hroom)
  have hrun : h.executeMessageOnContracts keyPrefix msgBz ctx = (.ok (), ctx') := by
    simp only [Host.executeMessageOnContracts, Proc.bind_apply, Proc.get, hget, consumeGas_of_le hread, hloop,
      pure_apply]
  rw [hrun]
  refine ⟨rfl, ⟨_, hcalls, getAllContracts_ascending _ _, fun _ => mem_getAllContracts, hstores, ?_⟩, hlimit⟩
  rw [hgas, consumed_bill hread, hgot]
  rfl

namespace Sample

/-- The contract `1` returns, `2` runs out of gas, and others fail; each adds itself to a list. -/
def host : Host (List Bytes) where
  wasmSudo _ addr _ stores :=
    if addr = [1] then ⟨.ok [], { stores with others := stores.others ++ [addr] }, 70⟩
    else if addr = [2] then ⟨.outOfGas, { stores with others := stores.others ++ [addr] }, 120⟩
    else ⟨.error .contract, { stores with others := stores.others ++ [addr] }, 30⟩
  getGas _ _ := 5
  iteratorGas _ _ := 10

/-- Three contracts are registered, with a limit of 100. -/
def hooks : Store :=
  [[3], [1], [2]].foldl (fun s addr => s.set (Hook.staking.keyPrefix ++ addr) .entry) (setParams .empty ⟨100⟩)

def context : Context (List Bytes) := ⟨⟨hooks, []⟩, .new 315, []⟩

theorem host_returns (limit : UInt64) (addr msg : Bytes) (stores : Stores (List Bytes)) :
    (host.wasmSudo limit addr msg stores).exit ≠ .panicked := by
  simp only [host]
  split_ifs <;> simp

end Sample

open Sample in
/-- A meter with just enough room. -/
theorem three_dispatched :
    Dispatched host Hook.staking.keyPrefix [7] context
      (host.executeMessageOnContracts Hook.staking.keyPrefix [7] context) ∧
    (host.executeMessageOnContracts Hook.staking.keyPrefix [7] context).2.calls = [([1], [7]), ([2], [7]), ([3], [7])] ∧
    (host.executeMessageOnContracts Hook.staking.keyPrefix [7] context).2.stores.others = [[1]] ∧
    (host.executeMessageOnContracts Hook.staking.keyPrefix [7] context).2.gasMeter.consumed = 215 := by
  refine ⟨dispatched host Hook.staking.keyPrefix [7] context host_returns (by decide +kernel), ?_, ?_, ?_⟩
  · decide +kernel
  · decide +kernel
  · decide +kernel

end CwHooks
