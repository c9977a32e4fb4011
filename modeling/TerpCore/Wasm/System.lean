/-
  The module as a state machine: its messages and the end of a block, applied one after the other.
-/
import TerpCore.Lib.Run
import TerpCore.Wasm.Prune

namespace Wasm

open Lib Outcome

variable {ν β : Type}

inductive Op where
  | storeCode (creator : AccAddress) (wasmCode : Bytes) (access : Option AccessConfig)
      (authZ : AuthorizationPolicy)
  | storeVkParam (blockTime : Int64) (creator : AccAddress) (hasAuth : Bool) (paramBytes : Bytes)
      (authZ : AuthorizationPolicy)
  | storeCircuit (blockTime : Int64) (creator : AccAddress) (paramID : UInt64) (vkBody : Bytes)
      (access : Option AccessConfig) (authZ : AuthorizationPolicy)
  | storeFullCircuit (blockTime : Int64) (creator : AccAddress) (hasAuth : Bool)
      (paramBytes vkBody : Bytes) (authZ : AuthorizationPolicy)
  | payCircuitDeposit (blockTime : Int64) (payer : AccAddress) (years : UInt32)
  | updateParams (authority : Bytes) (p : Params)
  | pinCode (codeID : UInt64)
  | unpinCode (codeID : UInt64)
  | pinCircuit (zkID : UInt64)
  | unpinCircuit (zkID : UInt64)
  | endBlock (blockTime : Int64)

/-- The address whose text the operation writes into a circuit. -/
def Op.creator : Op → Option AccAddress
  | .storeCircuit _ creator .. | .storeFullCircuit _ creator .. => some creator
  | _ => none

/-- Addresses come out of the texts of messages, so the text of a creator is one that the codec reads. -/
def Keeper.Reads (k : Keeper ν β) (op : Op) : Prop :=
  ∀ creator ∈ op.creator, k.accAddressFromBech32 (k.bech32 creator) = some creator

instance (k : Keeper ν β) (op : Op) : Decidable (k.Reads op) :=
  inferInstanceAs (Decidable (∀ creator ∈ op.creator, _))

def resultState {α : Type} (x : Outcome Err (α × State ν β)) : Outcome Err (State ν β) := do
  let (_, s) ← x
  return s

def Keeper.exec (k : Keeper ν β) (s : State ν β) : Op → Outcome Err (State ν β)
  | .storeCode creator wasmCode access authZ => resultState (k.create s creator wasmCode access authZ)
  | .storeVkParam blockTime creator hasAuth paramBytes authZ =>
    resultState (k.storeVkParam s blockTime creator hasAuth paramBytes authZ)
  | .storeCircuit blockTime creator paramID vkBody access authZ =>
    resultState (k.storeCircuit s blockTime creator paramID vkBody access authZ)
  | .storeFullCircuit blockTime creator hasAuth paramBytes vkBody authZ => do
    let (_, _, s) ← k.storeFullCircuit s blockTime creator hasAuth paramBytes vkBody authZ
    return s
  | .payCircuitDeposit blockTime payer years => k.payCircuitDeposit s blockTime payer years
  | .updateParams authority p => k.updateParams s authority p
  | .pinCode codeID => k.pinCode s codeID
  | .unpinCode codeID => k.unpinCode s codeID
  | .pinCircuit zkID => k.pinCircuit s zkID
  | .unpinCircuit zkID => k.unpinCircuit s zkID
  | .endBlock blockTime => k.pruneExpiredCircuitDeposits s blockTime

def Keeper.step (k : Keeper ν β) (s : State ν β) (op : Op) : State ν β := (k.exec s op).orElse s

/-- A store with parameters and nothing else. -/
def initialStore (p : Params) : Store := setParams .empty p

variable {k : Keeper ν β}

variable {s s' : State ν β} {blockTime : Int64} {creator : AccAddress} {authZ : AuthorizationPolicy}
  {id : UInt64} {access : Option AccessConfig} {op : Op}

theorem resultState_eq_ok {α : Type} {x : Outcome Err (α × State ν β)}
    (h : resultState x = .ok s) : ∃ a, x = .ok (a, s) := by
  obtain ⟨⟨a, s'⟩, hx, hs⟩ := bind_eq_ok.mp h
  exact ⟨a, hx.trans (by rw [ok.inj hs])⟩

theorem resultState_of_ok {α : Type} {x : Outcome Err (α × State ν β)} {a : α}
    (h : x = .ok (a, s)) : resultState x = .ok s := by
  rw [h]
  rfl

theorem exec_storeFullCircuit {hasAuth : Bool} {paramBytes vkBody : Bytes}
    (h : k.exec s (.storeFullCircuit blockTime creator hasAuth paramBytes vkBody authZ) = .ok s') :
    ∃ t paramID id, k.storeVkParam s blockTime creator hasAuth paramBytes authZ = .ok (paramID, t) ∧
      k.storeCircuit t blockTime creator paramID vkBody none authZ = .ok (id, s') := by
  obtain ⟨⟨paramID, id, s''⟩, hfull, hs⟩ := bind_eq_ok.mp h
  cases hs
  obtain ⟨t, hparam, hcircuit⟩ := storeFullCircuit_eq_ok hfull
  exact ⟨t, paramID, id, hparam, hcircuit⟩

/-! ## Footprints -/

inductive Part where
  | params
  | sequence (q : Seq)
  | codes
  | vkParams
  | circuits
  | pins
  | deposits
  | contracts
  deriving DecidableEq

@[simp] def Key.part : Key → Part
  | .params => .params
  | .seq q => .sequence q
  | .code _ => .codes
  | .vkParam _ | .vkParamBytes _ => .vkParams
  | .circuit _ | .circuitParamRef _ | .circuitBytes _ | .creator _ _ => .circuits
  | .pin _ => .pins
  | .depositee _ | .expiry _ _ | .gc _ => .deposits
  | .contract _ => .contracts

@[simp] def Op.parts : Op → List Part
  | .storeCode .. => [.sequence .code, .codes]
  | .storeVkParam .. => [.sequence .vkParam, .vkParams]
  | .storeCircuit .. => [.sequence .circuit, .circuits]
  | .storeFullCircuit .. => [.sequence .vkParam, .vkParams, .sequence .circuit, .circuits]
  | .payCircuitDeposit .. => [.deposits]
  | .updateParams .. => [.params]
  | .pinCode _ | .unpinCode _ | .pinCircuit _ | .unpinCircuit _ => [.pins]
  | .endBlock _ => [.deposits, .circuits, .pins]

/-- The rows in some parts. -/
@[simp] def InParts (parts : List Part) (key : Key) : Prop := key.part ∈ parts

theorem Touches.kept {parts kept : List Part} {s t : Store} (h : Touches (InParts parts) s t)
    (hparts : parts.Disjoint kept) {key : Key} (hkey : key.part ∈ kept) : row t key = row s key :=
  h.row_eq fun hmem => hparts hmem hkey

theorem ofCircuit_inParts {key : Key} (h : key.ofCircuit id) : InParts [.deposits, .circuits, .pins] key := by
  cases key <;> first
    | exact h.elim
    | simp

theorem create_touches {wasmCode : Bytes} (h : k.create s creator wasmCode access authZ = .ok (id, s')) :
    Touches (InParts [.sequence .code, .codes]) s.store s'.store := by
  obtain ⟨code, info, -, -, hstore⟩ := create_eq_ok h
  rw [hstore]
  refine .put (.put .refl ?_ ?_) ?_ ?_ <;> simp [Key.Holds]

theorem storeVkParam_touches {hasAuth : Bool} {paramBytes : Bytes}
    (h : k.storeVkParam s blockTime creator hasAuth paramBytes authZ = .ok (id, s')) :
    Touches (InParts [.sequence .vkParam, .vkParams]) s.store s'.store := by
  obtain ⟨params, info, -, -, -, hstore⟩ := storeVkParam_eq_ok h
  rw [hstore]
  refine .put (.put (.put .refl ?_ ?_) ?_ ?_) ?_ ?_ <;> simp [Key.Holds]

theorem storeCircuit_touches {paramID : UInt64} {vkBody : Bytes}
    (h : k.storeCircuit s blockTime creator paramID vkBody access authZ = .ok (id, s')) :
    Touches (InParts [.sequence .circuit, .circuits]) s.store s'.store := by
  obtain ⟨params, body, info, -, -, -, -, -, -, -, -, -, -, -, -, hstore⟩ := storeCircuit_eq_ok h
  rw [hstore]
  refine .put (.put (.put (.put (.put .refl ?_ ?_) ?_ ?_) ?_ ?_) ?_ ?_) ?_ ?_ <;>
    simp [Key.Holds]

theorem payCircuitDeposit_touches {payer : AccAddress} {years : UInt32}
    (h : k.payCircuitDeposit s blockTime payer years = .ok s') :
    Touches (InParts [.deposits]) s.store s'.store := by
  obtain ⟨-, paidUntil, t, ht, hstore⟩ := payCircuitDeposit_eq_ok h
  have htouches : Touches (InParts [.deposits]) s.store t := by
    rcases ht with ⟨rfl, -⟩ | ⟨old, rfl, -⟩
    · exact .refl
    · exact .drop .refl (by simp)
  rw [hstore]
  refine .drop (.put (.put htouches ?_ ?_) ?_ ?_) ?_ <;> simp [Key.Holds]

theorem prune_touches (hs : Formed s.store) (h : k.pruneExpiredCircuitDeposits s blockTime = .ok s') :
    Touches (InParts [.deposits, .circuits, .pins]) s.store s'.store := by
  refine prune_steps_rule (I := fun t => Touches (InParts [.deposits, .circuits, .pins]) s.store t.store)
    hs ?_ ?_ ?_ h .refl
  · intro t addr id ht
    exact ht.trans ((pruneCircuit_touches k addr t id).mono fun key => ofCircuit_inParts)
  · intro t key hkey ht
    refine ht.drop ?_
    cases key <;> first
      | exact hkey.elim
      | simp
  · intro t addr ht
    exact ht.put (by simp) trivial

section

variable (hs : Formed s.store) (h : k.exec s op = .ok s')

include hs h

theorem exec_touches : Touches (InParts op.parts) s.store s'.store := by
  cases op with
  | storeCode =>
    obtain ⟨id, h⟩ := resultState_eq_ok h
    exact create_touches h
  | storeVkParam =>
    obtain ⟨id, h⟩ := resultState_eq_ok h
    exact storeVkParam_touches h
  | storeCircuit =>
    obtain ⟨id, h⟩ := resultState_eq_ok h
    exact storeCircuit_touches h
  | storeFullCircuit =>
    obtain ⟨t, paramID, id, hparam, hcircuit⟩ := exec_storeFullCircuit h
    refine ((storeVkParam_touches hparam).mono ?_).trans ((storeCircuit_touches hcircuit).mono ?_)
    · intro key hkey
      simp only [InParts, Op.parts, List.mem_cons] at hkey ⊢
      tauto
    · tauto
  | payCircuitDeposit => exact payCircuitDeposit_touches h
  | updateParams =>
    rw [(updateParams_eq_ok h).2]
    exact Touches.refl.put (by simp) trivial
  | pinCode id =>
    rw [(pinCode_eq_ok h).2.1]
    exact Touches.refl.put (by simp) trivial
  | unpinCode id =>
    rw [(unpinCode_eq_ok h).1]
    exact Touches.refl.drop (by simp)
  | pinCircuit id =>
    rw [(pinCircuit_eq_ok h).2.1]
    exact Touches.refl.put (by simp) trivial
  | unpinCircuit id =>
    rw [(unpinCircuit_eq_ok h).1]
    exact Touches.refl.drop (by simp)
  | endBlock blockTime => exact prune_touches hs h

theorem row_exec {key : Key} (hkey : key.part ∉ op.parts) : row s'.store key = row s.store key :=
  (exec_touches hs h).row_eq hkey

theorem exec_formed : Formed s'.store :=
  (exec_touches hs h).formedOn hs

end

/-! ## Sequences -/

/-- The sequence a row takes its id from. -/
def Key.numbered : Key → Option (Seq × UInt64)
  | .code id => some (.code, id)
  | .vkParam id => some (.vkParam, id)
  | .circuit id => some (.circuit, id)
  | _ => none

/-- Neither a sequence nor a row with an id of one. -/
def Key.Unnumbered (key : Key) : Prop := key.numbered = none ∧ ∀ q, key ≠ .seq q

/-- The ids in the store are below their sequences, and no sequence has moved on more than `n` times. -/
structure Numbered (n : ℕ) (s : Store) : Prop where
  seq : ∀ q : Seq, ∃ next, peekAutoIncrementID s q.key = .ok next ∧ 0 < next.toNat ∧ next.toNat ≤ n + 1
  below : ∀ {key : Key} {q : Seq} {id next : UInt64}, key.numbered = some (q, id) →
    (row s key).isSome → peekAutoIncrementID s q.key = .ok next → id.toNat < next.toNat

namespace Numbered

variable {n : ℕ} {s t : Store}

theorem mono (h : Numbered n s) {m : ℕ} (hm : n ≤ m) : Numbered m s where
  seq q := by
    obtain ⟨next, hpeek, hpos, hle⟩ := h.seq q
    exact ⟨next, hpeek, hpos, by omega⟩
  below := h.below

theorem row_next (h : Numbered n s) {key : Key} {q : Seq} {id : UInt64}
    (hkey : key.numbered = some (q, id)) (hid : peekAutoIncrementID s q.key = .ok id) :
    row s key = none := by
  cases hrow : row s key with
  | none => rfl
  | some v => exact absurd (h.below hkey (by rw [hrow]; rfl) hid) (Nat.lt_irrefl _)

theorem of_rows (h : Numbered n s) (hseq : ∀ q, row t (.seq q) = row s (.seq q))
    (hrows : ∀ key, key.numbered.isSome → (row t key).isSome → (row s key).isSome) : Numbered n t where
  seq q := by
    rw [peekAutoIncrementID_congr (hseq q)]
    exact h.seq q
  below hkey hrow hpeek := by
    rw [peekAutoIncrementID_congr (hseq _)] at hpeek
    exact h.below hkey (hrows _ (by rw [hkey]; rfl) hrow) hpeek

end Numbered

/-- A store with a new row under the next id of a sequence, and the sequence moved on. -/
structure Alloc (q : Seq) (id : UInt64) (s t : Store) : Prop where
  next : peekAutoIncrementID s q.key = .ok id
  moved : peekAutoIncrementID t q.key = .ok (id + 1)
  seq : ∀ q', q' ≠ q → row t (.seq q') = row s (.seq q')
  rows : ∀ {key : Key}, key.numbered.isSome → key.numbered ≠ some (q, id) → row t key = row s key

theorem alloc_of_touches {q : Seq} {s t : Store} (hid : peekAutoIncrementID s q.key = .ok id) {name : Key}
    (hname : name.numbered = some (q, id)) {v : Value}
    (ht : Touches Key.Unnumbered (put (put s (.seq q) (.raw (be64 (id + 1)))) name v) t) :
    Alloc q id s t := by
  have hseq : ∀ q', row t (.seq q') = row (put s (.seq q) (.raw (be64 (id + 1)))) (.seq q') := by
    intro q'
    rw [ht.row_eq fun hkey => hkey.2 q' rfl, row_put_of_ne]
    rintro rfl
    cases hname
  refine ⟨hid, ?_, fun q' hq => ?_, fun {key} hkey hne => ?_⟩
  · rw [peekAutoIncrementID_congr (hseq q), peekAutoIncrementID_put]
  · exact (hseq q').trans (row_put_of_ne (by simpa using Ne.symm hq))
  · rw [ht.row_eq fun hkey' => by simp [hkey'.1] at hkey, row_put_of_ne, row_put_of_ne]
    · rintro rfl
      cases hkey
    · rintro rfl
      exact hne hname

/-- What an operation that takes ids of the sequences `qs` does to them. -/
inductive Allocs : List Seq → Store → Store → Prop
  | quiet {s t : Store} : (∀ q, row t (.seq q) = row s (.seq q)) →
      (∀ key, key.numbered.isSome → (row t key).isSome → (row s key).isSome) → Allocs [] s t
  | cons {q : Seq} {id : UInt64} {qs : List Seq} {s t u : Store} : Alloc q id s t → Allocs qs t u →
      Allocs (q :: qs) s u

theorem Alloc.allocs {q : Seq} {s t : Store} (h : Alloc q id s t) : Allocs [q] s t :=
  .cons h (.quiet (fun _ => rfl) fun _ _ hrow => hrow)

/-- The sequences an operation takes ids of, in this order. -/
def Op.sequences : Op → List Seq
  | .storeCode .. => [.code]
  | .storeVkParam .. => [.vkParam]
  | .storeCircuit .. => [.circuit]
  | .storeFullCircuit .. => [.vkParam, .circuit]
  | _ => []

section steps

variable {n : ℕ} {s s' : State ν β} {blockTime : Int64} {creator : AccAddress}
  {authZ : AuthorizationPolicy} {id : UInt64}

theorem create_alloc {wasmCode : Bytes} {access : Option AccessConfig}
    (h : k.create s creator wasmCode access authZ = .ok (id, s')) : Alloc .code id s.store s'.store := by
  obtain ⟨code, info, -, hid, hstore⟩ := create_eq_ok h
  rw [hstore]
  exact alloc_of_touches hid rfl .refl

theorem storeVkParam_alloc {hasAuth : Bool} {paramBytes : Bytes}
    (h : k.storeVkParam s blockTime creator hasAuth paramBytes authZ = .ok (id, s')) :
    Alloc .vkParam id s.store s'.store := by
  obtain ⟨params, info, -, -, hid, hstore⟩ := storeVkParam_eq_ok h
  rw [hstore]
  exact alloc_of_touches hid rfl (.put .refl ⟨rfl, by simp⟩ trivial)

theorem storeCircuit_alloc {paramID : UInt64} {vkBody : Bytes} {access : Option AccessConfig}
    (h : k.storeCircuit s blockTime creator paramID vkBody access authZ = .ok (id, s')) :
    Alloc .circuit id s.store s'.store := by
  obtain ⟨params, body, info, -, -, -, -, -, -, -, -, -, -, -, hid, hstore⟩ := storeCircuit_eq_ok h
  rw [hstore]
  exact alloc_of_touches hid rfl
    (.put (.put (.put .refl ⟨rfl, by simp⟩ trivial) ⟨rfl, by simp⟩ trivial) ⟨rfl, by simp⟩ trivial)

theorem allocs_of_parts {parts : List Part} (h : Touches (InParts parts) s.store s'.store)
    (hparts : ∀ part ∈ parts, part = .params ∨ part = .pins ∨ part = .deposits) :
    Allocs [] s.store s'.store := by
  have hkeep : ∀ key : Key, key.numbered.isSome ∨ (∃ q, key = .seq q) → row s'.store key = row s.store key := by
    intro key hkey
    refine h.row_eq fun hmem => ?_
    have hpart := hparts _ hmem
    cases key <;> simp_all [Key.numbered]
  exact .quiet (fun q => hkeep _ (.inr ⟨q, rfl⟩)) fun key hkey hrow => by
    rwa [hkeep key (.inl hkey)] at hrow

/-- Every operation takes the next ids of its sequences and leaves other ids alone. -/
theorem exec_allocs {op : Op} (hformed : Formed s.store) (h : k.exec s op = .ok s') :
    Allocs op.sequences s.store s'.store := by
  have htouches := exec_touches hformed h
  cases op with
  | storeCode =>
    obtain ⟨id, h⟩ := resultState_eq_ok h
    exact (create_alloc h).allocs
  | storeVkParam =>
    obtain ⟨id, h⟩ := resultState_eq_ok h
    exact (storeVkParam_alloc h).allocs
  | storeCircuit =>
    obtain ⟨id, h⟩ := resultState_eq_ok h
    exact (storeCircuit_alloc h).allocs
  | storeFullCircuit =>
    obtain ⟨t, paramID, id, hparam, hcircuit⟩ := exec_storeFullCircuit h
    exact .cons (storeVkParam_alloc hparam) (storeCircuit_alloc hcircuit).allocs
  | endBlock blockTime =>
    refine .quiet (fun q => ?_) fun key hkey hrow => ?_
    · exact row_exec hformed h (by simp)
    · have hne : ∀ addr, Key.gc addr ≠ key := by
        rintro addr rfl
        cases hkey
      rcases row_prune_or hformed hne h with heq | heq
      · rwa [heq] at hrow
      · simp [heq] at hrow
  | _ => exact allocs_of_parts htouches (by simp)

end steps

/-! ## Ids below their sequences -/

/-- The ids in the store are below their sequences. -/
structure Below (s : Store) : Prop where
  lt : ∀ {key : Key} {q : Seq} {id next : UInt64}, key.numbered = some (q, id) → (row s key).isSome →
    peekAutoIncrementID s q.key = .ok next → id.toNat < next.toNat

theorem Below.alloc {s t : Store} (h : Below s) {q : Seq} (halloc : Alloc q id s t)
    (hroom : id.toNat + 1 < 2 ^ 64) : Below t := by
  have hsucc := toNat_add_one hroom
  refine ⟨fun {key q' id' next} hkey hrow hpeek => ?_⟩
  by_cases hnew : key.numbered = some (q, id)
  · obtain ⟨rfl, rfl⟩ := Prod.mk.inj (Option.some.inj (hkey.symm.trans hnew))
    obtain rfl : id' + 1 = next := ok.inj (halloc.moved.symm.trans hpeek)
    omega
  · rw [halloc.rows (by rw [hkey]; rfl) hnew] at hrow
    by_cases hq : q' = q
    · subst hq
      obtain rfl : id + 1 = next := ok.inj (halloc.moved.symm.trans hpeek)
      have hlt := h.lt hkey hrow halloc.next
      omega
    · rw [peekAutoIncrementID_congr (halloc.seq q' hq)] at hpeek
      exact h.lt hkey hrow hpeek

namespace Numbered

variable {n : ℕ} {s t : Store}

theorem alloc (h : Numbered n s) (hn : n + 2 < 2 ^ 64) {q : Seq} {id : UInt64} (halloc : Alloc q id s t) :
    Numbered (n + 1) t := by
  obtain ⟨next, hnext, hpos, hle⟩ := h.seq q
  obtain rfl : id = next := ok.inj (halloc.next.symm.trans hnext)
  have hroom : id.toNat + 1 < 2 ^ 64 := by omega
  refine ⟨fun q' => ?_, (Below.alloc ⟨h.below⟩ halloc hroom).lt⟩
  by_cases hq : q' = q
  · subst hq
    have hsucc := toNat_add_one hroom
    exact ⟨id + 1, halloc.moved, by omega, by omega⟩
  · obtain ⟨next, hpeek, hpos', hle'⟩ := h.seq q'
    rw [peekAutoIncrementID_congr (halloc.seq q' hq)]
    exact ⟨next, hpeek, hpos', by omega⟩

theorem allocs {qs : List Seq} (halloc : Allocs qs s t) :
    ∀ {n : ℕ}, Numbered n s → n + qs.length + 1 < 2 ^ 64 → Numbered (n + qs.length) t := by
  induction halloc with
  | quiet hseq hrows => exact fun h _ => h.of_rows hseq hrows
  | cons hfirst _ ih =>
    intro n h hn
    rw [List.length_cons] at hn ⊢
    have hrest := ih (h.alloc (by omega) hfirst) (by omega)
    rwa [Nat.add_right_comm] at hrest

end Numbered

theorem exec_numbered {n : ℕ} (hformed : Formed s.store) (hs : Numbered n s.store) (hn : n + 3 < 2 ^ 64)
    (h : k.exec s op = .ok s') :
    Numbered (n + 2) s'.store := by
  have hlen : op.sequences.length ≤ 2 := by cases op <;> simp [Op.sequences]
  exact (Numbered.allocs (exec_allocs hformed h) hs (by omega)).mono (by omega)

theorem initialStore_formed (p : Params) : Formed (initialStore p) := by
  rw [initialStore, setParams_eq]
  exact FormedOn.put formed_empty trivial

theorem row_initialStore {p : Params} {key : Key} (h : key ≠ .params) : row (initialStore p) key = none := by
  rw [initialStore, setParams_eq, row_put_of_ne (Ne.symm h)]
  simp [row]

theorem initialStore_numbered (p : Params) : Numbered 0 (initialStore p) where
  seq q := by
    refine ⟨1, ?_, by decide, by decide⟩
    cases q <;> rfl
  below hkey hrow := by
    rw [row_initialStore (by rintro rfl; cases hkey)] at hrow
    cases hrow

/-! ## Calls of the engine -/

/-- The engine after some calls that return. -/
inductive Calls (e : WasmEngine ν) (vm : ν) : ν → Prop
  | refl : Calls e vm vm
  | storeCode {vm' vm'' : ν} {code r : Bytes} : Calls e vm vm' → e.storeCode vm' code = some (r, vm'') →
      Calls e vm vm''
  | storeParam {vm' vm'' : ν} {params r : Bytes} : Calls e vm vm' →
      e.storeParam vm' params = some (r, vm'') → Calls e vm vm''
  | storeCircuit {vm' vm'' : ν} {blob r : Bytes} : Calls e vm vm' →
      e.storeCircuit vm' blob = some (r, vm'') → Calls e vm vm''
  | syncPinnedCodes {vm' vm'' : ν} {hs : List Bytes} : Calls e vm vm' →
      e.syncPinnedCodes vm' hs = some vm'' → Calls e vm vm''
  | syncPinnedCircuits {vm' vm'' : ν} {zs : List Bytes} : Calls e vm vm' →
      e.syncPinnedCircuits vm' zs = some vm'' → Calls e vm vm''
  | unpinCircuit {vm' : ν} (key : Bytes) : Calls e vm vm' → Calls e vm (e.unpinCircuit vm' key)
  | removeCircuit {vm' : ν} (key : Bytes) : Calls e vm vm' → Calls e vm (e.removeCircuit vm' key)

theorem Calls.trans {e : WasmEngine ν} {vm vm' vm'' : ν} (h : Calls e vm vm') (h' : Calls e vm' vm'') :
    Calls e vm vm'' := by
  induction h' with
  | refl => exact h
  | storeCode _ hcall ih => exact ih.storeCode hcall
  | storeParam _ hcall ih => exact ih.storeParam hcall
  | storeCircuit _ hcall ih => exact ih.storeCircuit hcall
  | syncPinnedCodes _ hcall ih => exact ih.syncPinnedCodes hcall
  | syncPinnedCircuits _ hcall ih => exact ih.syncPinnedCircuits hcall
  | unpinCircuit key _ ih => exact ih.unpinCircuit key
  | removeCircuit key _ ih => exact ih.removeCircuit key

theorem pruneCircuit_calls (creator : AccAddress) (s : State ν β) (id : UInt64) :
    Calls k.engine s.vm (k.pruneCircuit creator s id).vm := by
  rcases pruneCircuit_cases k creator s id with ⟨info, -, -, hvm⟩ | heq
  · rw [hvm]
    exact (Calls.refl.unpinCircuit _).removeCircuit _
  · rw [heq]
    exact .refl

theorem exec_calls (hformed : Formed s.store) (h : k.exec s op = .ok s') : Calls k.engine s.vm s'.vm := by
  have hparam : ∀ {s s' : State ν β} {blockTime creator hasAuth paramBytes authZ id},
      k.storeVkParam s blockTime creator hasAuth paramBytes authZ = .ok (id, s') →
      Calls k.engine s.vm s'.vm := by
    intro s s' blockTime creator hasAuth paramBytes authZ id h
    obtain ⟨params, info, -, hvm, -⟩ := storeVkParam_eq_ok h
    exact Calls.refl.storeParam hvm
  have hcircuit : ∀ {s s' : State ν β} {blockTime creator paramID vkBody access authZ id},
      k.storeCircuit s blockTime creator paramID vkBody access authZ = .ok (id, s') →
      Calls k.engine s.vm s'.vm := by
    intro s s' blockTime creator paramID vkBody access authZ id h
    obtain ⟨params, body, info, paramInfo, key, vm, -, -, -, hparam, -, hvm, -⟩ := storeCircuit_eq_ok h
    exact (Calls.refl.storeParam hparam).storeCircuit hvm
  cases op with
  | storeCode =>
    obtain ⟨id, h⟩ := resultState_eq_ok h
    obtain ⟨code, info, hvm, -⟩ := create_eq_ok h
    exact Calls.refl.storeCode hvm
  | storeVkParam =>
    obtain ⟨id, h⟩ := resultState_eq_ok h
    exact hparam h
  | storeCircuit =>
    obtain ⟨id, h⟩ := resultState_eq_ok h
    exact hcircuit h
  | storeFullCircuit =>
    obtain ⟨t, paramID, id, hfirst, hsecond⟩ := exec_storeFullCircuit h
    exact (hparam hfirst).trans (hcircuit hsecond)
  | payCircuitDeposit => exact (payCircuitDeposit_eq_ok h).1 ▸ .refl
  | updateParams => exact (updateParams_eq_ok h).1 ▸ .refl
  | pinCode id =>
    obtain ⟨-, -, hs, hvm⟩ := pinCode_eq_ok h
    exact Calls.refl.syncPinnedCodes hvm
  | unpinCode id =>
    obtain ⟨-, hs, hvm⟩ := unpinCode_eq_ok h
    exact Calls.refl.syncPinnedCodes hvm
  | pinCircuit id =>
    obtain ⟨-, -, _, _, -, -, hvm⟩ := pinCircuit_eq_ok h
    exact Calls.refl.syncPinnedCircuits hvm
  | unpinCircuit id =>
    obtain ⟨-, _, -, hvm⟩ := unpinCircuit_eq_ok h
    exact Calls.refl.syncPinnedCircuits hvm
  | endBlock blockTime =>
    exact prune_steps_rule (I := fun t => Calls k.engine s.vm t.vm) hformed
      (fun t addr id ht => ht.trans (pruneCircuit_calls addr t id)) (fun _ _ _ ht => ht)
      (fun _ _ ht => ht) h .refl

/-! ## Runs -/

theorem step_formed (hs : Formed s.store) (op : Op) : Formed (k.step s op).store :=
  orElse_elim (P := fun t => Formed t.store) hs fun _ heq => exec_formed hs heq

theorem run_formed (p : Params) (vm : ν) (app : β) (ops : List Op) :
    Formed (run k.step ⟨initialStore p, vm, app⟩ ops).store :=
  run_preserves (I := fun s : State ν β => Formed s.store) (fun _ op hs => step_formed hs op) _ ops
    (initialStore_formed p)

/-- What operations that meet `C` keep in a numbered store holds in every state reached along `C`, before a sequence
can wrap around. -/
theorem run_numbered_along {J : State ν β → Prop} {C : State ν β → Op → Prop}
    (hexec : ∀ {n : ℕ} {s s' : State ν β} {op : Op}, Formed s.store → Numbered n s.store →
      n + 2 < 2 ^ 64 → C s op → k.exec s op = .ok s' → J s → J s')
    {p : Params} {vm : ν} {app : β} (hstart : J ⟨initialStore p, vm, app⟩) (ops : List Op)
    (hlen : ops.length < 2 ^ 63) (hops : Along k.step C ⟨initialStore p, vm, app⟩ ops) :
    ∃ n, Formed (run k.step ⟨initialStore p, vm, app⟩ ops).store ∧
      Numbered n (run k.step ⟨initialStore p, vm, app⟩ ops).store ∧
      J (run k.step ⟨initialStore p, vm, app⟩ ops) := by
  have hstep : ∀ n (s : State ν β) (op : Op), n < 2 ^ 63 - 1 →
      (Formed s.store ∧ Numbered (2 * n) s.store ∧ J s) → C s op →
      Formed (k.step s op).store ∧ Numbered (2 * (n + 1)) (k.step s op).store ∧ J (k.step s op) := by
    rintro n s op hlt ⟨hs, hn, h⟩ hC
    have hwrap : 2 * n + 3 < 2 ^ 64 := by omega
    refine orElse_elim (P := fun t : State ν β => Formed t.store ∧ Numbered (2 * (n + 1)) t.store ∧ J t)
      ⟨hs, hn.mono (by omega), h⟩ fun s' heq => ?_
    exact ⟨exec_formed hs heq, exec_numbered hs hn hwrap heq, hexec hs hn (Nat.lt_of_succ_lt hwrap) hC heq h⟩
  have hrun := run_counted
    hstep ops 0 ⟨initialStore p, vm, app⟩ (by omega) hops
    ⟨initialStore_formed p, initialStore_numbered p, hstart⟩
  exact ⟨_, hrun⟩

theorem run_numbered {J : State ν β → Prop}
    (hexec : ∀ {n : ℕ} {s s' : State ν β} {op : Op}, Formed s.store → Numbered n s.store →
      n + 2 < 2 ^ 64 → k.exec s op = .ok s' → J s → J s')
    {p : Params} {vm : ν} {app : β} (hstart : J ⟨initialStore p, vm, app⟩) (ops : List Op)
    (hlen : ops.length < 2 ^ 63) :
    ∃ n, Formed (run k.step ⟨initialStore p, vm, app⟩ ops).store ∧
      Numbered n (run k.step ⟨initialStore p, vm, app⟩ ops).store ∧
      J (run k.step ⟨initialStore p, vm, app⟩ ops) :=
  run_numbered_along (fun hs hn hwrap _ => hexec hs hn hwrap) hstart ops hlen
    (Along.of_forall (fun _ _ => trivial) _ _)

/-- Nobody may upload circuits without a deposit. -/
def nobodyParams : Params := { defaultParams with circuitUploadAccess := allowNobody }

/-- Account 1 pays for a year and uploads three circuits; when the year is over, two of them go. -/
def lapsedOps : List Op :=
  let payer := Tables.account 1
  let upload := Op.storeCircuit 0 payer 1 Tables.sampleBody none .default
  [.payCircuitDeposit 0 payer 1, .storeVkParam 0 payer true Tables.sampleParams .default,
    upload, upload, upload, .endBlock 31536000]

def sampleRun (ops : List Op) : State Files Unit :=
  run Tables.sample.keeper.step ⟨initialStore nobodyParams, {}, ()⟩ ops

end Wasm
