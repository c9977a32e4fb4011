/-
  Code pins and circuit pins share one index.

  So a row says that an id was pinned last, but not as what.
-/
import TerpCore.Lib.Run
import TerpCore.Wasm.Effects

namespace Wasm

open Lib Outcome Option

variable {ν β : Type} {k : Keeper ν β}

/-! ## Runs of pin operations -/

inductive PinOp where
  | pinCode (codeID : UInt64)
  | unpinCode (codeID : UInt64)
  | pinCircuit (zkID : UInt64)
  | unpinCircuit (zkID : UInt64)
  | removeCircuit (zkID : UInt64)

def Keeper.execPin (k : Keeper ν β) (s : State ν β) : PinOp → Outcome Err (State ν β)
  | .pinCode codeID => k.pinCode s codeID
  | .unpinCode codeID => k.unpinCode s codeID
  | .pinCircuit zkID => k.pinCircuit s zkID
  | .unpinCircuit zkID => k.unpinCircuit s zkID
  | .removeCircuit zkID => k.removeCircuit s zkID

def Keeper.stepPin (k : Keeper ν β) (s : State ν β) (op : PinOp) : State ν β :=
  (k.execPin s op).orElse s

/-- What an operation says about `id` as a code: pinned, not pinned, or nothing. -/
def PinOp.codeEffect (id : UInt64) : PinOp → Option Bool
  | .pinCode codeID => if codeID = id then some true else none
  | .unpinCode codeID => if codeID = id then some false else none
  | _ => none

/-- What an operation says about `id` as a circuit. -/
def PinOp.circuitEffect (id : UInt64) : PinOp → Option Bool
  | .pinCircuit zkID => if zkID = id then some true else none
  | .unpinCircuit zkID | .removeCircuit zkID => if zkID = id then some false else none
  | _ => none

/-- What an operation does to the row of `id`. -/
def PinOp.indexEffect (id : UInt64) (op : PinOp) : Option Bool :=
  (op.codeEffect id).or (op.circuitEffect id)

/-- What the last successful operation with an effect says; `b` if there is none. -/
def Keeper.lastEffect (k : Keeper ν β) (effect : PinOp → Option Bool) (b : Bool) :
    State ν β → List PinOp → Bool
  | _, [] => b
  | s, op :: ops =>
    k.lastEffect effect (if (k.execPin s op).isOk then (effect op).getD b else b) (k.stepPin s op) ops

/-- The last successful code-pin operation on `id` was a pin. -/
def Keeper.codePinned (k : Keeper ν β) (s : State ν β) (ops : List PinOp) (id : UInt64) : Bool :=
  k.lastEffect (PinOp.codeEffect id) false s ops

/-- The last successful circuit-pin operation on `id` was a pin, and it was not removed since. -/
def Keeper.circuitPinned (k : Keeper ν β) (s : State ν β) (ops : List PinOp) (id : UInt64) : Bool :=
  k.lastEffect (PinOp.circuitEffect id) false s ops

/-! ## Steps -/

section step

variable {s s' : State ν β} {op : PinOp}

variable (h : k.execPin s op = .ok s')

include h

theorem execPin_touches : ∃ P, Touches P s.store s'.store := by
  cases op with
  | pinCode id =>
    rw [(pinCode_eq_ok h).2.1]
    exact ⟨_, .put .refl (Eq.refl _) trivial⟩
  | unpinCode id =>
    rw [(unpinCode_eq_ok h).1]
    exact ⟨_, .drop .refl (Eq.refl _)⟩
  | pinCircuit id =>
    rw [(pinCircuit_eq_ok h).2.1]
    exact ⟨_, .put .refl (Eq.refl _) trivial⟩
  | unpinCircuit id =>
    rw [(unpinCircuit_eq_ok h).1]
    exact ⟨_, .drop .refl (Eq.refl _)⟩
  | removeCircuit id =>
    obtain ⟨info, -, hstore, -⟩ := removeCircuit_eq_ok h
    rw [hstore, deleteCircuitRows_eq]
    exact ⟨_, Touches.foldl_drop _ .refl fun key hkey => hkey⟩

theorem execPin_pin (id : UInt64) :
    (row s'.store (.pin id)).isSome = (op.indexEffect id).getD (row s.store (.pin id)).isSome := by
  cases op with
  | pinCode id' =>
    rw [(pinCode_eq_ok h).2.1, row_put]
    by_cases hid : id' = id <;> simp [PinOp.indexEffect, PinOp.codeEffect, PinOp.circuitEffect, hid]
  | unpinCode id' =>
    rw [(unpinCode_eq_ok h).1, row_drop]
    by_cases hid : id' = id <;> simp [PinOp.indexEffect, PinOp.codeEffect, PinOp.circuitEffect, hid]
  | pinCircuit id' =>
    rw [(pinCircuit_eq_ok h).2.1, row_put]
    by_cases hid : id' = id <;> simp [PinOp.indexEffect, PinOp.codeEffect, PinOp.circuitEffect, hid]
  | unpinCircuit id' =>
    rw [(unpinCircuit_eq_ok h).1, row_drop]
    by_cases hid : id' = id <;> simp [PinOp.indexEffect, PinOp.codeEffect, PinOp.circuitEffect, hid]
  | removeCircuit id' =>
    obtain ⟨info, -, hstore, -⟩ := removeCircuit_eq_ok h
    rw [hstore, row_deleteCircuitRows]
    by_cases hid : id' = id
    · simp [PinOp.indexEffect, PinOp.codeEffect, PinOp.circuitEffect, hid, Keeper.circuitRows]
    · simp [PinOp.indexEffect, PinOp.codeEffect, PinOp.circuitEffect, hid, Ne.symm hid, Keeper.circuitRows]

theorem row_execPin {key : Key} (hpin : ∀ id, .pin id ≠ key)
    (hremoved : ∀ id info, op = .removeCircuit id → key ∉ k.circuitRows id info) :
    row s'.store key = row s.store key := by
  cases op with
  | pinCode id => rw [(pinCode_eq_ok h).2.1, row_put_of_ne (hpin id)]
  | unpinCode id => rw [(unpinCode_eq_ok h).1, row_drop_of_ne (hpin id)]
  | pinCircuit id => rw [(pinCircuit_eq_ok h).2.1, row_put_of_ne (hpin id)]
  | unpinCircuit id => rw [(unpinCircuit_eq_ok h).1, row_drop_of_ne (hpin id)]
  | removeCircuit id =>
    obtain ⟨info, -, hstore, -⟩ := removeCircuit_eq_ok h
    rw [hstore, row_deleteCircuitRows, if_neg (hremoved id info rfl)]

theorem execPin_code (id : UInt64) : getCodeInfo s'.store id = getCodeInfo s.store id :=
  getCodeInfo_congr (row_execPin h (by simp) (by simp [Keeper.circuitRows]))

theorem execPin_circuit {id : UInt64} (hid : op.circuitEffect id ≠ some false) :
    getCircuitInfo s'.store id = getCircuitInfo s.store id := by
  refine getCircuitInfo_congr (row_execPin h (by simp) ?_)
  rintro id' info rfl
  have hne : id' ≠ id := by simpa [PinOp.circuitEffect] using hid
  simp [Keeper.circuitRows, Ne.symm hne]

theorem code_of_codeEffect {id : UInt64} (hid : op.codeEffect id = some true) : (getCodeInfo s.store id).isSome := by
  cases op with
  | pinCode id' =>
    obtain rfl : id' = id := by simpa [PinOp.codeEffect] using hid
    exact (pinCode_eq_ok h).1
  | _ => simp [PinOp.codeEffect] at hid

theorem circuit_of_circuitEffect {id : UInt64}
    (hid : op.circuitEffect id = some true) : (getCircuitInfo s.store id).isSome := by
  cases op with
  | pinCircuit id' =>
    obtain rfl : id' = id := by simpa [PinOp.circuitEffect] using hid
    exact (pinCircuit_eq_ok h).1
  | _ => simp [PinOp.circuitEffect] at hid

end step

/-! ## Runs -/

/-- The keys of the index. -/
def PinKey (key : Bytes) : Prop := key.head? = some 0x07

/-- The index follows `index`, which on each id is one of `codes` and `circuits`; what these two say is
pinned exists. -/
structure Tracks (s : State ν β) (index codes circuits : UInt64 → Bool) : Prop where
  index_eq : ∀ id, (row s.store (.pin id)).isSome = index id
  either : ∀ id, index id = codes id ∨ index id = circuits id
  code : ∀ id, codes id = true → (getCodeInfo s.store id).isSome
  circuit : ∀ id, circuits id = true → (getCircuitInfo s.store id).isSome
  named : FormedOn PinKey s.store

/-- What is pinned after one more operation. -/
def Keeper.pinnedAfter (k : Keeper ν β) (s : State ν β) (op : PinOp)
    (effect : UInt64 → PinOp → Option Bool) (pinned : UInt64 → Bool) (id : UInt64) : Bool :=
  if (k.execPin s op).isOk then (effect id op).getD (pinned id) else pinned id

variable {s : State ν β} {hash : UInt64 → Option Bytes}

theorem Tracks.step {index codes circuits : UInt64 → Bool} (h : Tracks s index codes circuits) (op : PinOp) :
    Tracks (k.stepPin s op) (k.pinnedAfter s op PinOp.indexEffect index) (k.pinnedAfter s op PinOp.codeEffect codes)
      (k.pinnedAfter s op PinOp.circuitEffect circuits) := by
  unfold Keeper.stepPin Keeper.pinnedAfter
  cases hexec : k.execPin s op with
  | error | panicked => exact h
  | ok s' =>
    constructor
    · intro id
      exact (execPin_pin hexec id).trans (by rw [h.index_eq]; rfl)
    · intro id
      unfold PinOp.indexEffect
      cases hcode : op.codeEffect id with
      | some b => exact .inl rfl
      | none =>
        cases op.circuitEffect id with
        | some b => exact .inr rfl
        | none => exact h.either id
    · intro id hid
      change (getCodeInfo s'.store id).isSome
      rw [execPin_code hexec]
      cases hcode : op.codeEffect id with
      | some b =>
        have hb : b = true := by simpa [hcode, isOk] using hid
        exact code_of_codeEffect hexec (hb ▸ hcode)
      | none => exact h.code id (by simpa [hcode] using hid)
    · intro id hid
      change (getCircuitInfo s'.store id).isSome
      cases hcircuit : op.circuitEffect id with
      | some b =>
        have hb : b = true := by simpa [hcircuit, isOk] using hid
        rw [execPin_circuit hexec (by simp [hcircuit, hb])]
        exact circuit_of_circuitEffect hexec (hb ▸ hcircuit)
      | none =>
        rw [execPin_circuit hexec (by simp [hcircuit])]
        exact h.circuit id (by simpa [hcircuit] using hid)
    · obtain ⟨P, htouches⟩ := execPin_touches hexec
      exact htouches.formedOn h.named

theorem Tracks.run : ∀ (ops : List PinOp) {s : State ν β} {index codes circuits : UInt64 → Bool},
    Tracks s index codes circuits →
    Tracks (run k.stepPin s ops) (fun id => k.lastEffect (PinOp.indexEffect id) (index id) s ops)
      (fun id => k.lastEffect (PinOp.codeEffect id) (codes id) s ops)
      (fun id => k.lastEffect (PinOp.circuitEffect id) (circuits id) s ops)
  | [], _, _, _, _, h => h
  | op :: ops, _, _, _, _, h => Tracks.run ops (h.step op)

theorem tracks_of_empty (h : s.store.iterator pinnedCodeIndexPrefix = []) :
    Tracks s (fun _ => false) (fun _ => false) (fun _ => false) where
  index_eq id := by
    cases hrow : row s.store (.pin id) with
    | none => rfl
    | some v =>
      have hmem : (be64 id, v) ∈ s.store.iterator pinnedCodeIndexPrefix :=
        KVStore.mem_iterator.mpr hrow
      simp [h] at hmem
  either _ := .inl rfl
  code _ hid := by simp at hid
  circuit _ hid := by simp at hid
  named key v hkey hget := by
    obtain ⟨rest, rfl⟩ : ∃ rest, key = pinnedCodeIndexPrefix ++ rest := by
      cases key with
      | nil => simp [PinKey] at hkey
      | cons b rest =>
        obtain rfl : b = 0x07 := by simpa [PinKey] using hkey
        exact ⟨rest, rfl⟩
    have hmem := KVStore.mem_iterator.mpr hget
    simp [h] at hmem

/-! ## Reading the index back -/

/-- `hs` are the hashes of exactly the pinned ids, each of them once. -/
def Hashes (hash : UInt64 → Option Bytes) (pinned : UInt64 → Bool) (hs : List Bytes) : Prop :=
  ∃ ids : List UInt64, ids.Nodup ∧ (∀ id, id ∈ ids ↔ pinned id = true) ∧ ids.map hash = hs.map some

theorem exists_pinned {s : Store} (hnamed : FormedOn PinKey s) :
    ∃ ids : List UInt64, (s.iterator pinnedCodeIndexPrefix).map Prod.fst = ids.map be64 ∧ ids.Nodup ∧
      ∀ id, id ∈ ids ↔ (row s (.pin id)).isSome := by
  refine exists_ids Key.pin (fun _ => rfl) fun key v hget => ?_
  obtain ⟨name, hname, htag, -⟩ := hnamed.name rfl hget
  cases name with
  | pin id => exact ⟨id, (List.cons.inj hname).2⟩
  | _ => exact absurd htag (by simp [Key.tag])

theorem collectPinned_eq_ok (missing : UInt64 → Err) :
    ∀ ids : List UInt64, (∀ id ∈ ids, (hash id).isSome) →
      ∃ hs, collectPinned hash missing none (ids.map be64) = .ok hs ∧ ids.map hash = hs.map some
  | [], _ => ⟨[], rfl, rfl⟩
  | id :: ids, h => by
    obtain ⟨hs, hcollect, hhs⟩ :=
      collectPinned_eq_ok missing ids fun id' hid => h id' (by simp [hid])
    obtain ⟨h₀, hh₀⟩ := isSome_iff_exists.mp (h id (by simp))
    refine ⟨h₀ :: hs, ?_, by simp [hh₀, hhs]⟩
    simp [collectPinned, ofOption, hh₀, hcollect]

theorem mem_of_collectPinned {missing : UInt64 → Err}
    {exclude : Option UInt64} : ∀ {ids : List UInt64} {hs : List Bytes},
    collectPinned hash missing exclude (ids.map be64) = .ok hs →
    ∀ id ∈ ids, exclude ≠ some id → ∃ h ∈ hs, hash id = some h
  | [], _, _, _, hmem, _ => by simp at hmem
  | id :: ids, hs, heq, id', hmem, hne => by
    simp only [List.map_cons, collectPinned, bigEndianToUint64_be64, ofOption, ok_bind] at heq
    by_cases hexclude : exclude = some id
    · rw [if_pos hexclude] at heq
      rcases List.mem_cons.mp hmem with rfl | hmem
      · exact absurd hexclude hne
      · exact mem_of_collectPinned heq id' hmem hne
    · rw [if_neg hexclude] at heq
      cases hhash : hash id with
      | none => simp [hhash] at heq
      | some h =>
        simp only [hhash] at heq
        obtain ⟨rest, hrest, heq⟩ := bind_eq_ok.mp heq
        cases heq
        rcases List.mem_cons.mp hmem with rfl | hmem
        · exact ⟨h, List.mem_cons_self, hhash⟩
        · obtain ⟨h', hh', hid'⟩ := mem_of_collectPinned hrest id' hmem hne
          exact ⟨h', List.mem_cons_of_mem _ hh', hid'⟩

theorem mem_collectPinnedCircuitKeys {s : Store} (hs : Formed s) {exclude : Option UInt64} {keys : List Bytes}
    (h : collectPinnedCircuitKeys s exclude = .ok keys) {id : UInt64} (hpin : (row s (.pin id)).isSome)
    (hne : exclude ≠ some id) :
    ∃ info, row s (.circuit id) = some (.circuitInfo info) ∧ info.circuitHash ∈ keys := by
  obtain ⟨ids, hids, -, hmem⟩ := exists_pinned fun key v _ hget => hs key v trivial hget
  unfold collectPinnedCircuitKeys at h
  rw [show pinnedCircuitsIndexPrefix = pinnedCodeIndexPrefix from rfl, hids] at h
  obtain ⟨z, hz, hhash⟩ := mem_of_collectPinned h id ((hmem id).mpr hpin) hne
  obtain ⟨info, hinfo, rfl⟩ := map_eq_some_iff.mp hhash
  exact ⟨info, getCircuitInfo_eq_some.mp hinfo, hz⟩

theorem collectPinned_hashes {s : Store} (hash : UInt64 → Option Bytes) (missing : UInt64 → Err)
    {pinned : UInt64 → Bool} (hnamed : FormedOn PinKey s)
    (hpinned : ∀ id, (row s (.pin id)).isSome = pinned id)
    (hhash : ∀ id, pinned id = true → (hash id).isSome) :
    ∃ hs, Hashes hash pinned hs ∧
      collectPinned hash missing none ((s.iterator pinnedCodeIndexPrefix).map Prod.fst) = .ok hs := by
  obtain ⟨ids, hkeys, hnodup, hmem⟩ := exists_pinned hnamed
  have hids : ∀ id, id ∈ ids ↔ pinned id = true := fun id => by rw [hmem, hpinned]
  obtain ⟨hs, hcollect, hhs⟩ :=
    collectPinned_eq_ok missing ids fun id hid => hhash id ((hids id).mp hid)
  exact ⟨hs, ⟨ids, hnodup, hids, hhs⟩, by rw [hkeys, hcollect]⟩

/-! ## Independence -/

/-- The engine with the codes `hs` in memory, as on a restart. -/
def Keeper.loadCodes (k : Keeper ν β) (vm : ν) (hs : List Bytes) : Option ν :=
  if hs = [] then some vm else k.engine.syncPinnedCodes vm hs

def Keeper.loadCircuits (k : Keeper ν β) (vm : ν) (zs : List Bytes) : Option ν :=
  if zs = [] then some vm else k.engine.syncPinnedCircuits vm zs

/-- The two kinds of pins do not see each other: after a run both questions about an id have the answer of the last
operation of their kind, and both scans, also on a restart, return the hashes pinned of their kind. -/
structure PinsIndependent (k : Keeper ν β) (s : State ν β) (ops : List PinOp) : Prop where
  isPinnedCode_eq : ∀ id, isPinnedCode (run k.stepPin s ops).store id = k.codePinned s ops id
  isPinnedCircuit_eq : ∀ id, isPinnedCircuit (run k.stepPin s ops).store id = k.circuitPinned s ops id
  scans : ∃ hs zs vm vm',
    Hashes (codeHashOf (run k.stepPin s ops).store) (k.codePinned s ops) hs ∧
    Hashes (circuitHashOf (run k.stepPin s ops).store) (k.circuitPinned s ops) zs ∧
    collectPinnedChecksums (run k.stepPin s ops).store none = .ok hs ∧
    collectPinnedCircuitKeys (run k.stepPin s ops).store none = .ok zs ∧
    k.loadCodes (run k.stepPin s ops).vm hs = some vm ∧
    k.loadCircuits vm zs = some vm' ∧
    k.initializePinnedCodes (run k.stepPin s ops) = .ok vm ∧
    k.initalizedPinnedCodesAndCircuits (run k.stepPin s ops) = .ok vm'

theorem initializePinnedCodes_eq {hs : List Bytes} {vm : ν}
    (hcollect : collectPinnedChecksums s.store none = .ok hs) (hload : k.loadCodes s.vm hs = some vm) :
    k.initializePinnedCodes s = .ok vm := by
  rw [Keeper.initializePinnedCodes, hcollect, ok_bind]
  unfold Keeper.loadCodes at hload
  split_ifs at hload with hnil
  · rw [if_pos hnil, ← Option.some.inj hload, pure_eq]
  · rw [if_neg hnil, hload, engineOr]

theorem initalizedPinnedCodesAndCircuits_eq {zs : List Bytes} {vm vm' : ν}
    (hcodes : k.initializePinnedCodes s = .ok vm) (hcollect : collectPinnedCircuitKeys s.store none = .ok zs)
    (hload : k.loadCircuits vm zs = some vm') :
    k.initalizedPinnedCodesAndCircuits s = .ok vm' := by
  rw [Keeper.initalizedPinnedCodesAndCircuits, hcodes, ok_bind, hcollect, ok_bind]
  unfold Keeper.loadCircuits at hload
  split_ifs at hload with hnil
  · rw [if_pos hnil, ← Option.some.inj hload, pure_eq]
  · rw [if_neg hnil, hload, engineOr]

theorem loadCodes_isSome (h : ∀ vm hs, (k.engine.syncPinnedCodes vm hs).isSome) (vm : ν)
    (hs : List Bytes) : ∃ vm', k.loadCodes vm hs = some vm' := by
  unfold Keeper.loadCodes
  split_ifs
  · exact ⟨vm, rfl⟩
  · exact isSome_iff_exists.mp (h vm hs)

theorem loadCircuits_isSome (h : ∀ vm zs, (k.engine.syncPinnedCircuits vm zs).isSome) (vm : ν)
    (zs : List Bytes) : ∃ vm', k.loadCircuits vm zs = some vm' := by
  unfold Keeper.loadCircuits
  split_ifs
  · exact ⟨vm, rfl⟩
  · exact isSome_iff_exists.mp (h vm zs)

/-- **The two kinds of pins are independent after exactly those runs that leave the same ids pinned as
codes and as circuits.** -/
theorem pinsIndependent_iff (s : State ν β) (ops : List PinOp) (hempty : s.store.iterator pinnedCodeIndexPrefix = [])
    (hcodes : ∀ vm hs, (k.engine.syncPinnedCodes vm hs).isSome)
    (hcircuits : ∀ vm zs, (k.engine.syncPinnedCircuits vm zs).isSome) :
    PinsIndependent k s ops ↔ ∀ id, k.codePinned s ops id = k.circuitPinned s ops id := by
  constructor
  · intro h id
    exact (h.isPinnedCode_eq id).symm.trans (h.isPinnedCircuit_eq id)
  · intro h
    have htracks := (tracks_of_empty hempty).run (k := k) ops
    have hcode : ∀ id, (row (run k.stepPin s ops).store (.pin id)).isSome = k.codePinned s ops id := by
      intro id
      refine (htracks.index_eq id).trans ?_
      rcases htracks.either id with heq | heq
      · exact heq
      · exact heq.trans (h id).symm
    have hcircuit : ∀ id, (row (run k.stepPin s ops).store (.pin id)).isSome = k.circuitPinned s ops id :=
      fun id => (hcode id).trans (h id)
    obtain ⟨hs, hhs, hchecksums⟩ := collectPinned_hashes (codeHashOf (run k.stepPin s ops).store) noSuchCodeErr
      htracks.named hcode fun id hid => by
        rw [codeHashOf, isSome_map]
        exact htracks.code id hid
    obtain ⟨zs, hzs, hkeys⟩ := collectPinned_hashes (circuitHashOf (run k.stepPin s ops).store)
      (fun zkID => .wrap s!"zk-circuit id {zkID}" .noSuchCircuit)
      htracks.named hcircuit fun id hid => by
        rw [circuitHashOf, isSome_map]
        exact htracks.circuit id hid
    obtain ⟨vm, hvm⟩ := loadCodes_isSome hcodes (run k.stepPin s ops).vm hs
    obtain ⟨vm', hvm'⟩ := loadCircuits_isSome hcircuits vm zs
    have hinit := initializePinnedCodes_eq hchecksums hvm
    exact ⟨hcode, hcircuit, hs, zs, vm, vm', hhs, hzs, hchecksums, hkeys, hvm, hvm', hinit,
      initalizedPinnedCodesAndCircuits_eq hinit hkeys hvm'⟩

/-! ## A pinned circuit without a code of its id -/

def pinStore : Store :=
  let s := mustStoreCodeInfo .empty 1 ⟨List.replicate 32 0xc1, [], allowNobody⟩
  let s := mustStoreCircuitInfo s 1 ⟨List.replicate 72 0xa1, [], allowNobody, 0, 0, 0, 0⟩
  mustStoreCircuitInfo s 2 ⟨List.replicate 72 0xa2, [], allowNobody, 0, 0, 0, 0⟩

def pinKeeper : Keeper Files Unit := Tables.keeper {}

def pinState : State Files Unit := ⟨pinStore, {}, ()⟩

/-- Circuit 2 counts as a pinned code, and neither a further pin of a code nor a restart succeeds. -/
theorem pinnedCircuit_read_as_code :
    let s := run pinKeeper.stepPin pinState [.pinCode 1, .pinCircuit 2]
    ¬ PinsIndependent pinKeeper pinState [.pinCode 1, .pinCircuit 2] ∧
      pinKeeper.codePinned pinState [.pinCode 1, .pinCircuit 2] 2 = false ∧
      isPinnedCode s.store 2 = true ∧
      collectPinnedChecksums s.store none = .error (noSuchCodeErr 2) ∧
      (pinKeeper.pinCode s 1).isOk = false ∧
      (pinKeeper.initalizedPinnedCodesAndCircuits s).isOk = false := by
  refine ⟨fun h => ?_, by decide⟩
  exact absurd (h.isPinnedCode_eq 2) (by decide)

theorem pinsIndependent_same_id : PinsIndependent pinKeeper pinState
    [.pinCode 1, .pinCircuit 1, .pinCircuit 2, .removeCircuit 2] := by
  refine (pinsIndependent_iff pinState _ (by decide) (fun _ _ => rfl) fun _ _ => rfl).mpr ?_
  intro id
  have hok : Along pinKeeper.stepPin (fun s op => (pinKeeper.execPin s op).isOk = true) pinState
      [.pinCode 1, .pinCircuit 1, .pinCircuit 2, .removeCircuit 2] := by decide
  obtain ⟨h₁, h₂, h₃, h₄, -⟩ := hok
  by_cases hid : 2 = id
  · subst hid
    simp [Keeper.codePinned, Keeper.circuitPinned, Keeper.lastEffect, PinOp.codeEffect, PinOp.circuitEffect, h₄]
  · simp [Keeper.codePinned, Keeper.circuitPinned, Keeper.lastEffect, PinOp.codeEffect,
      PinOp.circuitEffect, h₁, h₂, hid]

end Wasm
