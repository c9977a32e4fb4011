/-
  What an import writes.
-/
import TerpCore.Wasm.Genesis
import TerpCore.Wasm.System

namespace Wasm

open Lib Outcome KVStore List FormedOn

variable {ν β : Type} {k : Keeper ν β}

/-! ## Rows after a list of writes -/

section folds

variable {α : Type} {w : Store → α → Store} {key : Key}

theorem row_foldl_eq : ∀ (as : List α) (t : Store), (∀ a ∈ as, ∀ t, row (w t a) key = row t key) →
    row (as.foldl w t) key = row t key
  | [], _, _ => rfl
  | a :: as, t, hw => by
    rw [foldl_cons, row_foldl_eq as (w t a) fun b hb => hw b (by simp [hb]), hw a (by simp)]

theorem isSome_row_foldl {P : α → Prop}
    (hw : ∀ t a, (row (w t a) key).isSome ↔ P a ∨ (row t key).isSome) : ∀ (as : List α) (t : Store),
    (row (as.foldl w t) key).isSome ↔ (∃ a ∈ as, P a) ∨ (row t key).isSome
  | [], t => by simp
  | a :: as, t => by
    rw [foldl_cons, isSome_row_foldl hw as (w t a), hw]
    simp only [mem_cons, exists_eq_or_imp]
    rw [or_left_comm, or_assoc]

theorem row_foldl_of_mem (name : α → Key) (value : α → Value) (hself : ∀ t a, row (w t a) (name a) = some (value a))
    (hother : ∀ t a b, name b ≠ name a → row (w t b) (name a) = row t (name a)) :
    ∀ (as : List α) (t : Store), (as.map name).Nodup → ∀ a ∈ as, row (as.foldl w t) (name a) = some (value a)
  | [], _, _, a, ha => by cases ha
  | b :: as, t, hnodup, a, ha => by
    obtain ⟨hb, hnodup⟩ := nodup_cons.mp hnodup
    rw [foldl_cons]
    rcases mem_cons.mp ha with rfl | ha
    · rw [row_foldl_eq as _ fun c hc t => hother t a c fun heq => hb (heq ▸ mem_map_of_mem hc), hself]
    · exact row_foldl_of_mem name value hself hother as _ hnodup a ha

end folds

/-! ## Entries -/

def pinIf (pinned : Bool) (id : UInt64) (t : Store) : Store :=
  if pinned then put t (.pin id) (.raw [1]) else t

theorem row_pinIf {pinned : Bool} {id : UInt64} {t : Store} {key : Key} (hkey : key ≠ .pin id) :
    row (pinIf pinned id t) key = row t key := by
  unfold pinIf
  split_ifs
  · exact row_put_of_ne (Ne.symm hkey)
  · rfl

theorem isSome_row_pinIf {pinned : Bool} {id id' : UInt64} {t : Store} :
    (row (pinIf pinned id t) (.pin id')).isSome ↔ (pinned = true ∧ id = id') ∨ (row t (.pin id')).isSome := by
  unfold pinIf
  by_cases hid : id = id' <;> cases pinned <;> simp [row_put, hid]

theorem formed_pinIf {s : Store} (h : Formed s) {pinned : Bool} {id : UInt64} : Formed (pinIf pinned id s) := by
  unfold pinIf
  split_ifs
  · exact FormedOn.put h trivial
  · exact h

/-- What the import of a circuit stores as its bytes. -/
def Keeper.unzipped (k : Keeper ν β) (b : Bytes) : Bytes :=
  (k.uncompressIfGzip b maxInt64 "uncompress wasm archive").orElse b

def Code.write (t : Store) (c : Code) : Store :=
  pinIf c.pinned c.codeID (put t (.code c.codeID) (.codeInfo c.codeInfo))

def VkParam.write (t : Store) (p : VkParam) : Store :=
  put (put t (.vkParam p.paramID) (.vkParamInfo ⟨p.paramID, p.creator, p.paramKey⟩))
    (.vkParamBytes p.paramID) (.raw p.paramBytes)

def Keeper.writeCircuit (k : Keeper ν β) (t : Store) (c : Circuit) : Store :=
  pinIf c.pinned c.zkID (put (put t (.circuit c.zkID) (.circuitInfo c.zkInfo))
    (.circuitBytes c.zkID) (.raw (k.unzipped c.zkBytes)))

def Sequence.write (t : Store) (seq : Sequence) : Store := t.set seq.idKey (.raw (be64 seq.value))

section entries

variable {s s' : State ν β} {i : ℕ}

theorem has_eq_false_iff {t : Store} (key : Key) : t.has key.encode = false ↔ row t key = none := by
  change (row t key).isSome = false ↔ _
  simp

theorem importCode_eq_ok {id : UInt64} {info : CodeInfo} {b : Bytes} (h : k.importCode s id info b = .ok s') :
    row s.store (.code id) = none ∧ s'.store = put s.store (.code id) (.codeInfo info) := by
  simp only [Keeper.importCode, bind_eq_ok, require_eq_ok] at h
  obtain ⟨code, -, ⟨checksum, vm⟩, -, -, -, -, hnew, h⟩ := h
  cases h
  exact ⟨(has_eq_false_iff _).mp ((Bool.not_eq_true' _).mp hnew), rfl⟩

theorem importCodeEntry_eq_ok {c : Code} (h : k.importCodeEntry i s c = .ok s') :
    row s.store (.code c.codeID) = none ∧ s'.store = c.write s.store := by
  obtain ⟨t, hcode, h⟩ := bind_eq_ok.mp h
  obtain ⟨hnew, ht⟩ := importCode_eq_ok (wrapErr_eq_ok.mp hcode)
  refine ⟨hnew, ?_⟩
  rw [Code.write, ← ht, pinIf]
  split_ifs at h ⊢ with hpin
  · exact (pinCode_eq_ok (wrapErr_eq_ok.mp h)).2.1
  · cases h
    rfl

theorem importVkParamEntry_eq_ok {p : VkParam} (hkey : p.paramKey.length = 36)
    (h : k.importVkParamEntry i s p = .ok s') : s'.store = p.write s.store := by
  have hne : p.paramKey ≠ [] := by
    rintro hnil
    simp [hnil] at hkey
  simp only [Keeper.importVkParamEntry, Keeper.importVkParam, wrapErr_eq_ok, bind_eq_ok,
    require_eq_ok, Bool.or_eq_true, beq_iff_eq, hne, false_or] at h
  obtain ⟨-, -, ⟨key, vm⟩, -, -, -, _, rfl, h⟩ := h
  cases h
  rfl

theorem importCircuit_eq_ok {id : UInt64} {info : CircuitInfo} {b : Bytes} (h : k.importCircuit s id info b = .ok s') :
    row s.store (.circuit id) = none ∧ s'.store =
      put (put s.store (.circuit id) (.circuitInfo info)) (.circuitBytes id) (.raw (k.unzipped b)) := by
  simp only [Keeper.importCircuit, bind_eq_ok, require_eq_ok] at h
  obtain ⟨blob, hblob, -, -, vm, -, ⟨key, vm'⟩, -, -, -, -, hnew, h⟩ := h
  cases h
  refine ⟨(has_eq_false_iff _).mp ((Bool.not_eq_true' _).mp hnew), ?_⟩
  rw [Keeper.unzipped, hblob]
  rfl

theorem importCircuitEntry_eq_ok {c : Circuit} (h : k.importCircuitEntry i s c = .ok s') :
    row s.store (.circuit c.zkID) = none ∧ s'.store = k.writeCircuit s.store c ∧
      (c.pinned = true → (row s.store (.code c.zkID)).isSome) := by
  obtain ⟨t, hcircuit, h⟩ := bind_eq_ok.mp h
  obtain ⟨hnew, ht⟩ := importCircuit_eq_ok (wrapErr_eq_ok.mp hcircuit)
  refine ⟨hnew, ?_⟩
  rw [Keeper.writeCircuit, ← ht, pinIf]
  split_ifs at h ⊢ with hpin
  · obtain ⟨hcode, hstore, -⟩ := pinCode_eq_ok (wrapErr_eq_ok.mp h)
    obtain ⟨info, hinfo⟩ := Option.isSome_iff_exists.mp hcode
    rw [getCodeInfo_eq_some, ht, row_put_of_ne (by simp), row_put_of_ne (by simp)] at hinfo
    exact ⟨hstore, fun _ => by rw [hinfo]; rfl⟩
  · cases h
    exact ⟨rfl, fun hpinned => absurd hpinned hpin⟩

theorem importSequenceEntry_eq_ok {t t' : Store} {seq : Sequence}
    (h : importSequenceEntry i t seq = .ok t') : t.has seq.idKey = false ∧ t' = seq.write t := by
  simp only [importSequenceEntry, importAutoIncrementID, wrapErr_eq_ok, bind_eq_ok, require_eq_ok] at h
  obtain ⟨-, hnew, h⟩ := h
  cases h
  exact ⟨by simpa using hnew, rfl⟩

end entries

/-! ## Lists of entries -/

section lists

variable {s s' : State ν β}

theorem row_code_write {t : Store} {c : Code} {key : Key} (hcode : key ≠ .code c.codeID)
    (hpin : key ≠ .pin c.codeID) : row (c.write t) key = row t key := by
  rw [Code.write, row_pinIf hpin, row_put_of_ne (Ne.symm hcode)]

theorem row_writeCircuit {t : Store} {c : Circuit} {key : Key} (hcircuit : key ≠ .circuit c.zkID)
    (hbytes : key ≠ .circuitBytes c.zkID) (hpin : key ≠ .pin c.zkID) :
    row (k.writeCircuit t c) key = row t key := by
  rw [Keeper.writeCircuit, row_pinIf hpin, row_put_of_ne (Ne.symm hbytes), row_put_of_ne (Ne.symm hcircuit)]

theorem row_vkParam_write {t : Store} {p : VkParam} {key : Key} (hparam : key ≠ .vkParam p.paramID)
    (hbytes : key ≠ .vkParamBytes p.paramID) : row (p.write t) key = row t key := by
  rw [VkParam.write, row_put_of_ne (Ne.symm hbytes), row_put_of_ne (Ne.symm hparam)]

theorem importCodes_eq_ok {codes : List Code} {i : ℕ} (h : forEach k.importCodeEntry i s codes = .ok s') :
    s'.store = codes.foldl Code.write s.store ∧ (codes.map Code.codeID).Nodup := by
  have hfresh := forEach_fresh (U := fun s id => (row s.store (.code id)).isSome)
    (K := Code.codeID) (fun i s c s' h => by
      obtain ⟨hnew, hstore⟩ := importCodeEntry_eq_ok h
      refine ⟨by simp [hnew], fun id => ?_⟩
      rw [hstore, Code.write, row_pinIf (by simp), isSome_row_put, Key.code.injEq]) codes i s s' h
  exact ⟨forEach_foldl
    (fun i s c s' _ h => (importCodeEntry_eq_ok h).2) codes i s s' (fun _ _ => trivial) h, hfresh.1⟩

theorem importVkParams_eq_ok {ps : List VkParam} {i : ℕ} (hps : ∀ p ∈ ps, p.paramKey.length = 36)
    (h : forEach k.importVkParamEntry i s ps = .ok s') :
    s'.store = ps.foldl VkParam.write s.store :=
  forEach_foldl (fun _ _ _ _ => importVkParamEntry_eq_ok) ps i s s' hps h

theorem importCircuits_eq_ok {circuits : List Circuit} {i : ℕ}
    (h : forEach k.importCircuitEntry i s circuits = .ok s') :
    s'.store = circuits.foldl k.writeCircuit s.store ∧ (circuits.map Circuit.zkID).Nodup ∧
      ∀ c ∈ circuits, c.pinned = true → (row s.store (.code c.zkID)).isSome := by
  have hfresh := forEach_fresh (U := fun s id => (row s.store (.circuit id)).isSome)
    (K := Circuit.zkID) (fun i s c s' h => by
      obtain ⟨hnew, hstore, -⟩ := importCircuitEntry_eq_ok h
      refine ⟨by simp [hnew], fun id => ?_⟩
      rw [hstore, Keeper.writeCircuit, row_pinIf (by simp), row_put_of_ne (by simp),
        isSome_row_put, Key.circuit.injEq]) circuits i s s' h
  -- no circuit writes a code, so that the codes are those of the state before the loop
  have hpins := forEach_eq_ok
    (I := fun t : State ν β => ∀ id, row t.store (.code id) = row s.store (.code id))
    (fun i t c t' h ht => by
      obtain ⟨-, hstore, hpin⟩ := importCircuitEntry_eq_ok h
      refine ⟨fun id => ?_, fun hpinned => ht c.zkID ▸ hpin hpinned⟩
      rw [hstore, row_writeCircuit (by simp) (by simp) (by simp), ht id]) circuits i s s' h fun _ => rfl
  exact ⟨forEach_foldl (fun i s c s' _ h => (importCircuitEntry_eq_ok h).2.1) circuits i s s' (fun _ _ => trivial) h,
    hfresh.1, hpins.2⟩

theorem importSequences_eq_ok {seqs : List Sequence} {i : ℕ} {t t' : Store}
    (h : forEach importSequenceEntry i t seqs = .ok t') :
    t' = seqs.foldl Sequence.write t ∧ (seqs.map Sequence.idKey).Nodup ∧ ∀ seq ∈ seqs, t.has seq.idKey = false := by
  have hfresh := forEach_fresh (U := fun t key => t.has key = true) (K := Sequence.idKey)
    (fun i t seq t' h => by
      obtain ⟨hnew, rfl⟩ := importSequenceEntry_eq_ok h
      refine ⟨by simp [hnew], fun key => ?_⟩
      rw [Sequence.write, has, get_set]
      by_cases hkey : seq.idKey = key
      · simp [hkey]
      · simp [hkey, Ne.symm hkey, has]) seqs i t t' h
  exact ⟨forEach_foldl (g := id) (fun i t seq t' _ h => (importSequenceEntry_eq_ok h).2) seqs i t t'
    (fun _ _ => trivial) h, hfresh.1, fun seq hseq => by simpa using hfresh.2 seq hseq⟩

end lists

theorem maxID_lt_iff {ids : List UInt64} {next : UInt64} : maxID ids < next ↔ 0 < next ∧ ∀ id ∈ ids, id < next := by
  have hfold : ∀ (ids : List UInt64) (m : UInt64),
      ids.foldl (fun m id => if m < id then id else m) m < next ↔ m < next ∧ ∀ id ∈ ids, id < next := by
    intro ids
    induction ids with
    | nil => simp
    | cons id ids ih =>
      intro m
      have hmax : (if m < id then id else m) < next ↔ m < next ∧ id < next := by
        simp only [UInt64.lt_iff_toNat_lt]
        split_ifs <;> omega
      rw [foldl_cons, ih, hmax, forall_mem_cons, and_assoc]
  exact hfold ids 0

/-! ## The whole state -/

/-- The records an import into an empty store writes. -/
def Keeper.recorded (k : Keeper ν β) (data : GenesisState) : Store :=
  data.circuits.foldl k.writeCircuit
    (data.vkParams.foldl VkParam.write (data.codes.foldl Code.write (initialStore data.params)))

/-- The store an import into an empty store ends with. -/
def Keeper.written (k : Keeper ν β) (data : GenesisState) : Store :=
  data.sequences.foldl Sequence.write (k.recorded data)

section recorded

variable {data : GenesisState} {id : UInt64}

/-- The rows of records. -/
def Key.recordedAs (id : UInt64) : List Key :=
  [.code id, .vkParam id, .vkParamBytes id, .circuit id, .circuitBytes id, .pin id]

theorem row_recorded_eq_none {key : Key} (hparams : key ≠ .params)
    (hkey : ∀ id, key ∉ Key.recordedAs id) : row (k.recorded data) key = none := by
  simp only [Key.recordedAs, mem_cons, not_mem_nil, or_false, not_or] at hkey
  rw [Keeper.recorded, row_foldl_eq _ _ fun c _ t => ?_, row_foldl_eq _ _ fun p _ t => ?_,
    row_foldl_eq _ _ fun c _ t => ?_, row_initialStore hparams]
  · exact row_code_write (hkey _).1 (hkey _).2.2.2.2.2
  · exact row_vkParam_write (hkey _).2.1 (hkey _).2.2.1
  · exact row_writeCircuit (hkey _).2.2.2.1 (hkey _).2.2.2.2.1 (hkey _).2.2.2.2.2

theorem isSome_row_code_recorded : (row (k.recorded data) (.code id)).isSome ↔ ∃ c ∈ data.codes, c.codeID = id := by
  rw [Keeper.recorded, row_foldl_eq _ _ fun c _ t => row_writeCircuit (by simp) (by simp) (by simp),
    row_foldl_eq _ _ fun p _ t => row_vkParam_write (by simp) (by simp),
    isSome_row_foldl (P := fun c : Code => c.codeID = id) fun t c => ?_, row_initialStore (by simp)]
  · simp
  · rw [Code.write, row_pinIf (by simp), isSome_row_put, Key.code.injEq, eq_comm]

theorem isSome_row_vkParam_recorded :
    (row (k.recorded data) (.vkParam id)).isSome ↔ ∃ p ∈ data.vkParams, p.paramID = id := by
  rw [Keeper.recorded, row_foldl_eq _ _ fun c _ t => row_writeCircuit (by simp) (by simp) (by simp),
    isSome_row_foldl (P := fun p : VkParam => p.paramID = id) fun t p => ?_,
    row_foldl_eq _ _ fun c _ t => row_code_write (by simp) (by simp), row_initialStore (by simp)]
  · simp
  · rw [VkParam.write, row_put_of_ne (by simp), isSome_row_put, Key.vkParam.injEq, eq_comm]

theorem isSome_row_circuit_recorded :
    (row (k.recorded data) (.circuit id)).isSome ↔ ∃ c ∈ data.circuits, c.zkID = id := by
  rw [Keeper.recorded, isSome_row_foldl (P := fun c : Circuit => c.zkID = id) fun t c => ?_,
    row_foldl_eq _ _ fun p _ t => row_vkParam_write (by simp) (by simp),
    row_foldl_eq _ _ fun c _ t => row_code_write (by simp) (by simp), row_initialStore (by simp)]
  · simp
  · rw [Keeper.writeCircuit, row_pinIf (by simp), row_put_of_ne (by simp), isSome_row_put, Key.circuit.injEq, eq_comm]

theorem isSome_row_circuitBytes_recorded :
    (row (k.recorded data) (.circuitBytes id)).isSome ↔ ∃ c ∈ data.circuits, c.zkID = id := by
  rw [Keeper.recorded, isSome_row_foldl (P := fun c : Circuit => c.zkID = id) fun t c => ?_,
    row_foldl_eq _ _ fun p _ t => row_vkParam_write (by simp) (by simp),
    row_foldl_eq _ _ fun c _ t => row_code_write (by simp) (by simp), row_initialStore (by simp)]
  · simp
  · rw [Keeper.writeCircuit, row_pinIf (by simp), isSome_row_put, row_put_of_ne (by simp),
      Key.circuitBytes.injEq, eq_comm]

theorem row_circuitBytes_recorded (hnodup : (data.circuits.map Circuit.zkID).Nodup) {c : Circuit}
    (hc : c ∈ data.circuits) :
    row (k.recorded data) (.circuitBytes c.zkID) = some (.raw (k.unzipped c.zkBytes)) := by
  have hnames : (data.circuits.map fun c => Key.circuitBytes c.zkID).Nodup := by
    have hmap := hnodup.map fun _ _ => Key.circuitBytes.inj
    rwa [map_map] at hmap
  refine row_foldl_of_mem (w := k.writeCircuit) (fun c => .circuitBytes c.zkID)
    (fun c => .raw (k.unzipped c.zkBytes)) (fun t c => ?_) (fun t c c' hne => ?_) _ _ hnames c hc
  · rw [Keeper.writeCircuit, row_pinIf (by simp), row_put_self]
  · exact row_writeCircuit (by simp) (Ne.symm hne) (by simp)

theorem isSome_row_pin_recorded :
    (row (k.recorded data) (.pin id)).isSome ↔ (∃ c ∈ data.codes, c.pinned = true ∧ c.codeID = id) ∨
        ∃ c ∈ data.circuits, c.pinned = true ∧ c.zkID = id := by
  rw [Keeper.recorded, isSome_row_foldl (P := fun c : Circuit => c.pinned = true ∧ c.zkID = id) fun t c => ?_,
    row_foldl_eq _ _ fun p _ t => row_vkParam_write (by simp) (by simp),
    isSome_row_foldl (P := fun c : Code => c.pinned = true ∧ c.codeID = id) fun t c => ?_,
    row_initialStore (by simp), or_comm]
  · simp
  · rw [Code.write, isSome_row_pinIf, row_put_of_ne (by simp)]
  · rw [Keeper.writeCircuit, isSome_row_pinIf, row_put_of_ne (by simp), row_put_of_ne (by simp)]

end recorded

/-! Sequences of the module only. -/

section named

variable {data : GenesisState} (hseqs : ∀ seq ∈ data.sequences, ∃ q : Seq, seq.idKey = q.key)

theorem sequence_write_eq {seq : Sequence} {q : Seq} (h : seq.idKey = q.key) (t : Store) :
    seq.write t = put t (.seq q) (.raw (be64 seq.value)) := by
  rw [Sequence.write, h]
  rfl

include hseqs

theorem row_written {key : Key} (hkey : ∀ q, key ≠ .seq q) : row (k.written data) key = row (k.recorded data) key := by
  refine row_foldl_eq _ _ fun seq hseq t => ?_
  obtain ⟨q, hq⟩ := hseqs seq hseq
  rw [sequence_write_eq hq, row_put_of_ne (Ne.symm (hkey q))]

theorem formed_written : Formed (k.written data) := by
  refine List.foldlRecOn data.sequences Sequence.write ?_ fun t ht seq hseq => ?_
  · refine List.foldlRecOn data.circuits k.writeCircuit ?_ fun t ht c _ => ?_
    · refine List.foldlRecOn data.vkParams VkParam.write ?_ fun t ht p _ => ?_
      · refine List.foldlRecOn data.codes Code.write (initialStore_formed _) fun t ht c _ => ?_
        refine formed_pinIf (FormedOn.put ht ?_)
        exact trivial
      · refine FormedOn.put (FormedOn.put ht ?_) ?_ <;> exact trivial
    · refine formed_pinIf (FormedOn.put (FormedOn.put ht ?_) ?_) <;> exact trivial
  · obtain ⟨q, hq⟩ := hseqs seq hseq
    rw [sequence_write_eq hq]
    exact FormedOn.put ht (length_be64 _)

end named

section accepted

variable {data : GenesisState} {s' : State ν β} {vm : ν} {app : β}

theorem crossRefs_key_length (h : k.validateGenesisParamCircuitCrossRefs data = .ok ()) :
    ∀ p ∈ data.vkParams, p.paramKey.length = 36 := by
  obtain ⟨byKey, hparams, -⟩ := bind_eq_ok.mp h
  refine (forEach_eq_ok (fun i byKey p byKey' hp _ => ⟨trivial, ?_⟩) data.vkParams 0 ∅ byKey hparams trivial).2
  simp only [Keeper.checkVkParam, bind_eq_ok, require_eq_ok] at hp
  obtain ⟨-, hlen, -⟩ := hp
  simpa using hlen

/-- What an accepted genesis meets. -/
structure Accepted (k : Keeper ν β) (data : GenesisState) : Prop where
  crossRefs : k.validateGenesisParamCircuitCrossRefs data = .ok ()
  codes : (data.codes.map Code.codeID).Nodup
  circuits : (data.circuits.map Circuit.zkID).Nodup
  /-- a pinned circuit has the id of a code -/
  pinned : ∀ c ∈ data.circuits, c.pinned = true → ∃ d ∈ data.codes, d.codeID = c.zkID
  sequences : (data.sequences.map Sequence.idKey).Nodup ∧
    ∀ seq ∈ data.sequences, (k.recorded data).has seq.idKey = false
  checks : k.checkSequences (k.written data) (maxID (data.codes.map Code.codeID))
    (maxID (data.circuits.map Circuit.zkID)) = .ok ()

theorem initGenesis_eq_ok (h : k.initGenesis ⟨.empty, vm, app⟩ data = .ok s') :
    s'.store = k.written data ∧ Accepted k data := by
  unfold Keeper.initGenesis at h
  cases hrefs : k.validateGenesisParamCircuitCrossRefs data with
  | error | panicked => simp [hrefs] at h
  | ok u =>
    simp only [hrefs, bind_eq_ok] at h
    obtain ⟨s₁, hcodes, s₂, hparams, s₃, hcircuits, t, hseqs, _, hchecks, h⟩ := h
    cases h
    obtain ⟨hs₁, hnodup⟩ := importCodes_eq_ok hcodes
    have hs₂ := importVkParams_eq_ok (crossRefs_key_length hrefs) hparams
    obtain ⟨hs₃, hnodup', hpinned⟩ := importCircuits_eq_ok hcircuits
    have hrecorded : s₃.store = k.recorded data := by
      rw [hs₃, hs₂, hs₁]
      rfl
    obtain ⟨ht, hkeys⟩ := importSequences_eq_ok hseqs
    rw [hrecorded] at ht hkeys
    subst ht
    refine ⟨rfl, hrefs, hnodup, hnodup', fun c hc hpin => ?_, hkeys, hchecks⟩
    -- the codes of the state after the parameters are those of the whole import
    have hcode := hpinned c hc hpin
    rw [← isSome_row_code_recorded, ← hrecorded, hs₃,
      row_foldl_eq _ _ fun c _ t => row_writeCircuit (by simp) (by simp) (by simp)]
    exact hcode

end accepted

end Wasm
