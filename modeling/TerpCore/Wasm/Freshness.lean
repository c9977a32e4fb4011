/-
  New ids after an import.
-/
import TerpCore.Wasm.Import

namespace Wasm

open Lib Outcome List Tables

variable {ν β : Type} {k : Keeper ν β}

/-! ## Uploads -/

/-- The id is new, and every record stays as it is. -/
def TakesFresh (name : UInt64 → Key) (id : UInt64) (s s' : Store) : Prop :=
  row s (name id) = none ∧
    ∀ {key : Key} {v : Value}, key.numbered.isSome → row s key = some v → row s' key = some v

/-- No upload in this state takes an id that is in use. -/
structure UploadsFresh (k : Keeper ν β) (s : State ν β) : Prop where
  create : ∀ {creator wasmCode access authZ id s'},
    k.create s creator wasmCode access authZ = .ok (id, s') → TakesFresh .code id s.store s'.store
  storeVkParam : ∀ {blockTime creator hasAuth paramBytes authZ id s'},
    k.storeVkParam s blockTime creator hasAuth paramBytes authZ = .ok (id, s') →
    TakesFresh .vkParam id s.store s'.store
  storeCircuit : ∀ {blockTime creator paramID vkBody access authZ id s'},
    k.storeCircuit s blockTime creator paramID vkBody access authZ = .ok (id, s') →
    TakesFresh .circuit id s.store s'.store
  storeFullCircuit : ∀ {blockTime creator hasAuth paramBytes vkBody authZ paramID id s'},
    k.storeFullCircuit s blockTime creator hasAuth paramBytes vkBody authZ = .ok (paramID, id, s') →
    TakesFresh .vkParam paramID s.store s'.store ∧ TakesFresh .circuit id s.store s'.store

theorem Below.row_next {s : Store} (h : Below s) {key : Key} {q : Seq} {id : UInt64}
    (hkey : key.numbered = some (q, id)) (hid : peekAutoIncrementID s q.key = .ok id) :
    row s key = none := by
  cases hrow : row s key with
  | none => rfl
  | some v => exact absurd (h.lt hkey (by rw [hrow]; rfl) hid) (Nat.lt_irrefl _)

theorem Below.keeps {s t : Store} (h : Below s) {q : Seq} {id : UInt64} (halloc : Alloc q id s t)
    {key : Key} {v : Value} (hkey : key.numbered.isSome) (hrow : row s key = some v) :
    row t key = some v := by
  rw [halloc.rows hkey fun hnew => ?_, hrow]
  simp [h.row_next hnew halloc.next] at hrow

theorem uploadsFresh_of_below {s : State ν β} (h : Below s.store) : UploadsFresh k s where
  create heq := ⟨h.row_next rfl (create_alloc heq).next, h.keeps (create_alloc heq)⟩
  storeVkParam heq := ⟨h.row_next rfl (storeVkParam_alloc heq).next, h.keeps (storeVkParam_alloc heq)⟩
  storeCircuit heq := ⟨h.row_next rfl (storeCircuit_alloc heq).next, h.keeps (storeCircuit_alloc heq)⟩
  storeFullCircuit {_ _ _ _ _ _ paramID id s'} heq := by
    obtain ⟨t, hparam, hcircuit⟩ := storeFullCircuit_eq_ok heq
    have hfirst := storeVkParam_alloc hparam
    have hsecond := storeCircuit_alloc hcircuit
    -- the parameters have not moved the sequence of circuits
    have hnext : peekAutoIncrementID s.store Seq.circuit.key = .ok id := by
      rw [← peekAutoIncrementID_congr (hfirst.seq .circuit (by simp))]
      exact hsecond.next
    have hkeeps : ∀ {key : Key} {v : Value}, key.numbered.isSome → row s.store key = some v →
        row s'.store key = some v := by
      intro key v hkey hrow
      rw [hsecond.rows hkey fun hnew => ?_, h.keeps hfirst hkey hrow]
      simp [h.row_next hnew hnext] at hrow
    exact ⟨⟨h.row_next rfl hfirst.next, hkeeps⟩, ⟨h.row_next rfl hnext, hkeeps⟩⟩

/-! ## Runs -/

/-- The sequence is not at its last value. -/
def Seq.hasRoom (s : Store) (q : Seq) : Bool :=
  match peekAutoIncrementID s q.key with
  | .ok id => id.toNat + 1 < 2 ^ 64
  | _ => true

/-- The sequences that an operation moves are not at their last value. -/
def Op.hasRoom (s : Store) (op : Op) : Bool := op.sequences.all (Seq.hasRoom s)

theorem Op.sequences_nodup (op : Op) : op.sequences.Nodup := by
  cases op <;> simp [Op.sequences]

theorem Below.allocs {qs : List Seq} {s t : Store} (halloc : Allocs qs s t) :
    qs.Nodup → (∀ q ∈ qs, q.hasRoom s = true) → Below s → Below t := by
  induction halloc with
  | quiet hseq hrows =>
    refine fun _ _ h => ⟨fun {key q id next} hkey hrow hpeek => ?_⟩
    rw [peekAutoIncrementID_congr (hseq q)] at hpeek
    exact h.lt hkey (hrows key (by rw [hkey]; rfl) hrow) hpeek
  | @cons q id qs s t u hfirst _ ih =>
    intro hnodup hroom h
    obtain ⟨hq, hnodup⟩ := nodup_cons.mp hnodup
    have hroom₁ : id.toNat + 1 < 2 ^ 64 := by
      have hq' := hroom q (by simp)
      rw [Seq.hasRoom, hfirst.next] at hq'
      simpa using hq'
    refine ih hnodup (fun q' hq' => ?_) (h.alloc hfirst hroom₁)
    have hne : q' ≠ q := fun heq => hq (heq ▸ hq')
    rw [Seq.hasRoom, peekAutoIncrementID_congr (hfirst.seq q' hne)]
    exact hroom q' (by simp [hq'])

theorem run_below {s : State ν β} {ops : List Op} (hs : Formed s.store) (h : Below s.store)
    (hroom : Along k.step (fun s op => op.hasRoom s.store = true) s ops) :
    Below (run k.step s ops).store := by
  refine (run_invariant (I := fun s : State ν β => Formed s.store ∧ Below s.store) ?_ s ops hroom ⟨hs, h⟩).2
  rintro s op ⟨hs, h⟩ hroom
  refine orElse_elim (P := fun t : State ν β => Formed t.store ∧ Below t.store) ⟨hs, h⟩ fun s' heq => ?_
  exact ⟨exec_formed hs heq, Below.allocs (exec_allocs hs heq) op.sequences_nodup (all_eq_true.mp hroom) h⟩

/-! ## After an import -/

/-- The next id of a sequence after an import. -/
def GenesisState.next (data : GenesisState) (q : Seq) : UInt64 :=
  ((data.sequences.find? fun seq => seq.idKey = q.key).map Sequence.value).getD 1

theorem get_sequences (key : Bytes) : ∀ (seqs : List Sequence) (t : Store),
    (seqs.map Sequence.idKey).Nodup → (seqs.foldl Sequence.write t).get key =
      ((seqs.find? fun seq => seq.idKey = key).map fun seq => Value.raw (be64 seq.value)).or (t.get key)
  | [], t, _ => by simp
  | seq :: seqs, t, hnodup => by
    obtain ⟨hseq, hnodup⟩ := nodup_cons.mp hnodup
    rw [foldl_cons, get_sequences key seqs _ hnodup, Sequence.write, KVStore.get_set]
    by_cases hkey : seq.idKey = key
    · have hnone : seqs.find? (fun seq => seq.idKey = key) = none := by
        refine List.find?_eq_none.mpr fun seq' hseq' => ?_
        simp only [decide_eq_true_eq]
        exact fun heq => hseq (hkey ▸ heq ▸ mem_map_of_mem hseq')
      simp [hkey, hnone]
    · simp [hkey]

theorem peek_written {data : GenesisState} (h : Accepted k data) (q : Seq) :
    peekAutoIncrementID (k.written data) q.key = .ok (data.next q) := by
  have hnone : row (k.recorded data) (.seq q) = none :=
    row_recorded_eq_none (by simp) (by simp [Key.recordedAs])
  change (k.recorded data).get q.key = none at hnone
  rw [peekAutoIncrementID, Keeper.written, get_sequences _ _ _ h.sequences.1, hnone, GenesisState.next]
  cases data.sequences.find? fun seq => seq.idKey = q.key with
  | none => rfl
  | some seq => simp

theorem below_written {data : GenesisState} (h : Accepted k data)
    (hseqs : ∀ seq ∈ data.sequences, ∃ q : Seq, seq.idKey = q.key)
    (hparams : ∀ p ∈ data.vkParams, p.paramID < data.next .vkParam) : Below (k.written data) := by
  have hcode := peek_written h .code
  have hcircuit := peek_written h .circuit
  have hchecks := h.checks
  simp only [Seq.key] at hcode hcircuit
  simp only [Keeper.checkSequences, hcode, hcircuit, ok_bind, bind_eq_ok, require_eq_ok, decide_eq_true_eq] at hchecks
  obtain ⟨-, hcodes, -, hcircuits, -⟩ := hchecks
  refine ⟨fun {key q id next} hkey hrow hpeek => ?_⟩
  obtain rfl : data.next q = next := ok.inj ((peek_written h q).symm.trans hpeek)
  rw [row_written hseqs (by rintro q' rfl; cases hkey)] at hrow
  cases key with
  | code id' =>
    cases hkey
    obtain ⟨c, hc, rfl⟩ := isSome_row_code_recorded.mp hrow
    exact (maxID_lt_iff.mp hcodes).2 _ (mem_map_of_mem hc)
  | vkParam id' =>
    cases hkey
    obtain ⟨p, hp, rfl⟩ := isSome_row_vkParam_recorded.mp hrow
    exact hparams p hp
  | circuit id' =>
    cases hkey
    obtain ⟨c, hc, rfl⟩ := isSome_row_circuit_recorded.mp hrow
    exact (maxID_lt_iff.mp hcircuits).2 _ (mem_map_of_mem hc)
  | _ => cases hkey

/-- **After every import whose parameters are below their sequence, uploads take new ids in every run that
does not exhaust a sequence.** -/
theorem uploads_fresh {data : GenesisState} {vm : ν} {app : β} {s : State ν β}
    (himport : k.initGenesis ⟨.empty, vm, app⟩ data = .ok s)
    (hseqs : ∀ seq ∈ data.sequences, ∃ q : Seq, seq.idKey = q.key)
    (hparams : ∀ p ∈ data.vkParams, p.paramID < data.next .vkParam) (ops : List Op)
    (hroom : Along k.step (fun s op => op.hasRoom s.store = true) s ops) :
    UploadsFresh k (run k.step s ops) := by
  obtain ⟨hstore, haccepted⟩ := initGenesis_eq_ok himport
  have hformed : Formed s.store := hstore ▸ formed_written hseqs
  have hbelow : Below s.store := hstore ▸ below_written haccepted hseqs hparams
  exact uploadsFresh_of_below (run_below hformed hbelow hroom)

/-! ## Parameters that are overwritten -/

def paramGenesis (sequences : List Sequence) : GenesisState :=
  ⟨defaultParams, [],
    [⟨1, sampleParamKey, string (account 1), sampleParams⟩], [], sequences⟩

def imported (sequences : List Sequence) : Outcome Err (State Files Unit) :=
  sample.keeper.initGenesis ⟨.empty, {}, ()⟩ (paramGenesis sequences)

def storeParam (s : State Files Unit) : Outcome Err (UInt64 × State Files Unit) :=
  sample.keeper.storeVkParam s 0 (account 2) true sampleParams .default

/-- With the sequence, the next parameters take the next id. -/
theorem counted_params_kept : ∃ s s', imported [⟨keySequenceVkParamID, 2⟩] = .ok s ∧
    storeParam s = .ok (2, s') ∧ TakesFresh .vkParam 2 s.store s'.store := by
  have hok : (imported [⟨keySequenceVkParamID, 2⟩] >>= storeParam).isOk = true := by decide
  obtain ⟨⟨id, s'⟩, hboth⟩ := isOk_iff.mp hok
  obtain ⟨s, himport, hstore⟩ := bind_eq_ok.mp hboth
  have hfresh := uploads_fresh himport
    (fun seq hseq => ⟨.vkParam, by rw [mem_singleton.mp hseq]; rfl⟩) (by decide) [] trivial
  obtain rfl : id = 2 := by
    have hnext : (imported [⟨keySequenceVkParamID, 2⟩] >>= fun s =>
        peekAutoIncrementID s.store keySequenceVkParamID) = .ok 2 := by decide
    rw [himport] at hnext
    exact ok.inj ((storeVkParam_alloc hstore).next.symm.trans hnext)
  exact ⟨s, s', himport, hstore, hfresh.storeVkParam hstore⟩

/-- Without the sequence, the import is accepted and the next parameters replace the imported ones. -/
theorem uncounted_params_overwritten : (imported []).isOk = true ∧
    (imported [] >>= fun s => .ok (getVkParamInfo s.store 1)) = .ok (some ⟨1, string (account 1), sampleParamKey⟩) ∧
    (imported [] >>= storeParam >>= fun r => .ok (r.1, getVkParamInfo r.2.store 1)) =
      .ok (1, some ⟨1, string (account 2), sampleParamKey⟩) := by
  decide

end Wasm
