/-
  The export of a reachable state.
-/
import TerpCore.Lib.Pairs
import TerpCore.Wasm.Stored

namespace Wasm

open Lib Outcome List Keeper

variable {ν β : Type} {k : Keeper ν β} {names : Naming}

/-! ## Records -/

section records

variable {s : Store} (hs : Formed s)
include hs

theorem code_named (key : Bytes) (v : Value) (h : s.get (codeKeyPrefix ++ key) = some v) : ∃ id, key = be64 id := by
  obtain ⟨name, hname, htag, -⟩ := hs.name trivial h
  cases name with
  | code id => exact ⟨id, (List.cons.inj hname).2⟩
  | _ => exact absurd htag (by simp [Key.tag])

theorem circuit_named (key : Bytes) (v : Value) (h : s.get (circuitKeyPrefix ++ key) = some v) :
    ∃ id, key = be64 id := by
  obtain ⟨name, hname, htag, -⟩ := hs.name trivial h
  cases name with
  | circuit id => exact ⟨id, (List.cons.inj hname).2⟩
  | _ => exact absurd htag (by simp [Key.tag])

theorem vkParam_named (key : Bytes) (v : Value) (h : s.get (vkParamKeyPrefix ++ key) = some v) :
    ∃ id, key = be64 id := by
  obtain ⟨name, hname, htag, -⟩ := hs.name trivial h
  cases name with
  | vkParam id => exact ⟨id, (List.cons.inj hname).2⟩
  | _ => exact absurd htag (by simp [Key.tag])

theorem mem_codeInfos {id : UInt64} {info : CodeInfo} :
    (id, info) ∈ codeInfos s ↔ row s (.code id) = some (.codeInfo info) :=
  mem_infos Key.code (fun _ => rfl) (code_named hs) fun v _ => by cases v <;> simp [Value.codeInfo?]

theorem mem_circuitInfos {id : UInt64} {info : CircuitInfo} :
    (id, info) ∈ circuitInfos s ↔ row s (.circuit id) = some (.circuitInfo info) :=
  mem_infos Key.circuit (fun _ => rfl) (circuit_named hs) fun v _ => by
    cases v <;> simp [Value.circuitInfo?]

theorem mem_vkParamInfos {id : UInt64} {info : VkParamInfo} :
    (id, info) ∈ vkParamInfos s ↔ row s (.vkParam id) = some (.vkParamInfo info) :=
  mem_infos Key.vkParam (fun _ => rfl) (vkParam_named hs) fun v _ => by
    cases v <;> simp [Value.vkParamInfo?]

end records

/-! ## Codes and parameters -/

/-- A code of the genesis and the record it comes from. -/
def ExportsCode (names : Naming) (s : Store) (r : UInt64 × CodeInfo) (c : Code) : Prop :=
  c.codeID = r.1 ∧ c.codeInfo = r.2 ∧ c.pinned = isPinnedCode s r.1 ∧
    names.codeHash c.codeBytes = some r.2.codeHash ∧ isGzip c.codeBytes = false

theorem exportCodes_eq_ok {s : State ν β} (h : Stored k names s) :
    ∀ records : List (UInt64 × CodeInfo), (∀ r ∈ records, row s.store (.code r.1) = some (.codeInfo r.2)) →
      ∃ codes, k.exportCodes s records = .ok codes ∧ List.Forall₂ (ExportsCode names s.store) records codes
  | [], _ => ⟨[], rfl, .nil⟩
  | (id, info) :: records, hrecords => by
    obtain ⟨codes, hcodes, hforall⟩ := exportCodes_eq_ok h records fun r hr => hrecords r (by simp [hr])
    have hrow := hrecords (id, info) (by simp)
    obtain ⟨code, hget, hhash, hgzip⟩ := h.code hrow
    have hbyte : k.getByteCode s id = .ok code := by
      rw [getByteCode, getCodeInfo_eq_some.mpr hrow]
      simp only [hget]
    refine ⟨⟨id, info, code, isPinnedCode s.store id⟩ :: codes, ?_, .cons ⟨rfl, rfl, rfl, hhash, hgzip⟩ hforall⟩
    rw [exportCodes, hbyte, hcodes]
    rfl

/-- Parameters of the genesis and the record they come from. -/
def ExportsParam (names : Naming) (s : Store) (r : UInt64 × VkParamInfo) (p : VkParam) : Prop :=
  p.paramID = r.1 ∧ p.paramKey = r.2.dataHash ∧ HoldsParam names s r.1 r.2 p.paramBytes

theorem exportVkParams_eq_ok {s : State ν β} (h : Stored k names s) :
    ∀ records : List (UInt64 × VkParamInfo), (∀ r ∈ records, row s.store (.vkParam r.1) = some (.vkParamInfo r.2)) →
      ∃ params, exportVkParams s.store records = .ok params ∧ List.Forall₂ (ExportsParam names s.store) records params
  | [], _ => ⟨[], rfl, .nil⟩
  | (id, info) :: records, hrecords => by
    obtain ⟨rest, hrest, hforall⟩ := exportVkParams_eq_ok h records fun r hr => hrecords r (by simp [hr])
    obtain ⟨params, hparams⟩ := h.vkParam (hrecords (id, info) (by simp))
    refine ⟨⟨id, info.dataHash, info.creator, params⟩ :: rest, ?_, .cons ⟨rfl, rfl, hparams⟩ hforall⟩
    rw [exportVkParams, getVkParamBytes_eq_ok.mpr hparams.2.1, hrest]
    rfl

/-! ## Circuits -/

/-- A circuit of the genesis and the record it comes from. -/
def ExportsCircuit (k : Keeper ν β) (names : Naming) (s : Store) (r : UInt64 × CircuitInfo) (c : Circuit) : Prop :=
  c.zkID = r.1 ∧ c.zkInfo = r.2 ∧ c.pinned = isPinnedCircuit s r.1 ∧
    HoldsCircuit k names s r.1 r.2 c.zkBytes

theorem addSyntheticParam_spec (info : CircuitInfo) (blob : Bytes) (e : Exported ν β) :
    (addSyntheticParam info blob e).state = e.state ∧ (addSyntheticParam info blob e).circuits = e.circuits ∧
      e.vkParams <+: (addSyntheticParam info blob e).vkParams ∧
      (info.circuitHash.take 36 ∈ e.exportedParamKeys → addSyntheticParam info blob e = e) := by
  unfold addSyntheticParam
  dsimp only
  split_ifs with hskip
  · exact ⟨rfl, rfl, prefix_rfl, fun _ => rfl⟩
  · cases circuitParamBytes blob info with
    | none => exact ⟨rfl, rfl, prefix_rfl, fun _ => rfl⟩
    | some params => exact ⟨rfl, rfl, ⟨_, rfl⟩, fun hmem => absurd (Or.inr (contains_iff_mem.mpr hmem)) hskip⟩

theorem exportCircuits_eq_ok {s : State ν β} (h : Stored k names s) :
    ∀ (records : List (UInt64 × CircuitInfo)) (i : ℕ) (e : Exported ν β), e.state = s →
      (∀ r ∈ records, row s.store (.circuit r.1) = some (.circuitInfo r.2)) →
      ∃ e' circuits, forEach k.exportCircuit i e records = .ok e' ∧ e'.state = s ∧
        e'.circuits = e.circuits ++ circuits ∧ e.vkParams <+: e'.vkParams ∧
        List.Forall₂ (ExportsCircuit k names s.store) records circuits ∧
        ((∀ r ∈ records, r.2.circuitHash.take 36 ∈ e.exportedParamKeys) → e'.vkParams = e.vkParams)
  | [], _, e, hstate, _ =>
    ⟨e, [], rfl, hstate, (append_nil _).symm, prefix_rfl, .nil, fun _ => rfl⟩
  | (id, info) :: records, i, e, hstate, hrecords => by
    obtain ⟨blob, hblob⟩ := h.circuit (hrecords (id, info) (by simp))
    have hget : k.getCircuit s id = .ok (blob, s) := by
      have hbytes : s.store.get (getCircuitBytesKey id) = some (.raw blob) := hblob.bytes
      simp only [getCircuit, hbytes]
    let c : Circuit := ⟨id, info, blob, isPinnedCircuit s.store id⟩
    let e₁ : Exported ν β := { e with state := s, circuits := e.circuits ++ [c] }
    have hstep : k.exportCircuit i e (id, info) = .ok (addSyntheticParam info blob e₁) := by
      rw [exportCircuit, hstate, hget]
      rfl
    obtain ⟨hs₁, hcircuits₁, hstart₁, hskip₁⟩ := addSyntheticParam_spec info blob e₁
    obtain ⟨e', circuits, hloop, hs', hcircuits, hstart, hforall, hsame⟩ :=
      exportCircuits_eq_ok h records (i + 1) (addSyntheticParam info blob e₁) hs₁
        fun r hr => hrecords r (by simp [hr])
    refine ⟨e', c :: circuits, ?_, hs', ?_, hstart₁.trans hstart, .cons ⟨rfl, rfl, rfl, hblob⟩ hforall, fun hkeys => ?_⟩
    · rw [forEach, hstep, ok_bind, hloop]
    · rw [hcircuits, hcircuits₁, append_assoc]
      rfl
    · have heq := hskip₁ (hkeys (id, info) (by simp))
      rw [heq] at hsame
      exact hsame fun r hr => hkeys r (by simp [hr])

/-! ## Sequences -/

def ExportsSeq (s : Store) (q : Seq) (seq : Sequence) : Prop :=
  seq.idKey = q.key ∧ peekAutoIncrementID s q.key = .ok seq.value

theorem exportSequences_eq_ok {n : ℕ} {s : Store} (hn : Numbered n s) : ∀ qs : List Seq,
    ∃ seqs, exportSequences s (qs.map Seq.key) = .ok seqs ∧
      List.Forall₂ (ExportsSeq s) (qs.filter fun q => (row s (.seq q)).isSome) seqs
  | [] => ⟨[], rfl, .nil⟩
  | q :: qs => by
    obtain ⟨seqs, hseqs, hforall⟩ := exportSequences_eq_ok hn qs
    obtain ⟨next, hnext, -, -⟩ := hn.seq q
    rw [map_cons, exportSequences]
    by_cases hrow : (row s (.seq q)).isSome
    · have hhas : s.has q.key = true := hrow
      refine ⟨⟨q.key, next⟩ :: seqs, ?_, ?_⟩
      · rw [if_pos hhas, hnext, hseqs]
        rfl
      · rw [filter_cons_of_pos (by simpa using hrow)]
        exact .cons ⟨rfl, hnext⟩ hforall
    · have hhas : ¬ s.has q.key = true := hrow
      refine ⟨seqs, ?_, ?_⟩
      · rw [if_neg hhas, hseqs]
      · rw [filter_cons_of_neg (by simpa using hrow)]
        exact hforall

/-! ## The whole state -/

/-- The length of the parameters in the record is the one in the footer. -/
def Aligned (info : CircuitInfo) (blob : Bytes) : Prop := footerParamLen blob = info.vkpLen.toNat

/-- A genesis that lists the contents of a store. -/
structure Exports (k : Keeper ν β) (names : Naming) (s : Store) (data : GenesisState) : Prop where
  codes : List.Forall₂ (ExportsCode names s) (codeInfos s) data.codes
  vkParams : ∃ stored, List.Forall₂ (ExportsParam names s) (vkParamInfos s) stored ∧
    stored <+: data.vkParams ∧ ((∀ c ∈ data.circuits, Aligned c.zkInfo c.zkBytes) → data.vkParams = stored)
  circuits : List.Forall₂ (ExportsCircuit k names s) (circuitInfos s) data.circuits
  sequences : List.Forall₂ (ExportsSeq s)
    ([Seq.code, .contract, .circuit, .vkParam].filter fun q => (row s (.seq q)).isSome) data.sequences

theorem HoldsCircuit.vkpLen_eq {s : Store} {id : UInt64} {info : CircuitInfo} {blob params body : Bytes}
    (h : HoldsCircuit k names s id info blob) (hblob : blob = params ++ body)
    (hlen : info.vkpLen = UInt64.ofNat params.length) : info.vkpLen.toNat = params.length := by
  have hlt := h.layout.length_lt
  rw [hblob, length_append] at hlt
  rw [hlen]
  exact Nat.mod_eq_of_lt (by omega)

theorem HoldsCircuit.param {s : Store} {id : UInt64} {info : CircuitInfo} {blob : Bytes}
    (h : HoldsCircuit k names s id info blob) (haligned : Aligned info blob) :
    ∃ params paramID paramInfo, HoldsParam names s paramID paramInfo params ∧
      params = blob.take (footerParamLen blob) ∧ paramInfo.dataHash = info.circuitHash.take 36 := by
  obtain ⟨params, body, paramID, paramInfo, hblob, -, hlen, hheld⟩ := h.params
  have htake : params = blob.take (footerParamLen blob) := by
    rw [haligned, h.vkpLen_eq hblob hlen, hblob, take_left]
  refine ⟨params, paramID, paramInfo, hheld, htake, ?_⟩
  have hkey := h.layout.paramKey
  rw [← htake, hheld.2.2.2] at hkey
  exact Option.some.inj hkey

theorem exportGenesis_eq_ok (hlaws : Lawful k.engine k.sha256 names) {n : ℕ} {s : State ν β}
    (hs : Formed s.store) (hn : Numbered n s.store) (h : Stored k names s) :
    ∃ data, k.exportGenesis s = .ok data ∧ Exports k names s.store data := by
  obtain ⟨p, hp⟩ := h.params
  obtain ⟨codes, hcodes, hcodes'⟩ := exportCodes_eq_ok h (codeInfos s.store) fun r hr => (mem_codeInfos hs).mp hr
  obtain ⟨params, hparams, hparams'⟩ := exportVkParams_eq_ok h (vkParamInfos s.store)
    fun r hr => (mem_vkParamInfos hs).mp hr
  obtain ⟨e, circuits, he, hstate, hcircuits, hstart, hcircuits', hsame⟩ := exportCircuits_eq_ok h
    (circuitInfos s.store) 0
    { state := s
      circuits := []
      vkParams := params
      exportedParamKeys := (params.map VkParam.paramKey).filter fun key => key.length = 36
      nextSyntheticParamID := maxID (params.map VkParam.paramID) } rfl
    fun r hr => (mem_circuitInfos hs).mp hr
  obtain ⟨seqs, hseqs, hseqs'⟩ := exportSequences_eq_ok hn [Seq.code, .contract, .circuit, .vkParam]
  subst hcircuits
  refine ⟨⟨p, codes, e.vkParams, e.circuits, seqs⟩, ?_, hcodes', ⟨params, hparams', hstart, ?_⟩, hcircuits', hseqs'⟩
  · rw [exportGenesis, getParams_eq_ok.mpr hp, ok_bind, hcodes, ok_bind, hparams, ok_bind, he, ok_bind, hstate]
    simp only [map_cons, map_nil, Seq.key] at hseqs
    rw [hseqs]
    rfl
  · intro haligned
    refine hsame fun r hr => ?_
    obtain ⟨c, hc, -, hinfo, -, hheld⟩ := exists_right_of_mem hcircuits' hr
    obtain ⟨_, paramID, paramInfo, hparam, -, hkey⟩ := hheld.param (hinfo ▸ haligned c hc)
    obtain ⟨p, hp, -, hpkey, -⟩ := exists_right_of_mem hparams'
      ((mem_vkParamInfos hs).mpr hparam.1 : (paramID, paramInfo) ∈ vkParamInfos s.store)
    have hlen := (hlaws.paramKey hparam.2.2.2).1
    rw [← hkey, ← hpkey]
    refine mem_filter.mpr ⟨mem_map_of_mem hp, ?_⟩
    simpa [hpkey] using hlen

end Wasm
