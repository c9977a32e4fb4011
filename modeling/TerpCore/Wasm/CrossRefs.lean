/-
  The check of a genesis that parameters and circuits fit together.

  It is written once more with the slices that the code takes, which would panic out of range.
-/
import TerpCore.Lib.Slice
import TerpCore.Wasm.Genesis

namespace Wasm

open Lib Outcome List

variable {ν β : Type}

/-! ## The slices of the check -/

section slices

/-- `zkBinary[len(zkBinary)-cosmwasmFooterLength:]` -/
def footerSliced (zkBinary : Bytes) : Option Bytes :=
  slice zkBinary (zkBinary.length - cosmwasmFooterLength) zkBinary.length

def footerParamLenSliced (zkBinary : Bytes) : Option ℕ := do
  let footer ← footerSliced zkBinary
  let word ← slice footer 4 8
  return ofLE word

def footerParamChecksumSliced (zkBinary : Bytes) : Option Bytes := do
  let footer ← footerSliced zkBinary
  slice footer 16 48

/-- The length of the parameters, as the record or the footer has it. -/
def paramLenSliced (zkBinary : Bytes) (zkInfo : CircuitInfo) : Option ℤ :=
  if zkInfo.vkpLen.toInt64 = 0 ∧ cosmwasmFooterLength ≤ zkBinary.length then
    (footerParamLenSliced zkBinary).map Int.ofNat
  else some zkInfo.vkpLen.toInt64.toInt

def circuitParamBytesSliced (zkBinary : Bytes) (zkInfo : CircuitInfo) : Outcome Err (Option Bytes) := do
  let paramLen ← .ofOption (paramLenSliced zkBinary zkInfo)
  if paramLen ≤ 0 ∨ zkBinary.length ≤ paramLen then return none
  let paramBytes ← .ofOption (slice zkBinary 0 paramLen)
  return some paramBytes

variable (k : Keeper ν β)

def Keeper.validateCircuitParamAlignmentSliced (zkBinary : Bytes) (zkInfo : CircuitInfo) : Outcome Err Unit := do
  match ← circuitParamBytesSliced zkBinary zkInfo with
  | none => return ()
  | some paramBytes => do
    let sum := k.sha256 paramBytes
    if cosmwasmFooterLength ≤ zkBinary.length then do
      let checksum ← .ofOption (footerParamChecksumSliced zkBinary)
      require (sum == checksum)
        (.errorf "param SHA256 %x != footer.param_checksum %x (blob will fail check_circuit)")
      let n ← .ofOption (footerParamLenSliced zkBinary)
      require (n == paramBytes.length) (.errorf "param slice length %d != footer.param_len %d")
    if 36 ≤ zkInfo.circuitHash.length then do
      let checksum ← .ofOption (slice zkInfo.circuitHash 4 36)
      require (sum == checksum) (.errorf "param SHA256 %x != circuit_key param_checksum %x")

def Keeper.checkVkParamSliced (_ : Nat) (byKey : GoMap Bytes VkParam) (p : VkParam) :
    Outcome Err (GoMap Bytes VkParam) := do
  require (p.paramKey.length == 36)
    (.errorf "genesis vk_param id %d: param_key length %d, want 36")
  require (p.paramBytes != []) (.errorf "genesis vk_param id %d: empty param_bytes")
  let checksum ← .ofOption (slice p.paramKey 4 36)
  require (k.sha256 p.paramBytes == checksum)
    (.errorf "genesis vk_param id %d: param_key checksum %x != SHA256(param_bytes) %x")
  require (byKey.lookup p.paramKey).isNone
    (.errorf "genesis vk_param id %d: duplicate param_key %x (also param_id %d)")
  return byKey.insert p.paramKey p

def Keeper.checkCircuitSliced (byKey : GoMap Bytes VkParam) (c : Circuit) : Outcome Err Unit := do
  wrapErr s!"genesis circuit zk_id {c.zkID}" (k.validateCircuitParamAlignmentSliced c.zkBytes c.zkInfo)
  if c.zkInfo.circuitHash.length < 36 then return ()
  let paramHalf ← .ofOption (slice c.zkInfo.circuitHash 0 36)
  match byKey.lookup paramHalf with
  | none =>
    .error (.errorf ("genesis circuit zk_id %d: circuit_key[:36]=%x has no matching vk_params entry " ++
      "— every circuit param half must be declared in genesis vk_params"))
  | some vp =>
    match ← circuitParamBytesSliced c.zkBytes c.zkInfo with
    | none => return ()
    | some paramBytes =>
      require (paramBytes == vp.paramBytes)
        (.errorf ("genesis circuit zk_id %d: embedded params (%d bytes) != vk_param id %d bytes (%d) " ++
          "for param_key %x"))

def Keeper.validateGenesisParamCircuitCrossRefsSliced (data : GenesisState) : Outcome Err Unit := do
  let byKey ← forEach k.checkVkParamSliced 0 ∅ data.vkParams
  forEach (fun _ _ c => k.checkCircuitSliced byKey c) 0 () data.circuits

end slices

/-! ## No slice is out of range -/

section range

section

variable {zkBinary : Bytes} (h : cosmwasmFooterLength ≤ zkBinary.length)

include h

theorem footerSliced_eq :
    footerSliced zkBinary = some (footer zkBinary) ∧ (footer zkBinary).length = cosmwasmFooterLength := by
  constructor
  · rw [footerSliced, slice_length (by omega)]
    congr 2
    omega
  · rw [footer, length_drop]
    omega

theorem footerParamLenSliced_eq : footerParamLenSliced zkBinary = some (footerParamLen zkBinary) := by
  obtain ⟨hfooter, hlen⟩ := footerSliced_eq h
  have hword : slice (footer zkBinary) 4 8 = some (((footer zkBinary).drop 4).take 4) :=
    slice_eq_some (by rw [hlen]; decide)
  simp [footerParamLenSliced, hfooter, hword, footerParamLen]

theorem footerParamChecksumSliced_eq : footerParamChecksumSliced zkBinary = some (footerParamChecksum zkBinary) := by
  obtain ⟨hfooter, hlen⟩ := footerSliced_eq h
  have hsum : slice (footer zkBinary) 16 48 = some (((footer zkBinary).drop 16).take 32) :=
    slice_eq_some (by rw [hlen]; decide)
  simp [footerParamChecksumSliced, hfooter, hsum, footerParamChecksum]

end

/-- The length of the parameters of a circuit: that of its record, or else of the footer. -/
def declaredLen (zkBinary : Bytes) (zkInfo : CircuitInfo) : ℤ :=
  if zkInfo.vkpLen.toInt64 = 0 ∧ cosmwasmFooterLength ≤ zkBinary.length then footerParamLen zkBinary
  else zkInfo.vkpLen.toInt64.toInt

section

variable (zkBinary : Bytes) (zkInfo : CircuitInfo)

theorem circuitParamBytes_eq : circuitParamBytes zkBinary zkInfo =
    if declaredLen zkBinary zkInfo ≤ 0 ∨ zkBinary.length ≤ declaredLen zkBinary zkInfo then none
    else some (zkBinary.take (declaredLen zkBinary zkInfo).toNat) := rfl

theorem paramLenSliced_eq : paramLenSliced zkBinary zkInfo = some (declaredLen zkBinary zkInfo) := by
  rw [paramLenSliced, declaredLen]
  split_ifs with hfooter
  · rw [footerParamLenSliced_eq hfooter.2]
    rfl
  · rfl

theorem circuitParamBytesSliced_eq :
    circuitParamBytesSliced zkBinary zkInfo = .ok (circuitParamBytes zkBinary zkInfo) := by
  rw [circuitParamBytesSliced, circuitParamBytes_eq, paramLenSliced_eq, ofOption, ok_bind]
  split_ifs with hout
  · rfl
  · rw [slice_zero (by omega)]
    rfl

end

variable (k : Keeper ν β)

theorem slice_checksum {key : Bytes} (h : 36 ≤ key.length) : slice key 4 36 = some ((key.drop 4).take 32) :=
  slice_eq_some (by omega)

theorem validateCircuitParamAlignmentSliced_eq (zkBinary : Bytes) (zkInfo : CircuitInfo) :
    k.validateCircuitParamAlignmentSliced zkBinary zkInfo = k.validateCircuitParamAlignment zkBinary zkInfo := by
  rw [Keeper.validateCircuitParamAlignmentSliced, Keeper.validateCircuitParamAlignment, circuitParamBytesSliced_eq]
  cases circuitParamBytes zkBinary zkInfo with
  | none => rfl
  | some paramBytes =>
    by_cases hfooter : cosmwasmFooterLength ≤ zkBinary.length
    · rw [footerParamChecksumSliced_eq hfooter, footerParamLenSliced_eq hfooter]
      by_cases hkey : 36 ≤ zkInfo.circuitHash.length
      · simp [hfooter, hkey, Nat.not_lt.mpr hkey, slice_checksum hkey, ofOption]
      · simp [hfooter, hkey, Nat.lt_of_not_le hkey, ofOption, require]
    · by_cases hkey : 36 ≤ zkInfo.circuitHash.length
      · simp [hfooter, Nat.not_lt.mpr hkey, slice_checksum hkey, ofOption, require]
      · simp [hfooter, Nat.lt_of_not_le hkey, require]

theorem checkVkParamSliced_eq : k.checkVkParamSliced = k.checkVkParam := by
  funext i byKey p
  rw [Keeper.checkVkParamSliced, Keeper.checkVkParam]
  by_cases hlen : p.paramKey.length = 36
  · rw [slice_checksum (by omega)]
    rfl
  · simp [hlen, require]

theorem checkCircuitSliced_eq (byKey : GoMap Bytes VkParam) (c : Circuit) :
    k.checkCircuitSliced byKey c = k.checkCircuit byKey c := by
  rw [Keeper.checkCircuitSliced, Keeper.checkCircuit, validateCircuitParamAlignmentSliced_eq,
    circuitParamBytesSliced_eq]
  split_ifs with hshort
  · rfl
  · rw [slice_zero (by omega)]
    rfl

/-- The check with its slices is the check: none of them is out of range. -/
theorem validateGenesisParamCircuitCrossRefsSliced_eq (data : GenesisState) :
    k.validateGenesisParamCircuitCrossRefsSliced data = k.validateGenesisParamCircuitCrossRefs data := by
  rw [Keeper.validateGenesisParamCircuitCrossRefsSliced, Keeper.validateGenesisParamCircuitCrossRefs,
    checkVkParamSliced_eq]
  simp only [checkCircuitSliced_eq]

end range

/-! ## What is accepted -/

section accepted

variable (k : Keeper ν β)

/-- The circuit declares parameters that are a part of it. -/
def DeclaresParams (zkBinary : Bytes) (zkInfo : CircuitInfo) : Prop :=
  0 < declaredLen zkBinary zkInfo ∧ declaredLen zkBinary zkInfo < zkBinary.length

theorem DeclaresParams.circuitParamBytes {zkBinary : Bytes} {zkInfo : CircuitInfo}
    (h : DeclaresParams zkBinary zkInfo) :
    circuitParamBytes zkBinary zkInfo = some (zkBinary.take (declaredLen zkBinary zkInfo).toNat) := by
  obtain ⟨hpos, hlt⟩ := h
  rw [circuitParamBytes_eq, if_neg (by omega)]

/-- The entries of the map are parameters of the genesis, under the key that ends with their hash. -/
def DeclaredParams (data : GenesisState) (byKey : GoMap Bytes VkParam) : Prop :=
  ∀ key p, byKey.lookup key = some p →
    p ∈ data.vkParams ∧ p.paramKey = key ∧ k.sha256 p.paramBytes = (key.drop 4).take 32

theorem checkVkParam_safe {data : GenesisState} {byKey : GoMap Bytes VkParam} {p : VkParam} (hp : p ∈ data.vkParams)
    (h : DeclaredParams k data byKey) (i : ℕ) : (k.checkVkParam i byKey p).Safe (DeclaredParams k data) := by
  simp only [Keeper.checkVkParam, safe_bind, safe_require, beq_iff_eq]
  intro _ _ hsum _ key p' hlookup
  by_cases hkey : key = p.paramKey
  · subst hkey
    rw [AList.lookup_insert, Option.some.injEq] at hlookup
    subst hlookup
    exact ⟨hp, rfl, hsum⟩
  · rw [AList.lookup_insert_ne hkey] at hlookup
    exact h key p' hlookup

theorem validateCircuitParamAlignment_safe (zkBinary : Bytes) (zkInfo : CircuitInfo) :
    (k.validateCircuitParamAlignment zkBinary zkInfo).Safe fun _ => ∀ paramBytes,
      circuitParamBytes zkBinary zkInfo = some paramBytes → cosmwasmFooterLength ≤ zkBinary.length →
        footerParamLen zkBinary = paramBytes.length ∧ footerParamChecksum zkBinary = k.sha256 paramBytes := by
  unfold Keeper.validateCircuitParamAlignment
  cases circuitParamBytes zkBinary zkInfo with
  | none => simp
  | some paramBytes =>
    simp only [safe_bind, safe_require]
    intro hsum hlen _ paramBytes' heq hfooter
    cases heq
    have hchecksum : k.sha256 paramBytes = footerParamChecksum zkBinary := by simpa [hfooter] using hsum
    exact ⟨by simpa [hfooter] using hlen, hchecksum.symm⟩

theorem safe_wrapErr {α : Type} {context : String} {o : Outcome Err α} {Q : α → Prop} :
    (wrapErr context o).Safe Q ↔ o.Safe Q := by
  cases o with
  | ok | error | panicked => rfl

/-- The parameters of a circuit with a key of the long form are declared, and embedded if it says how long they
are. -/
def EmbedsParams (data : GenesisState) (c : Circuit) : Prop :=
  36 ≤ c.zkInfo.circuitHash.length → ∃ p ∈ data.vkParams,
    p.paramKey = c.zkInfo.circuitHash.take 36 ∧
    k.sha256 p.paramBytes = (c.zkInfo.circuitHash.drop 4).take 32 ∧
    (DeclaresParams c.zkBytes c.zkInfo → p.paramBytes <+: c.zkBytes ∧
      (cosmwasmFooterLength ≤ c.zkBytes.length → footerParamLen c.zkBytes = p.paramBytes.length ∧
        footerParamChecksum c.zkBytes = k.sha256 p.paramBytes))

theorem checkCircuit_safe {data : GenesisState} {byKey : GoMap Bytes VkParam} (h : DeclaredParams k data byKey)
    (c : Circuit) : (k.checkCircuit byKey c).Safe fun _ => EmbedsParams k data c := by
  have halign := validateCircuitParamAlignment_safe k c.zkBytes c.zkInfo
  rw [Keeper.checkCircuit, safe_bind, safe_wrapErr]
  rw [safe_iff] at halign ⊢
  refine ⟨halign.1, fun u hu => ?_⟩
  have hfooter := halign.2 u hu
  split_ifs with hshort
  · exact fun hlong => absurd hlong (Nat.not_le.mpr hshort)
  · cases hlookup : byKey.lookup (c.zkInfo.circuitHash.take 36) with
    | none => trivial
    | some p =>
      obtain ⟨hp, hkey, hsum⟩ := h _ p hlookup
      have hchecksum : k.sha256 p.paramBytes = (c.zkInfo.circuitHash.drop 4).take 32 := by
        rw [hsum, drop_take, take_take]
        rfl
      cases hparams : circuitParamBytes c.zkBytes c.zkInfo with
      | none =>
        refine fun _ => ⟨p, hp, hkey, hchecksum, fun hdeclares => ?_⟩
        simp [hdeclares.circuitParamBytes] at hparams
      | some paramBytes =>
        rw [safe_require, beq_iff_eq]
        rintro rfl _
        refine ⟨p, hp, hkey, hchecksum, fun hdeclares => ⟨?_, hfooter _ hparams⟩⟩
        rw [hdeclares.circuitParamBytes] at hparams
        rw [← Option.some.inj hparams]
        exact take_prefix ..

/-- The check takes no slice that is out of range, and what it accepts embeds its parameters. -/
theorem genesis_circuits_embed_params (data : GenesisState) :
    k.validateGenesisParamCircuitCrossRefsSliced data = k.validateGenesisParamCircuitCrossRefs data ∧
      k.validateGenesisParamCircuitCrossRefsSliced data ≠ .panicked ∧
      (k.validateGenesisParamCircuitCrossRefs data = .ok () → ∀ c ∈ data.circuits, EmbedsParams k data c) := by
  have hsafe : (k.validateGenesisParamCircuitCrossRefs data).Safe fun _ =>
      ∀ c ∈ data.circuits, EmbedsParams k data c := by
    have hparams := forEach_safe (P := fun _ => True)
      data.vkParams 0 ∅ (fun i byKey p hp h => by simpa using checkVkParam_safe k hp h i)
      (fun key p hlookup => by simp at hlookup)
    rw [Keeper.validateGenesisParamCircuitCrossRefs, safe_bind]
    rw [safe_iff] at hparams ⊢
    refine ⟨hparams.1, fun byKey hbyKey => ?_⟩
    have hcircuits := forEach_safe (I := fun _ : Unit => True)
      data.circuits 0 ()
      (fun _ _ c _ _ => by simpa using checkCircuit_safe k (hparams.2 byKey hbyKey).1 c) trivial
    simpa using hcircuits
  rw [safe_iff] at hsafe
  rw [validateGenesisParamCircuitCrossRefsSliced_eq]
  exact ⟨rfl, hsafe.1, hsafe.2 ()⟩

end accepted

namespace Tables

def sampleVkParam : VkParam := ⟨1, sampleParamKey, string (account 1), sampleParams⟩

def sampleRecord (vkpLen : UInt64) : CircuitInfo where
  circuitHash := sampleCircuitKey
  creator := string (account 1)
  instantiateConfig := allowEverybody
  i := 0
  vkpLen := vkpLen
  csLen := 0
  vkLen := 1

def sampleGenesis (vkpLen : UInt64) (zkBytes : Bytes) : GenesisState where
  params := defaultParams
  codes := []
  vkParams := [sampleVkParam]
  circuits := [⟨1, sampleRecord vkpLen, zkBytes, false⟩]
  sequences := []

end Tables

open Tables in
theorem sample_params_embedded :
    sampleVkParam.paramBytes <+: sampleParams ++ sampleBody ∧
      EmbedsParams sample.keeper (sampleGenesis 1 (sampleParams ++ sampleBody))
        ⟨1, sampleRecord 1, sampleParams ++ sampleBody, false⟩ :=
  ⟨prefix_append .., (genesis_circuits_embed_params sample.keeper
    (sampleGenesis 1 (sampleParams ++ sampleBody))).2.2 (by decide +kernel) _ (by decide +kernel)⟩

open Tables in
/-- The record says that the parameters are longer than the circuit: nothing is compared with them. -/
theorem short_circuit_accepted :
    sample.keeper.validateGenesisParamCircuitCrossRefs (sampleGenesis 5 [0x99]) = .ok () ∧
      36 ≤ (sampleRecord 5).circuitHash.length ∧
      ¬ ∃ p ∈ (sampleGenesis 5 [0x99]).vkParams, p.paramBytes <+: [0x99] := by
  refine ⟨by decide +kernel, by decide, ?_⟩
  rintro ⟨p, hp, hprefix⟩
  rw [mem_singleton.mp hp] at hprefix
  exact absurd hprefix (by decide)

end Wasm
