/-
  The import of an exported state.
-/
import TerpCore.Wasm.Export
import TerpCore.Wasm.Import
import TerpCore.Wasm.PinIndex

namespace Wasm

open Lib Outcome List Tables FormedOn

variable {ν β : Type} {k : Keeper ν β} {names : Naming}

/-! ## Parameters inside circuits -/

section held

variable {s : Store} {id : UInt64} {info : CircuitInfo} {blob : Bytes}

theorem HoldsCircuit.circuitParamBytes (h : HoldsCircuit k names s id info blob) :
    ∃ params, circuitParamBytes blob info = some params ∧ params = blob.take info.vkpLen.toNat ∧
      params.length = info.vkpLen.toNat := by
  obtain ⟨params, body, paramID, paramInfo, hblob, hbody, hlen, hheld⟩ := h.params
  have hlt := h.layout.length_lt
  have hnat := h.vkpLen_eq hblob hlen
  have hpos : 0 < params.length := length_pos_of_ne_nil hheld.2.2.1
  have hbody' : 0 < body.length := length_pos_of_ne_nil hbody
  have hblob' : blob.length = params.length + body.length := by rw [hblob, length_append]
  have hint : info.vkpLen.toInt64.toInt = params.length := by
    rw [hlen]
    exact toInt_toInt64_ofNat (by omega)
  have hne : ¬ (info.vkpLen.toInt64 = 0 ∧ cosmwasmFooterLength ≤ blob.length) := by
    rintro ⟨hzero, -⟩
    rw [hzero] at hint
    have : (0 : ℤ) = params.length := hint
    omega
  refine ⟨params, ?_, by rw [hnat, hblob, take_left], hnat.symm⟩
  rw [Wasm.circuitParamBytes]
  simp only [if_neg hne, hint]
  rw [if_neg (by omega), hblob]
  simp

theorem HoldsCircuit.alignment (hlaws : Lawful k.engine k.sha256 names) (h : HoldsCircuit k names s id info blob) :
    k.validateCircuitParamAlignment blob info = .ok () ↔ Aligned info blob := by
  obtain ⟨params, hparams, htake, hlen⟩ := h.circuitParamBytes
  have hfooter : decide (cosmwasmFooterLength ≤ blob.length) = true :=
    decide_eq_true h.layout.footer_le
  have hkey : ¬ info.circuitHash.length < 36 := Nat.not_lt.mpr h.layout.key_length
  simp only [Keeper.validateCircuitParamAlignment, hparams, hfooter, Bool.not_true, Bool.false_or,
    bind_eq_ok, require_eq_ok, beq_iff_eq, decide_eq_false hkey]
  constructor
  · rintro ⟨-, -, -, halign, -⟩
    exact halign.trans hlen
  · intro halign
    have hparams' : params = blob.take (footerParamLen blob) := htake.trans (by rw [halign])
    refine ⟨(), ?_, (), halign.trans hlen.symm, ?_⟩
    · rw [h.layout.checksum, ← hparams']
    · have hdrop := (hlaws.paramKey h.layout.paramKey).2
      rw [← hparams', drop_take] at hdrop
      exact hdrop.symm

end held

/-! ## Cross references -/

theorem checkVkParam_eq_ok {i : ℕ} {byKey byKey' : GoMap Bytes VkParam} {p : VkParam}
    (h : k.checkVkParam i byKey p = .ok byKey') :
    byKey.lookup p.paramKey = none ∧ byKey' = byKey.insert p.paramKey p := by
  simp only [Keeper.checkVkParam, bind_eq_ok, require_eq_ok] at h
  obtain ⟨-, -, -, -, -, -, -, hnone, h⟩ := h
  exact ⟨Option.isNone_iff_eq_none.mp hnone, (ok.inj h).symm⟩

theorem checkVkParams_nodup : ∀ (ps : List VkParam) (i : ℕ) (byKey byKey' : GoMap Bytes VkParam),
    forEach k.checkVkParam i byKey ps = .ok byKey' →
    (ps.map VkParam.paramKey).Nodup ∧ ∀ p ∈ ps, byKey.lookup p.paramKey = none
  | [], _, _, _, _ => ⟨nodup_nil, by simp⟩
  | p :: ps, i, byKey, byKey', h => by
    obtain ⟨byKey₁, hp, h⟩ := bind_eq_ok.mp h
    obtain ⟨hnone, rfl⟩ := checkVkParam_eq_ok hp
    obtain ⟨hnodup, hps⟩ := checkVkParams_nodup ps (i + 1) _ byKey' h
    have hne : ∀ p' ∈ ps, p'.paramKey ≠ p.paramKey := by
      intro p' hp' heq
      have hlookup := hps p' hp'
      simp [heq] at hlookup
    refine ⟨nodup_cons.mpr ⟨?_, hnodup⟩, ?_⟩
    · rw [mem_map]
      rintro ⟨p', hp', heq⟩
      exact hne p' hp' heq
    · intro p' hp'
      rcases mem_cons.mp hp' with rfl | hp'
      · exact hnone
      · rw [← hps p' hp', AList.lookup_insert_ne (hne p' hp')]

/-- What the check of parameters asks for besides new keys. -/
def VkParam.Named (names : Naming) (p : VkParam) : Prop :=
  p.paramBytes ≠ [] ∧ names.paramKey p.paramBytes = some p.paramKey

section

variable (hlaws : Lawful k.engine k.sha256 names)

include hlaws

theorem checkVkParams_returns : ∀ (ps : List VkParam) (i : ℕ) (byKey : GoMap Bytes VkParam), (∀ p ∈ ps, p.Named names) →
      (ps.map VkParam.paramKey).Nodup → (∀ p ∈ ps, byKey.lookup p.paramKey = none) →
      ∃ byKey', forEach k.checkVkParam i byKey ps = .ok byKey' ∧ (∀ p ∈ ps, byKey'.lookup p.paramKey = some p) ∧
        ∀ key, key ∉ ps.map VkParam.paramKey → byKey'.lookup key = byKey.lookup key
  | [], _, byKey, _, _, _ => ⟨byKey, rfl, by simp, fun _ _ => rfl⟩
  | p :: ps, i, byKey, hnamed, hnodup, hnew => by
    obtain ⟨hbytes, hkey⟩ := hnamed p (by simp)
    obtain ⟨hlen, hsum⟩ := hlaws.paramKey hkey
    obtain ⟨hp, hnodup⟩ := nodup_cons.mp hnodup
    have hstep : k.checkVkParam i byKey p = .ok (byKey.insert p.paramKey p) := by
      have htake : (p.paramKey.drop 4).take 32 = k.sha256 p.paramBytes := by
        rw [hsum, take_of_length_le]
        rw [← hsum, length_drop]
        omega
      simp [Keeper.checkVkParam, require, hlen, hbytes, htake, hnew p (by simp)]
    have hne : ∀ p' ∈ ps, p'.paramKey ≠ p.paramKey := fun p' hp' heq =>
      hp (heq ▸ mem_map_of_mem hp')
    obtain ⟨byKey', hloop, hmem, hother⟩ := checkVkParams_returns ps (i + 1)
      (byKey.insert p.paramKey p) (fun p' hp' => hnamed p' (by simp [hp'])) hnodup fun p' hp' => by
        rw [AList.lookup_insert_ne (hne p' hp')]
        exact hnew p' (by simp [hp'])
    refine ⟨byKey', by rw [forEach, hstep, ok_bind, hloop], ?_, ?_⟩
    · intro p' hp'
      rcases mem_cons.mp hp' with rfl | hp'
      · rw [hother _ hp, AList.lookup_insert]
      · exact hmem p' hp'
    · intro key hkey
      rw [map_cons, mem_cons, not_or] at hkey
      rw [hother key hkey.2, AList.lookup_insert_ne hkey.1]

theorem aligned_of_checkCircuit {s : Store} {c : Circuit} {id : UInt64}
    (hheld : HoldsCircuit k names s id c.zkInfo c.zkBytes) {byKey : GoMap Bytes VkParam}
    (h : k.checkCircuit byKey c = .ok ()) : Aligned c.zkInfo c.zkBytes := by
  obtain ⟨u, halign, -⟩ := bind_eq_ok.mp h
  exact (hheld.alignment hlaws).mp (wrapErr_eq_ok.mp halign)

theorem checkCircuit_eq_ok {s : Store} {c : Circuit} {id : UInt64}
    (hheld : HoldsCircuit k names s id c.zkInfo c.zkBytes) (haligned : Aligned c.zkInfo c.zkBytes)
    {byKey : GoMap Bytes VkParam} {p : VkParam} (hp : byKey.lookup (c.zkInfo.circuitHash.take 36) = some p)
    (hbytes : p.paramBytes = c.zkBytes.take c.zkInfo.vkpLen.toNat) : k.checkCircuit byKey c = .ok () := by
  obtain ⟨params, hparams, htake, -⟩ := hheld.circuitParamBytes
  rw [Keeper.checkCircuit, (hheld.alignment hlaws).mpr haligned, hp]
  simp [hparams, require, hbytes, htake]

end

/-! ## Entries -/

theorem uncompressIfGzip_of_not_gzip {b : Bytes} (h : isGzip b = false) (maxSize : ℕ) (what : String) :
    k.uncompressIfGzip b maxSize what = .ok b := by
  rw [Keeper.uncompressIfGzip, h]
  rfl

/-- Every row has a name, and every pinned id is the id of a code. -/
structure Pinnable (s : Store) : Prop where
  formed : Formed s
  pins : ∀ id, (row s (.pin id)).isSome → (row s (.code id)).isSome

namespace Pinnable

variable {s : Store} (h : Pinnable s)
include h

theorem code (c : Code) : Pinnable (c.write s) where
  formed := by
    refine formed_pinIf (FormedOn.put h.formed ?_)
    exact trivial
  pins id hpin := by
    rw [Code.write, isSome_row_pinIf, row_put_of_ne (by simp)] at hpin
    rw [Code.write, row_pinIf (by simp), isSome_row_put, Key.code.injEq]
    rcases hpin with ⟨-, hid⟩ | hpin
    · exact .inl hid.symm
    · exact .inr (h.pins id hpin)

theorem vkParam (p : VkParam) : Pinnable (p.write s) where
  formed := by
    refine FormedOn.put (FormedOn.put h.formed ?_) ?_ <;> exact trivial
  pins id hpin := by
    rw [row_vkParam_write (by simp) (by simp)] at hpin ⊢
    exact h.pins id hpin

theorem circuit {c : Circuit} (hcode : c.pinned = true → (row s (.code c.zkID)).isSome) :
    Pinnable (k.writeCircuit s c) where
  formed := by
    refine formed_pinIf (FormedOn.put (FormedOn.put h.formed ?_) ?_) <;> exact trivial
  pins id hpin := by
    rw [Keeper.writeCircuit, isSome_row_pinIf, row_put_of_ne (by simp), row_put_of_ne (by simp)] at hpin
    rw [row_writeCircuit (by simp) (by simp) (by simp)]
    rcases hpin with ⟨hpinned, rfl⟩ | hpin
    · exact hcode hpinned
    · exact h.pins id hpin

theorem codeHashOf_isSome {id : UInt64} (hid : (row s (.code id)).isSome) : (codeHashOf s id).isSome := by
  obtain ⟨info, hinfo⟩ := h.formed.exists_code hid
  rw [codeHashOf, getCodeInfo_eq_some.mpr hinfo]
  rfl

end Pinnable

/-- The engine has every code of the store. -/
def Keeper.ServesCodes (k : Keeper ν β) (names : Naming) (s : State ν β) : Prop :=
  ∀ id info, row s.store (.code id) = some (.codeInfo info) → k.engine.Serves names s.vm info.codeHash

section entries

variable (hlaws : Lawful k.engine k.sha256 names) {s : State ν β} {i : ℕ} (hserves : k.ServesCodes names s)

include hserves in
theorem Keeper.ServesCodes.mono {s' : State ν β} (hrows : ∀ id, row s'.store (.code id) = row s.store (.code id))
    (hvm : ∀ checksum, k.engine.Serves names s.vm checksum → k.engine.Serves names s'.vm checksum) :
    k.ServesCodes names s' := by
  intro id info hrow
  exact hvm _ (hserves id info (by rwa [← hrows]))

include hlaws hserves

theorem pinCode_returns (hs : Pinnable s.store) (id : UInt64) (hid : (row s.store (.code id)).isSome) :
    ∃ s', k.pinCode s id = .ok s' ∧ k.ServesCodes names s' := by
  have hhash := hs.codeHashOf_isSome hid
  rw [codeHashOf, Option.isSome_map] at hhash
  obtain ⟨info, hinfo⟩ := Option.isSome_iff_exists.mp hhash
  obtain ⟨checksums, ⟨ids, -, -, hchecksums⟩, hcollect⟩ := collectPinned_hashes (codeHashOf s.store) noSuchCodeErr
    (fun key v _ => hs.formed key v trivial) (fun _ => rfl)
    fun id hpin => hs.codeHashOf_isSome (hs.pins id hpin)
  -- every pinned code is one of the store
  have hall : ∀ checksum ∈ checksums ++ [info.codeHash], k.engine.Serves names s.vm checksum := by
    intro checksum hmem
    rcases mem_append.mp hmem with hmem | hmem
    · obtain ⟨id', -, hhash⟩ := mem_map.mp (hchecksums ▸ mem_map_of_mem hmem)
      obtain ⟨info', hinfo', rfl⟩ := Option.map_eq_some_iff.mp hhash
      exact hserves id' info' (getCodeInfo_eq_some.mp hinfo')
    · rw [mem_singleton.mp hmem]
      exact hserves id info (getCodeInfo_eq_some.mp hinfo)
  obtain ⟨vm, hvm⟩ := Option.isSome_iff_exists.mp (hlaws.syncPinnedCodes hall)
  have hpin : ∃ s', k.pinCode s id = .ok s' := by
    simp [Keeper.pinCode, hinfo, collectPinnedChecksums, hcollect, hvm, engineOr]
  obtain ⟨s', hs'⟩ := hpin
  obtain ⟨-, hstore, _, hsync⟩ := pinCode_eq_ok hs'
  refine ⟨s', hs', hserves.mono (fun id => ?_) fun _ h => hlaws.serves_syncPinnedCodes h hsync⟩
  rw [hstore, row_put_of_ne (by simp)]

theorem importCodeEntry_returns {c : Code} (hs : Pinnable s.store)
    (hhash : names.codeHash c.codeBytes = some c.codeInfo.codeHash)
    (hgzip : isGzip c.codeBytes = false) (hnew : row s.store (.code c.codeID) = none) :
    ∃ s', k.importCodeEntry i s c = .ok s' ∧ k.ServesCodes names s' := by
  have hstore := hlaws.storeCodeUnchecked s.vm c.codeBytes
  rw [hhash, Option.map_eq_some_iff] at hstore
  obtain ⟨⟨checksum, vm⟩, hvm, hchecksum⟩ := hstore
  obtain rfl : checksum = c.codeInfo.codeHash := hchecksum
  have hhas : s.store.has (getCodeKey c.codeID) = false := (has_eq_false_iff _).mpr hnew
  have himport : ∃ t, k.importCode s c.codeID c.codeInfo c.codeBytes = .ok t ∧ t.vm = vm := by
    simp [Keeper.importCode, uncompressIfGzip_of_not_gzip hgzip, hvm, createFailedOr, require, hhas]
  obtain ⟨t, ht, rfl⟩ := himport
  obtain ⟨-, hstore⟩ := importCode_eq_ok ht
  have hserves' : k.ServesCodes names t := by
    intro id info hrow
    rw [hstore, row_put] at hrow
    split_ifs at hrow
    · obtain rfl : c.codeInfo = info := by simpa using hrow
      exact ⟨c.codeBytes, hlaws.getCode_storeCodeUnchecked hvm, hhash, hgzip⟩
    · exact hlaws.serves_storeCodeUnchecked (hserves id info hrow) hvm
  rw [Keeper.importCodeEntry, ht, wrapErr_ok, ok_bind]
  split_ifs
  · have hpinnable : Pinnable t.store := by
      have hunpinned := hs.code { c with pinned := false }
      rwa [Code.write, ← hstore] at hunpinned
    obtain ⟨s', hs', hserves'⟩ := pinCode_returns hlaws hserves' hpinnable c.codeID (by rw [hstore]; simp)
    exact ⟨s', by rw [hs', wrapErr_ok], hserves'⟩
  · exact ⟨t, rfl, hserves'⟩

theorem importVkParamEntry_returns {p : VkParam} (hp : p.Named names) :
    ∃ s', k.importVkParamEntry i s p = .ok s' ∧ k.ServesCodes names s' := by
  have hstore := hlaws.storeParam s.vm p.paramBytes
  rw [hp.2, Option.map_eq_some_iff] at hstore
  obtain ⟨⟨key, vm⟩, hvm, hkey⟩ := hstore
  obtain rfl : key = p.paramKey := hkey
  rw [Keeper.importVkParamEntry, Keeper.importVkParam, require_of (by simpa using hp.1),
    ok_bind, hvm, createFailedOr, ok_bind]
  dsimp only
  rw [require_of (by simpa using (hlaws.paramKey hp.2).1), require_of (by simp)]
  refine ⟨_, rfl, hserves.mono (fun id => ?_) fun _ h => hlaws.serves_storeParam h hvm⟩
  exact row_vkParam_write (by simp) (by simp)

omit hserves in
theorem warmParam_returns {t : Store} {id : UInt64} {info : CircuitInfo} {blob : Bytes}
    (hheld : HoldsCircuit k names t id info blob) (haligned : Aligned info blob) (vm : ν) (zkID : UInt64) :
    ∃ vm', k.warmParam vm zkID info blob = .ok vm' ∧
      ∀ checksum, k.engine.Serves names vm checksum → k.engine.Serves names vm' checksum := by
  obtain ⟨params, hparams, htake, -⟩ := hheld.circuitParamBytes
  have hkey := hheld.layout.paramKey
  rw [haligned, ← htake] at hkey
  have hstore := hlaws.storeParam vm params
  rw [hkey, Option.map_eq_some_iff] at hstore
  obtain ⟨⟨key, vm'⟩, hvm, heq⟩ := hstore
  obtain rfl : key = info.circuitHash.take 36 := heq
  have hassert : assertParamKeyMatchesCircuit (info.circuitHash.take 36) info.circuitHash = .ok () := by
    rw [assertParamKeyMatchesCircuit, require_of (by simpa using (hlaws.paramKey hkey).1),
      ok_bind, require_of (by simp)]
  simp only [Keeper.warmParam, hparams, hvm, createFailedOr, ok_bind, hassert]
  exact ⟨vm', rfl, fun _ h => hlaws.serves_storeParam h hvm⟩

theorem importCircuitEntry_returns {t : Store} {id : UInt64} {c : Circuit} (hs : Pinnable s.store)
    (hheld : HoldsCircuit k names t id c.zkInfo c.zkBytes) (haligned : Aligned c.zkInfo c.zkBytes)
    (hnew : row s.store (.circuit c.zkID) = none)
    (hcode : c.pinned = true → (row s.store (.code c.zkID)).isSome) :
    ∃ s', k.importCircuitEntry i s c = .ok s' ∧ k.ServesCodes names s' := by
  obtain ⟨vm, hwarm, hwarmed⟩ := warmParam_returns hlaws hheld haligned s.vm c.zkID
  have hstore := hlaws.storeCircuitUnchecked vm c.zkBytes
  rw [hheld.key, Option.map_eq_some_iff] at hstore
  obtain ⟨⟨key, vm'⟩, hvm, hkey⟩ := hstore
  obtain rfl : key = c.zkInfo.circuitHash := hkey
  have hhas : s.store.has (getCircuitKey c.zkID) = false := (has_eq_false_iff _).mpr hnew
  have himport : ∃ t, k.importCircuit s c.zkID c.zkInfo c.zkBytes = .ok t ∧ t.vm = vm' := by
    simp [Keeper.importCircuit, uncompressIfGzip_of_not_gzip hheld.layout.not_gzip,
      (hheld.alignment hlaws).mpr haligned, hwarm, hvm, createFailedOr, require, hhas]
  obtain ⟨t, ht, rfl⟩ := himport
  obtain ⟨-, hstore⟩ := importCircuit_eq_ok ht
  have hserves' : k.ServesCodes names t := by
    refine hserves.mono (fun id => ?_) fun _ h => hlaws.serves_storeCircuitUnchecked (hwarmed _ h) hvm
    rw [hstore, row_put_of_ne (by simp), row_put_of_ne (by simp)]
  rw [Keeper.importCircuitEntry, ht, wrapErr_ok, ok_bind]
  split_ifs with hpinned
  · have hpinnable : Pinnable t.store := by
      have hunpinned := hs.circuit (k := k) (c := { c with pinned := false }) (by simp)
      rwa [Keeper.writeCircuit, ← hstore] at hunpinned
    obtain ⟨s', hs', hserves'⟩ := pinCode_returns hlaws hserves' hpinnable c.zkID (by
      rw [hstore, row_put_of_ne (by simp), row_put_of_ne (by simp)]
      exact hcode hpinned)
    exact ⟨s', by rw [Keeper.permissionedPinCircuit, hs', wrapErr_ok], hserves'⟩
  · exact ⟨t, rfl, hserves'⟩

/-! ## Lists of entries -/

theorem importCodes_returns {codes : List Code} (hs : Pinnable s.store)
    (hcodes : ∀ c ∈ codes, names.codeHash c.codeBytes = some c.codeInfo.codeHash ∧
      isGzip c.codeBytes = false)
    (hnodup : (codes.map Code.codeID).Nodup) (hnew : ∀ c ∈ codes, row s.store (.code c.codeID) = none) :
    ∃ s', forEach k.importCodeEntry i s codes = .ok s' ∧ k.ServesCodes names s' ∧ Pinnable s'.store := by
  obtain ⟨s', hloop, hserves', hs', -⟩ := forEach_returns
    (I := fun (s : State ν β) (codes : List Code) => k.ServesCodes names s ∧ Pinnable s.store ∧
      (codes.map Code.codeID).Nodup ∧
      ∀ c ∈ codes, (names.codeHash c.codeBytes = some c.codeInfo.codeHash ∧ isGzip c.codeBytes = false) ∧
        row s.store (.code c.codeID) = none)
    (fun i s c codes ⟨hserves, hs, hnodup, hcodes⟩ => by
      obtain ⟨⟨hhash, hgzip⟩, hnew⟩ := hcodes c (by simp)
      obtain ⟨hc, hnodup⟩ := nodup_cons.mp hnodup
      obtain ⟨s', hs', hserves'⟩ := importCodeEntry_returns hlaws (i := i) hserves hs hhash hgzip hnew
      have hstore := (importCodeEntry_eq_ok hs').2
      refine ⟨s', hs', hserves', by rw [hstore]; exact hs.code c, hnodup, fun c' hc' => ?_⟩
      obtain ⟨hfits, hnew'⟩ := hcodes c' (by simp [hc'])
      refine ⟨hfits, ?_⟩
      rw [hstore, row_code_write (fun heq => hc ?_) (by simp), hnew']
      rw [← Key.code.inj heq]
      exact mem_map_of_mem hc')
    codes i s ⟨hserves, hs, hnodup, fun c hc => ⟨hcodes c hc, hnew c hc⟩⟩
  exact ⟨s', hloop, hserves', hs'⟩

theorem importVkParams_returns {ps : List VkParam} (hs : Pinnable s.store) (hps : ∀ p ∈ ps, p.Named names) :
    ∃ s', forEach k.importVkParamEntry i s ps = .ok s' ∧ k.ServesCodes names s' ∧ Pinnable s'.store := by
  obtain ⟨s', hloop, hserves', hs', -⟩ := forEach_returns (I := fun (s : State ν β) (ps : List VkParam) =>
      k.ServesCodes names s ∧ Pinnable s.store ∧ ∀ p ∈ ps, p.Named names)
    (fun i s p ps ⟨hserves, hs, hps⟩ => by
      obtain ⟨s', hs', hserves'⟩ := importVkParamEntry_returns hlaws hserves (i := i) (hps p (by simp))
      have hstore := importVkParamEntry_eq_ok (hlaws.paramKey (hps p (by simp)).2).1 hs'
      exact ⟨s', hs', hserves', by rw [hstore]; exact hs.vkParam p, fun p' hp' => hps p' (by simp [hp'])⟩)
    ps i s ⟨hserves, hs, hps⟩
  exact ⟨s', hloop, hserves', hs'⟩

theorem importCircuits_returns {circuits : List Circuit} (hs : Pinnable s.store)
    (hcircuits : ∀ c ∈ circuits, Aligned c.zkInfo c.zkBytes ∧
      ∃ t id, HoldsCircuit k names t id c.zkInfo c.zkBytes)
    (hnodup : (circuits.map Circuit.zkID).Nodup)
    (hnew : ∀ c ∈ circuits, row s.store (.circuit c.zkID) = none)
    (hcode : ∀ c ∈ circuits, c.pinned = true → (row s.store (.code c.zkID)).isSome) :
    ∃ s', forEach k.importCircuitEntry i s circuits = .ok s' := by
  obtain ⟨s', hloop, -⟩ := forEach_returns
    (I := fun (s : State ν β) (circuits : List Circuit) => k.ServesCodes names s ∧ Pinnable s.store ∧
      (circuits.map Circuit.zkID).Nodup ∧ ∀ c ∈ circuits, (Aligned c.zkInfo c.zkBytes ∧
        ∃ t id, HoldsCircuit k names t id c.zkInfo c.zkBytes) ∧ row s.store (.circuit c.zkID) = none ∧
        (c.pinned = true → (row s.store (.code c.zkID)).isSome))
    (fun i s c circuits ⟨hserves, hs, hnodup, hcircuits⟩ => by
      obtain ⟨⟨haligned, t, id, hheld⟩, hnew, hcode⟩ := hcircuits c (by simp)
      obtain ⟨hc, hnodup⟩ := nodup_cons.mp hnodup
      obtain ⟨s', hs', hserves'⟩ := importCircuitEntry_returns hlaws (i := i) hserves hs hheld haligned hnew hcode
      have hstore := (importCircuitEntry_eq_ok hs').2.1
      refine ⟨s', hs', hserves', by rw [hstore]; exact hs.circuit hcode, hnodup, fun c' hc' => ?_⟩
      obtain ⟨hfits, hnew', hcode'⟩ := hcircuits c' (by simp [hc'])
      refine ⟨hfits, ?_, ?_⟩
      · rw [hstore, row_writeCircuit (fun heq => hc ?_) (by simp) (by simp), hnew']
        rw [← Key.circuit.inj heq]
        exact mem_map_of_mem hc'
      · rwa [hstore, row_writeCircuit (by simp) (by simp) (by simp)])
    circuits i s ⟨hserves, hs, hnodup, fun c hc => ⟨hcircuits c hc, hnew c hc, hcode c hc⟩⟩
  exact ⟨s', hloop⟩

end entries

theorem importSequences_returns {seqs : List Sequence} {i : ℕ} {t : Store}
    (hnodup : (seqs.map Sequence.idKey).Nodup) (hnew : ∀ seq ∈ seqs, t.has seq.idKey = false) :
    ∃ t', forEach importSequenceEntry i t seqs = .ok t' := by
  obtain ⟨t', hloop, -⟩ := forEach_returns (f := importSequenceEntry)
    (I := fun (t : Store) (seqs : List Sequence) => (seqs.map Sequence.idKey).Nodup ∧
      ∀ seq ∈ seqs, t.has seq.idKey = false)
    (fun i t seq seqs ⟨hnodup, hnew⟩ => by
      obtain ⟨hseq, hnodup⟩ := nodup_cons.mp hnodup
      refine ⟨seq.write t, ?_, hnodup, fun seq' hseq' => ?_⟩
      · rw [importSequenceEntry, importAutoIncrementID, require_of (by simp [hnew seq])]
        rfl
      · have hne : seq.idKey ≠ seq'.idKey := fun heq => hseq (heq ▸ mem_map_of_mem hseq')
        rw [Sequence.write, KVStore.has, KVStore.get_set, if_neg hne]
        exact hnew seq' (by simp [hseq']))
    seqs i t ⟨hnodup, hnew⟩
  exact ⟨t', hloop⟩

/-! ## Sequences -/

theorem peek_sequences {s : Store} {qs : List Seq} {seqs : List Sequence}
    (h : List.Forall₂ (ExportsSeq s) qs seqs) (q : Seq) (hnodup : qs.Nodup) : ∀ t : Store,
    peekAutoIncrementID (seqs.foldl Sequence.write t) q.key =
      if q ∈ qs then peekAutoIncrementID s q.key else peekAutoIncrementID t q.key := by
  induction h with
  | nil => simp
  | @cons q' seq qs seqs hseq _ ih =>
    intro t
    obtain ⟨hq', hnodup⟩ := nodup_cons.mp hnodup
    rw [foldl_cons, ih hnodup, sequence_write_eq hseq.1]
    by_cases hq : q = q'
    · subst hq
      rw [if_neg hq', peekAutoIncrementID_put, if_pos (by simp), hseq.2]
    · rw [peekAutoIncrementID_congr (row_put_of_ne (by simpa using Ne.symm hq))]
      simp [hq]

/-! ## The import of an export -/

/-- What makes an export importable: parameters have keys of their own, the recorded length of a circuit's parameters
is that of its footer, and a pinned circuit has the id of a code. -/
structure Importable (s : Store) : Prop where
  keys : ∀ {id id' : UInt64} {info info' : VkParamInfo}, row s (.vkParam id) = some (.vkParamInfo info) →
    row s (.vkParam id') = some (.vkParamInfo info') → info.dataHash = info'.dataHash → id = id'
  aligned : ∀ {id : UInt64} {info : CircuitInfo} {blob : Bytes},
    row s (.circuit id) = some (.circuitInfo info) → row s (.circuitBytes id) = some (.raw blob) →
    Aligned info blob
  pins : ∀ id : UInt64, (row s (.circuit id)).isSome → (row s (.pin id)).isSome →
    (row s (.code id)).isSome

section exports

variable {s : Store} {data : GenesisState} (hs : Formed s) (hdata : Exports k names s data)
include hdata

theorem Exports.code_ids : data.codes.map Code.codeID = (codeInfos s).map Prod.fst :=
  (map_eq_of_forall₂ (fun _ _ h => h.1.symm) hdata.codes).symm

theorem Exports.circuit_ids : data.circuits.map Circuit.zkID = (circuitInfos s).map Prod.fst :=
  (map_eq_of_forall₂ (fun _ _ h => h.1.symm) hdata.circuits).symm

include hs

theorem Exports.codes_nodup : (data.codes.map Code.codeID).Nodup := by
  rw [hdata.code_ids]
  exact infos_nodup Key.code (fun _ => rfl) (code_named hs)

theorem Exports.circuits_nodup : (data.circuits.map Circuit.zkID).Nodup := by
  rw [hdata.circuit_ids]
  exact infos_nodup Key.circuit (fun _ => rfl) (circuit_named hs)

theorem Exports.code_iff {id : UInt64} : (∃ c ∈ data.codes, c.codeID = id) ↔ (row s (.code id)).isSome := by
  constructor
  · rintro ⟨c, hc, rfl⟩
    obtain ⟨⟨id, info⟩, hr, hid, -⟩ := exists_left_of_mem hdata.codes hc
    rw [hid, (mem_codeInfos hs).mp hr]
    rfl
  · intro hrow
    obtain ⟨info, hv⟩ := hs.exists_code hrow
    obtain ⟨c, hc, hid, -⟩ := exists_right_of_mem hdata.codes ((mem_codeInfos hs).mpr hv)
    exact ⟨c, hc, hid⟩

theorem Exports.circuit {c : Circuit} (hc : c ∈ data.circuits) :
    row s (.circuit c.zkID) = some (.circuitInfo c.zkInfo) ∧
      HoldsCircuit k names s c.zkID c.zkInfo c.zkBytes ∧ c.pinned = (row s (.pin c.zkID)).isSome := by
  obtain ⟨⟨id, info⟩, hr, hid, hinfo, hpin, hheld⟩ := exists_left_of_mem hdata.circuits hc
  rw [hid, hinfo]
  exact ⟨(mem_circuitInfos hs).mp hr, hheld, hpin⟩

theorem Exports.importable (hlaws : Lawful k.engine k.sha256 names) (h : Accepted k data) : Importable s := by
  obtain ⟨byKey, hparams, hcircuits⟩ := bind_eq_ok.mp h.crossRefs
  obtain ⟨stored, hstored, hstart, -⟩ := hdata.vkParams
  constructor
  · intro id id' info info' hrow hrow' hkey
    obtain ⟨p, hp, hid, hpkey, -⟩ := exists_right_of_mem hstored ((mem_vkParamInfos hs).mpr hrow)
    obtain ⟨p', hp', hid', hpkey', -⟩ := exists_right_of_mem hstored ((mem_vkParamInfos hs).mpr hrow')
    have hnodup := (checkVkParams_nodup data.vkParams 0 ∅ byKey hparams).1
    obtain rfl : p = p' := inj_on_of_nodup_map hnodup (hstart.subset hp) (hstart.subset hp')
      (by rw [hpkey, hpkey']; exact hkey)
    rw [← show p.paramID = id from hid, ← show p.paramID = id' from hid']
  · intro id info blob hrow hbytes
    obtain ⟨c, hc, hid, hinfo, -, hheld⟩ := exists_right_of_mem hdata.circuits ((mem_circuitInfos hs).mpr hrow)
    obtain rfl : blob = c.zkBytes := by simpa [hbytes] using hheld.bytes
    obtain rfl : c.zkInfo = info := hinfo
    have haligned := (forEach_eq_ok
      (P := fun c : Circuit => c ∈ data.circuits → Aligned c.zkInfo c.zkBytes)
      (fun i u c u' hcheck _ => ⟨trivial, fun hc =>
        aligned_of_checkCircuit hlaws (hdata.circuit hs hc).2.1 hcheck⟩)
      data.circuits 0 () () hcircuits trivial).2
    exact haligned c hc hc
  · intro id hcircuit hpin
    obtain ⟨info, hv⟩ := hs.exists_circuit hcircuit
    obtain ⟨c, hc, hid, -⟩ := exists_right_of_mem hdata.circuits ((mem_circuitInfos hs).mpr hv)
    obtain rfl : c.zkID = id := hid
    rw [← hdata.code_iff hs]
    exact h.pinned c hc (by rw [(hdata.circuit hs hc).2.2, hpin])

omit hs in
theorem Exports.vkParam (haligned : ∀ c ∈ data.circuits, Aligned c.zkInfo c.zkBytes) :
    List.Forall₂ (ExportsParam names s) (vkParamInfos s) data.vkParams := by
  obtain ⟨stored, hstored, -, hsame⟩ := hdata.vkParams
  rwa [hsame haligned]

variable (h : Importable s)
include h

theorem Exports.aligned {c : Circuit} (hc : c ∈ data.circuits) : Aligned c.zkInfo c.zkBytes := by
  obtain ⟨hrow, hheld, -⟩ := hdata.circuit hs hc
  exact h.aligned hrow hheld.bytes

theorem Exports.keys_nodup : (data.vkParams.map VkParam.paramKey).Nodup := by
  have hstored := hdata.vkParam fun c hc => hdata.aligned hs h hc
  have hids : ((vkParamInfos s).map Prod.fst).Nodup :=
    infos_nodup Key.vkParam (fun _ => rfl) (vkParam_named hs)
  rw [← map_eq_of_forall₂ (fun _ _ hr => hr.2.1.symm) hstored]
  refine List.Nodup.map_on ?_ hids.of_map
  rintro ⟨id, info⟩ hr ⟨id', info'⟩ hr' hkey
  rw [mem_vkParamInfos hs] at hr hr'
  obtain rfl := h.keys hr hr' hkey
  rw [hr] at hr'
  cases hr'
  rfl

theorem Exports.named {p : VkParam} (hp : p ∈ data.vkParams) : p.Named names := by
  obtain ⟨⟨id, info⟩, -, -, hkey, hheld⟩ := exists_left_of_mem (hdata.vkParam fun c hc => hdata.aligned hs h hc) hp
  exact ⟨hheld.2.2.1, by rw [hkey]; exact hheld.2.2.2⟩

theorem Exports.crossRefs (hlaws : Lawful k.engine k.sha256 names) :
    k.validateGenesisParamCircuitCrossRefs data = .ok () := by
  obtain ⟨byKey, hparams, hbyKey, -⟩ := checkVkParams_returns hlaws data.vkParams 0 ∅
    (fun p hp => hdata.named hs h hp) (hdata.keys_nodup hs h) fun p _ => AList.lookup_empty _
  obtain ⟨u, hloop, -⟩ := forEach_returns (f := fun _ _ c => k.checkCircuit byKey c)
    (I := fun _ circuits => ∀ c ∈ circuits, c ∈ data.circuits)
    (fun i u c circuits hmem => by
      have hc := hmem c (by simp)
      have haligned := hdata.aligned hs h hc
      obtain ⟨hrow, hheld, -⟩ := hdata.circuit hs hc
      -- the parameters in front of the circuit are stored, so that the export lists them
      obtain ⟨params, paramID, info, hparam, htake, hkey⟩ := hheld.param haligned
      obtain ⟨p, hp, -, hpkey, hpheld⟩ := exists_right_of_mem
        (hdata.vkParam fun c hc => hdata.aligned hs h hc) ((mem_vkParamInfos hs).mpr hparam.1)
      have hbytes : p.paramBytes = params := by simpa [hparam.2.1] using hpheld.2.1.symm
      refine ⟨(), checkCircuit_eq_ok hlaws hheld haligned (p := p) ?_ ?_, fun c' hc' => hmem c' (by simp [hc'])⟩
      · rw [← hkey, ← hpkey]
        exact hbyKey p hp
      · rw [hbytes, htake, haligned])
    data.circuits 0 () fun _ hc => hc
  rw [Keeper.validateGenesisParamCircuitCrossRefs, hparams, ok_bind, hloop]

omit hs h in
theorem Exports.peek (q : Seq) : peekAutoIncrementID (k.written data) q.key = peekAutoIncrementID s q.key := by
  rw [Keeper.written, peek_sequences hdata.sequences q (List.Nodup.filter _ (by decide))]
  split_ifs with hq
  · rfl
  · refine peekAutoIncrementID_congr ?_
    rw [row_recorded_eq_none (by simp) (by simp [Key.recordedAs])]
    cases hrow : row s (.seq q) with
    | none => rfl
    | some v =>
      refine absurd (mem_filter.mpr ⟨?_, ?_⟩) hq
      · cases q <;> decide
      · simp [hrow]

omit hs h in
theorem Exports.idKey (seq : Sequence) (hseq : seq ∈ data.sequences) : ∃ q : Seq, seq.idKey = q.key := by
  obtain ⟨q, -, hkey, -⟩ := exists_left_of_mem hdata.sequences hseq
  exact ⟨q, hkey⟩

omit hs h in
theorem Exports.idKeys_nodup : (data.sequences.map Sequence.idKey).Nodup := by
  rw [← map_eq_of_forall₂ (fun _ _ hseq => hseq.1.symm) hdata.sequences]
  exact List.Nodup.map Seq.key_injective (List.Nodup.filter _ (by decide))

omit h in
theorem Exports.checkSequences {n : ℕ} (hn : Numbered n s) :
    k.checkSequences (k.written data) (maxID (data.codes.map Code.codeID))
      (maxID (data.circuits.map Circuit.zkID)) = .ok () := by
  obtain ⟨code, hcode, hpos, -⟩ := hn.seq .code
  obtain ⟨circuit, hcircuit, hpos', -⟩ := hn.seq .circuit
  obtain ⟨contract, hcontract, -, -⟩ := hn.seq .contract
  have hcodes : maxID (data.codes.map Code.codeID) < code := by
    refine maxID_lt_iff.mpr ⟨UInt64.lt_iff_toNat_lt.mpr hpos, fun id hid => UInt64.lt_iff_toNat_lt.mpr ?_⟩
    obtain ⟨c, hc, rfl⟩ := mem_map.mp hid
    exact hn.below rfl ((hdata.code_iff hs).mp ⟨c, hc, rfl⟩) hcode
  have hcircuits : maxID (data.circuits.map Circuit.zkID) < circuit := by
    refine maxID_lt_iff.mpr ⟨UInt64.lt_iff_toNat_lt.mpr hpos', fun id hid => UInt64.lt_iff_toNat_lt.mpr ?_⟩
    obtain ⟨c, hc, rfl⟩ := mem_map.mp hid
    have hrow : (row s (.circuit c.zkID)).isSome := by
      rw [(hdata.circuit hs hc).1]
      rfl
    exact hn.below rfl hrow hcircuit
  have hfree : (k.written data).has (getContractAddressKey (k.classicAddress contract)) = false := by
    refine (has_eq_false_iff (.contract (k.classicAddress contract))).mpr ?_
    rw [row_written hdata.idKey (by simp), row_recorded_eq_none (by simp) (by simp [Key.recordedAs])]
  have hpeek := hdata.peek .code
  have hpeek' := hdata.peek .circuit
  have hpeek'' := hdata.peek .contract
  simp only [Seq.key] at hpeek hpeek' hpeek'' hcode hcircuit hcontract
  rw [Keeper.checkSequences, hpeek, hcode, ok_bind, require_of (by simpa using hcodes),
    ok_bind, hpeek', hcircuit, ok_bind, require_of (by simpa using hcircuits),
    ok_bind, hpeek'', hcontract, ok_bind, require_of (by simpa using hfree)]

theorem Exports.returns (hlaws : Lawful k.engine k.sha256 names) {n : ℕ} (hn : Numbered n s) (vm : ν)
    (app : β) : ∃ s', k.initGenesis ⟨.empty, vm, app⟩ data = .ok s' := by
  have hempty : Pinnable (initialStore data.params) :=
    ⟨initialStore_formed _, fun id hpin => by rw [row_initialStore (by simp)] at hpin; cases hpin⟩
  have hserves : k.ServesCodes names ⟨initialStore data.params, vm, app⟩ := by
    intro id info hrow
    cases hrow
  obtain ⟨s₁, hcodes, hserves₁, hs₁⟩ := importCodes_returns hlaws hserves hempty (fun c hc => by
      obtain ⟨r, -, -, hinfo, -, hhash, hgzip⟩ := exists_left_of_mem hdata.codes hc
      exact ⟨by rw [hinfo]; exact hhash, hgzip⟩)
    (hdata.codes_nodup hs) fun c _ => row_initialStore (by simp)
  obtain ⟨s₂, hparams, hserves₂, hs₂⟩ := importVkParams_returns hlaws hserves₁ hs₁ fun p hp => hdata.named hs h hp
  have hstore₁ := (importCodes_eq_ok hcodes).1
  have hstore₂ := importVkParams_eq_ok
    (fun p hp => (hlaws.paramKey (hdata.named hs h hp).2).1) hparams
  obtain ⟨s₃, hcircuits⟩ := importCircuits_returns hlaws hserves₂ hs₂
    (fun c hc => ⟨hdata.aligned hs h hc, s, c.zkID, (hdata.circuit hs hc).2.1⟩) (hdata.circuits_nodup hs)
    (fun c _ => by
      rw [hstore₂, hstore₁, row_foldl_eq _ _ fun p _ t => row_vkParam_write (by simp) (by simp),
        row_foldl_eq _ _ fun c _ t => row_code_write (by simp) (by simp), row_initialStore (by simp)])
    (fun c hc hpinned => by
      -- the pin is in the store, and `h` has a code for it
      obtain ⟨hrow, -, hpin⟩ := hdata.circuit hs hc
      have hcode := h.pins c.zkID (by rw [hrow]; rfl) (by rw [← hpin, hpinned])
      rw [← hdata.code_iff hs, ← isSome_row_code_recorded (k := k), Keeper.recorded,
        row_foldl_eq _ _ fun c _ t => row_writeCircuit (by simp) (by simp) (by simp), ← hstore₁,
        ← hstore₂] at hcode
      exact hcode)
  have hrecorded : s₃.store = k.recorded data := by
    rw [(importCircuits_eq_ok hcircuits).1, hstore₂, hstore₁]
    rfl
  obtain ⟨t, hseqs⟩ := importSequences_returns (t := s₃.store) hdata.idKeys_nodup fun seq hseq => by
    obtain ⟨q, hq⟩ := hdata.idKey seq hseq
    rw [hq, hrecorded]
    exact (has_eq_false_iff (.seq q)).mpr (row_recorded_eq_none (by simp) (by simp [Key.recordedAs]))
  have ht : t = k.written data := by
    rw [(importSequences_eq_ok hseqs).1, hrecorded]
    rfl
  have hrefs := hdata.crossRefs hs h hlaws
  refine ⟨{ s₃ with store := t }, ?_⟩
  simp only [Keeper.initGenesis, hrefs]
  change (forEach k.importCodeEntry 0 ⟨initialStore data.params, vm, app⟩ data.codes >>= _) = _
  rw [hcodes, ok_bind, hparams, ok_bind, hcircuits, ok_bind, hseqs, ok_bind, ht, hdata.checkSequences hs hn]
  rfl

end exports

/-- **The export of a reachable state can be imported exactly if the state is importable.** -/
theorem import_export_iff (hlaws : Lawful k.engine k.sha256 names) (p : Params) (vm vm' : ν) (app app' : β)
    (ops : List Op) (hlen : ops.length < 2 ^ 63) :
    ∃ data, k.exportGenesis (run k.step ⟨initialStore p, vm, app⟩ ops) = .ok data ∧
      ((∃ s', k.initGenesis ⟨.empty, vm', app'⟩ data = .ok s') ↔
        Importable (run k.step ⟨initialStore p, vm, app⟩ ops).store) := by
  obtain ⟨n, hs, hn, hstored⟩ := run_stored hlaws p vm app ops hlen
  obtain ⟨data, hexport, hdata⟩ := exportGenesis_eq_ok hlaws hs hn hstored
  refine ⟨data, hexport, ?_, ?_⟩
  · rintro ⟨s', hs'⟩
    exact hdata.importable hs hlaws (initGenesis_eq_ok hs').2
  · intro h
    exact hdata.returns hs h hlaws hn vm' app'

/-! ## Parameters stored twice -/

theorem sample_circuitLayout : CircuitLayout sample.keeper.sha256 sample.naming
    (sampleParams ++ sampleBody) sampleCircuitKey where
  footer_le := by decide
  length_lt := by decide
  not_gzip := by decide
  key_length := by decide
  checksum := by decide
  paramKey := by decide

theorem lookup_singleton {a b x y : Bytes} (h : [(a, b)].lookup x = some y) : x = a ∧ y = b := by
  by_cases hx : x = a
  · subst hx
    rw [lookup_cons_self] at h
    exact ⟨rfl, (Option.some.inj h).symm⟩
  · simp [beq_false_of_ne hx] at h

theorem sample_lawful : Lawful sample.keeper.engine sample.keeper.sha256 sample.naming := by
  have hserves : ∀ {vm : Files} {h : Bytes}, ¬ sample.keeper.engine.Serves sample.naming vm h := by
    rintro vm h ⟨code, -, hhash, -⟩
    cases hhash
  constructor
  case storeCodeUnchecked => exact fun vm code => rfl
  case storeParam =>
      intro vm params
      change ((sample.params.lookup params).map _).map Prod.fst = _
      rw [Option.map_map]
      exact Option.map_id'
  case storeCircuitUnchecked =>
      intro vm blob
      change ((sample.circuits.lookup blob).map _).map Prod.fst = _
      rw [Option.map_map]
      exact Option.map_id'
  case storeCode =>
      intro vm code checksum vm' h
      cases h
  case storeCircuit =>
      intro vm blob key vm' h
      obtain ⟨key', hlookup, heq⟩ := Option.map_eq_some_iff.mp (h : (sample.circuits.lookup blob).map _ = _)
      obtain rfl : key' = key := (Prod.mk.inj heq).1
      obtain ⟨rfl, rfl⟩ := lookup_singleton hlookup
      exact ⟨hlookup, sample_circuitLayout⟩
  case paramKey =>
      intro params key h
      obtain ⟨rfl, rfl⟩ := lookup_singleton h
      decide
  case getCode_storeCodeUnchecked =>
      intro vm code checksum vm' h
      cases h
  case syncPinnedCodes => exact fun _ => rfl
  all_goals exact fun h => absurd h hserves

def uploadOnce : State Files Unit :=
  run sample.keeper.step ⟨initialStore defaultParams, {}, ()⟩
    [.storeFullCircuit 0 (account 1) true sampleParams sampleBody .default]

def uploadTwice : State Files Unit :=
  run sample.keeper.step ⟨initialStore defaultParams, {}, ()⟩
    [.storeVkParam 0 (account 1) true sampleParams .default,
      .storeVkParam 0 (account 2) true sampleParams .default]

theorem uploadOnce_imported : Importable uploadOnce.store ∧
    ∃ data s', sample.keeper.exportGenesis uploadOnce = .ok data ∧
      sample.keeper.initGenesis ⟨.empty, {}, ()⟩ data = .ok s' := by
  obtain ⟨data, hexport, hiff⟩ := import_export_iff sample_lawful defaultParams
    {} {} () () [.storeFullCircuit 0 (account 1) true sampleParams sampleBody .default]
    (by decide)
  have hok : (sample.keeper.exportGenesis uploadOnce >>=
      sample.keeper.initGenesis ⟨.empty, {}, ()⟩).isOk = true := by decide
  obtain ⟨s', hs'⟩ := isOk_iff.mp hok
  rw [uploadOnce, hexport] at hs'
  exact ⟨hiff.mp ⟨s', hs'⟩, data, s', hexport, hs'⟩

/-- The second copy of the parameters has the key of the first, which the import rejects. -/
theorem uploadTwice_not_imported :
    Lawful sample.keeper.engine sample.keeper.sha256 sample.naming ∧
    ∃ data, sample.keeper.exportGenesis uploadTwice = .ok data ∧
      ∀ s', sample.keeper.initGenesis ⟨.empty, {}, ()⟩ data ≠ .ok s' := by
  have hok : (sample.keeper.exportGenesis uploadTwice).isOk = true := by decide
  have hfails : (sample.keeper.exportGenesis uploadTwice >>=
      sample.keeper.initGenesis ⟨.empty, {}, ()⟩).isOk = false := by decide
  obtain ⟨data, hdata⟩ := isOk_iff.mp hok
  refine ⟨sample_lawful, data, hdata, fun s' hs' => ?_⟩
  rw [hdata, ok_bind, hs'] at hfails
  cases hfails

end Wasm
