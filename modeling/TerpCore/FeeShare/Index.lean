/-
  The indexes of deployers and withdrawers.
-/
import Mathlib.Data.List.Infix
import TerpCore.FeeShare.Keeper

namespace Feeshare

open Lib Outcome KVStore List

/-! ## Records -/

section records

variable (s : Store) (c : AccAddress)

theorem getFeeShare_eq_some {f : FeeShare} :
    getFeeShare s c = some f ↔ s.get (keyPrefixFeeShare ++ c.bytes) = some (.feeShare f) := by
  unfold getFeeShare
  rcases s.get (keyPrefixFeeShare ++ c.bytes) with _ | _ | _ | _ <;> simp

theorem getFeeShare_congr {s t : Store} {c : AccAddress}
    (h : t.get (keyPrefixFeeShare ++ c.bytes) = s.get (keyPrefixFeeShare ++ c.bytes)) :
    getFeeShare t c = getFeeShare s c := by
  rw [getFeeShare, h, ← getFeeShare]

end records

/-! ## An index -/

/-- The deployers' and the withdrawers' index: whom a record belongs to, and where its entries stand. -/
structure Index where
  owner : FeeShare → Option AccAddress
  keyPrefix : Bytes

def Keeper.deployers (k : Keeper) : Index := ⟨FeeShare.getDeployerAddr k.codec.toBech32, keyPrefixDeployer⟩

def Keeper.withdrawers (k : Keeper) : Index := ⟨FeeShare.getWithdrawerAddr k.codec.toBech32, keyPrefixWithdrawer⟩

def Index.Owns (i : Index) (s : Store) (o c : AccAddress) : Prop :=
  ∃ f, getFeeShare s c = some f ∧ i.owner f = some o

/-- The index has the entries of the records, and no others. -/
def IndexOf (i : Index) (s : Store) : Prop :=
  ∀ key, (s.get (i.keyPrefix ++ key)).isSome ↔ ∃ o c, i.Owns s o c ∧ key = o.bytes ++ c.bytes

/-- No other record has the key of a contract's. -/
def ApartAt (i : Index) (s : Store) (c : AccAddress) : Prop :=
  ∀ o o' c', i.Owns s o c → i.Owns s o' c' → o.bytes ++ c.bytes = o'.bytes ++ c'.bytes → c' = c

/-- No two records have the same key. -/
def Apart (i : Index) (s : Store) : Prop := ∀ c, ApartAt i s c

/-- Where the entry of a contract's record stands, if there is a record. -/
def Index.keyOf (i : Index) (c : AccAddress) (r : Option FeeShare) : Option Bytes :=
  (r.bind i.owner).map fun o => o.bytes ++ c.bytes

variable {i : Index} {c : AccAddress} {s : Store}

theorem Index.keyOf_eq_some {r : Option FeeShare} {key : Bytes} :
    i.keyOf c r = some key ↔ ∃ f o, r = some f ∧ i.owner f = some o ∧ o.bytes ++ c.bytes = key := by
  cases r <;> simp [Index.keyOf]

theorem Index.keyOf_none (i : Index) (c : AccAddress) : i.keyOf c none = none := rfl

theorem Index.keyOf_some {f : FeeShare} {o : AccAddress} (h : i.owner f = some o) (c : AccAddress) :
    i.keyOf c (some f) = some (o.bytes ++ c.bytes) := keyOf_eq_some.mpr ⟨f, o, rfl, h, rfl⟩

theorem IndexOf.replace {t : Store} {r : Option FeeShare} (h : IndexOf i s) (hapart : ApartAt i s c)
    (hrecords : ∀ c', getFeeShare t c' = if c = c' then r else getFeeShare s c')
    (hentries : ∀ key, (t.get (i.keyPrefix ++ key)).isSome ↔ i.keyOf c r = some key ∨
      (s.get (i.keyPrefix ++ key)).isSome ∧ i.keyOf c (getFeeShare s c) ≠ some key) : IndexOf i t := by
  intro key
  rw [hentries, h key]
  constructor
  · rintro (hnew | ⟨⟨o, c', ⟨f, hf, ho⟩, rfl⟩, hother⟩)
    · obtain ⟨f, o, rfl, ho, rfl⟩ := Index.keyOf_eq_some.mp hnew
      exact ⟨o, c, ⟨f, by rw [hrecords, if_pos rfl], ho⟩, rfl⟩
    · have hne : c ≠ c' := by
        rintro rfl
        exact hother (Index.keyOf_eq_some.mpr ⟨f, o, hf, ho, rfl⟩)
      exact ⟨o, c', ⟨f, by rw [hrecords, if_neg hne, hf], ho⟩, rfl⟩
  · rintro ⟨o, c', ⟨f, hf, ho⟩, rfl⟩
    rw [hrecords] at hf
    by_cases hc : c = c'
    · subst hc
      rw [if_pos rfl] at hf
      exact .inl (Index.keyOf_eq_some.mpr ⟨f, o, hf, ho, rfl⟩)
    · rw [if_neg hc] at hf
      refine .inr ⟨⟨o, c', ⟨f, hf, ho⟩, rfl⟩, fun hold => hc ?_⟩
      obtain ⟨f', o', hf', ho', hkey⟩ := Index.keyOf_eq_some.mp hold
      exact (hapart o' o c' ⟨f', hf', ho'⟩ ⟨f, hf, ho⟩ hkey).symm

/-! ## What is read from it -/

/-- An address owns what the index and all pages of its query say. -/
structure Exact (k : Keeper) (i : Index) (s : Store) (isSet : AccAddress → AccAddress → Bool)
    (query : AccAddress → Option (List Bytes)) (o : AccAddress) : Prop where
  index : ∀ c, isSet o c = true ↔ i.Owns s o c
  query : ∃ contracts, query o = some contracts ∧ contracts.Nodup ∧
    ∀ x, x ∈ contracts ↔ ∃ c, i.Owns s o c ∧ x = k.codec.string c

/-- No key of another owner starts with an address. -/
def Clear (i : Index) (s : Store) (o : AccAddress) : Prop :=
  ∀ o' c, i.Owns s o' c → o.bytes <+: o'.bytes ++ c.bytes → o' = o

theorem pages_eq (k : Keeper) (s : Store) (p : Bytes) (limits : ℕ → ℕ) :
    (allPages (s.iterator p) limits ((s.iterator p).length + 1) 0 []).map
      (fun pages => pages.map fun r => k.codec.text r.1) = some ((s.iterator p).map fun r => k.codec.text r.1) := by
  rw [allPages_eq (s.iterator_sorted p) limits (Nat.lt_succ_self _), Option.map_some]

theorem exact_iff {k : Keeper} {isSet : AccAddress → AccAddress → Bool} {query : AccAddress → Option (List Bytes)}
    (hset : ∀ o c, isSet o c = s.has (entryKey i.keyPrefix o.bytes c))
    (hquery : ∀ o, query o = some ((s.iterator (i.keyPrefix ++ o.bytes)).map fun r => k.codec.text r.1))
    (hindex : IndexOf i s) (hapart : Apart i s) (o : AccAddress) :
    Exact k i s isSet query o ↔ Clear i s o := by
  have hmem : ∀ x, x ∈ (s.iterator (i.keyPrefix ++ o.bytes)).map (fun r => k.codec.text r.1) ↔
      ∃ key o' c, i.Owns s o' c ∧ o.bytes ++ key = o'.bytes ++ c.bytes ∧ x = k.codec.text key := by
    intro x
    rw [mem_map]
    constructor
    · rintro ⟨⟨key, v⟩, hrow, rfl⟩
      rw [mem_iterator, append_assoc] at hrow
      obtain ⟨o', c, howns, hkey⟩ := (hindex _).mp (by rw [hrow]; rfl)
      exact ⟨key, o', c, howns, hkey, rfl⟩
    · rintro ⟨key, o', c, howns, hkey, rfl⟩
      obtain ⟨v, hv⟩ := Option.isSome_iff_exists.mp ((hindex (o.bytes ++ key)).mpr ⟨o', c, howns, hkey⟩)
      exact ⟨(key, v), by rw [mem_iterator, append_assoc, hv], rfl⟩
  constructor
  · rintro ⟨-, contracts, hcontracts, -, hexact⟩ o' c howns ⟨key, hkey⟩
    rw [hquery] at hcontracts
    cases hcontracts
    obtain ⟨c', howns', htext⟩ := (hexact _).mp ((hmem _).mpr ⟨key, o', c, howns, hkey, rfl⟩)
    rw [← k.codec.text_bytes] at htext
    rw [k.codec.text_injective htext] at hkey
    obtain rfl := hapart c' o o' c howns' howns hkey
    obtain ⟨f, hf, ho⟩ := howns
    obtain ⟨f', hf', ho'⟩ := howns'
    rw [hf] at hf'
    rw [Option.some.inj hf', ho'] at ho
    exact (Option.some.inj ho).symm
  · intro hclear
    refine ⟨?_, _, hquery o, ?_, ?_⟩
    · intro c
      rw [hset, has, entryKey, hindex]
      constructor
      · rintro ⟨o', c', howns, hkey⟩
        obtain rfl := hclear o' c' howns ⟨c.bytes, hkey⟩
        rwa [AccAddress.ext (append_cancel_left hkey)]
      · exact fun howns => ⟨o, c, howns, rfl⟩
    · have hnodup := (s.keys_nodup (i.keyPrefix ++ o.bytes)).map k.codec.text_injective
      rwa [map_map] at hnodup
    · intro x
      rw [hmem]
      constructor
      · rintro ⟨key, o', c, howns, hkey, rfl⟩
        obtain rfl := hclear o' c howns ⟨key, hkey⟩
        obtain rfl := append_cancel_left hkey
        exact ⟨c, howns, k.codec.text_bytes c⟩
      · rintro ⟨c, howns, rfl⟩
        exact ⟨c.bytes, o, c, howns, rfl, (k.codec.text_bytes c).symm⟩

/-! ## Records and indexes in step -/

/-- Every record stands under its contract and belongs to somebody, and both indexes are kept. -/
structure InStep (k : Keeper) (s : Store) : Prop where
  registered : ∀ c, isFeeShareRegistered s c = true → (getFeeShare s c).isSome
  contract : ∀ c f, getFeeShare s c = some f → f.getContractAddr k.codec.toBech32 = some c
  deployer : ∀ c f, getFeeShare s c = some f → (f.getDeployerAddr k.codec.toBech32).isSome
  withdrawer : ∀ c f, getFeeShare s c = some f → (f.getWithdrawerAddr k.codec.toBech32).isSome
  deployers : IndexOf k.deployers s
  withdrawers : IndexOf k.withdrawers s

section replace

variable {k : Keeper} {s t : Store} {c : AccAddress} {r : Option FeeShare}

theorem InStep.replace (h : InStep k s) (hdeployers : ApartAt k.deployers s c)
    (hwithdrawers : ApartAt k.withdrawers s c)
    (hr : ∀ f, r = some f → f.getContractAddr k.codec.toBech32 = some c ∧
      (f.getDeployerAddr k.codec.toBech32).isSome ∧ (f.getWithdrawerAddr k.codec.toBech32).isSome)
    (hrows : ∀ c', t.get (keyPrefixFeeShare ++ c'.bytes) =
      if c = c' then r.map .feeShare else s.get (keyPrefixFeeShare ++ c'.bytes))
    (hdeployer : ∀ key, (t.get (keyPrefixDeployer ++ key)).isSome ↔ k.deployers.keyOf c r = some key ∨
      (s.get (keyPrefixDeployer ++ key)).isSome ∧ k.deployers.keyOf c (getFeeShare s c) ≠ some key)
    (hwithdrawer : ∀ key, (t.get (keyPrefixWithdrawer ++ key)).isSome ↔ k.withdrawers.keyOf c r = some key ∨
      (s.get (keyPrefixWithdrawer ++ key)).isSome ∧ k.withdrawers.keyOf c (getFeeShare s c) ≠ some key) :
    InStep k t := by
  have hrecords : ∀ c', getFeeShare t c' = if c = c' then r else getFeeShare s c' := by
    intro c'
    unfold getFeeShare
    rw [hrows]
    by_cases hc : c = c'
    · rw [if_pos hc, if_pos hc]
      cases r <;> rfl
    · rw [if_neg hc, if_neg hc]
  -- a record is the new one or an old one
  have hcases : ∀ c' f, getFeeShare t c' = some f → c = c' ∧ r = some f ∨ getFeeShare s c' = some f := by
    intro c' f hf
    rw [hrecords] at hf
    split at hf
    · exact .inl ⟨‹_›, hf⟩
    · exact .inr hf
  refine ⟨?_, ?_, ?_, ?_, h.deployers.replace hdeployers hrecords hdeployer,
    h.withdrawers.replace hwithdrawers hrecords hwithdrawer⟩
  · intro c' hc'
    rw [isFeeShareRegistered, has, hrows] at hc'
    rw [hrecords]
    split
    · next heq =>
        rw [if_pos heq] at hc'
        cases r with
        | none => cases hc'
        | some f => rfl
    · next hne =>
        rw [if_neg hne] at hc'
        exact h.registered c' hc'
  · intro c' f hf
    rcases hcases c' f hf with ⟨rfl, hnew⟩ | hold
    · exact (hr f hnew).1
    · exact h.contract c' f hold
  · intro c' f hf
    rcases hcases c' f hf with ⟨rfl, hnew⟩ | hold
    · exact (hr f hnew).2.1
    · exact h.deployer c' f hold
  · intro c' f hf
    rcases hcases c' f hf with ⟨rfl, hnew⟩ | hold
    · exact (hr f hnew).2.2
    · exact h.withdrawer c' f hold

theorem apartAt_of_none {i : Index} (h : getFeeShare s c = none) : ApartAt i s c := by
  rintro o o' c' ⟨f, hf, -⟩ - -
  simp [h] at hf

theorem InStep.insert (h : InStep k s) (hnew : getFeeShare s c = none) {f : FeeShare} {d w : AccAddress}
    (hc : f.getContractAddr k.codec.toBech32 = some c) (hd : f.getDeployerAddr k.codec.toBech32 = some d)
    (hw : f.getWithdrawerAddr k.codec.toBech32 = some w) :
    InStep k (setWithdrawerMap (setDeployerMap (s.set (keyPrefixFeeShare ++ c.bytes) (.feeShare f)) d.bytes c)
      w.bytes c) := by
  refine h.replace (r := some f) (apartAt_of_none hnew) (apartAt_of_none hnew) ?_ ?_ ?_ ?_
  · rintro _ ⟨⟩
    exact ⟨hc, by rw [hd]; rfl, by rw [hw]; rfl⟩
  · simp [setWithdrawerMap, setDeployerMap, entryKey, keyPrefixFeeShare, keyPrefixDeployer, keyPrefixWithdrawer,
      get_set, AccAddress.ext_iff]
  · intro key
    rw [hnew, Index.keyOf_some hd, Index.keyOf_none]
    simp only [setWithdrawerMap, setDeployerMap, entryKey, keyPrefixFeeShare, keyPrefixDeployer,
      keyPrefixWithdrawer, get_set]
    by_cases hkey : d.bytes ++ c.bytes = key <;> simp [hkey]
  · intro key
    rw [hnew, Index.keyOf_some hw, Index.keyOf_none]
    simp only [setWithdrawerMap, setDeployerMap, entryKey, keyPrefixFeeShare, keyPrefixDeployer,
      keyPrefixWithdrawer, get_set]
    by_cases hkey : w.bytes ++ c.bytes = key <;> simp [hkey]

variable {f : FeeShare} (h : InStep k s) (hdeployers : ApartAt k.deployers s c)
  (hwithdrawers : ApartAt k.withdrawers s c) (hf : getFeeShare s c = some f)

include h hdeployers hwithdrawers hf

theorem InStep.erase {d w : AccAddress} (hd : f.getDeployerAddr k.codec.toBech32 = some d)
    (hw : f.getWithdrawerAddr k.codec.toBech32 = some w) :
    InStep k (deleteWithdrawerMap (deleteDeployerMap (s.delete (keyPrefixFeeShare ++ c.bytes)) d.bytes c)
      w.bytes c) := by
  refine h.replace (r := none) hdeployers hwithdrawers ?_ ?_ ?_ ?_
  · rintro _ ⟨⟩
  · simp [deleteWithdrawerMap, deleteDeployerMap, entryKey, keyPrefixFeeShare, keyPrefixDeployer,
      keyPrefixWithdrawer, get_delete, AccAddress.ext_iff]
  · intro key
    rw [hf, Index.keyOf_some hd, Index.keyOf_none]
    simp only [deleteWithdrawerMap, deleteDeployerMap, entryKey, keyPrefixFeeShare, keyPrefixDeployer,
      keyPrefixWithdrawer, get_delete]
    by_cases hkey : d.bytes ++ c.bytes = key <;> simp [hkey]
  · intro key
    rw [hf, Index.keyOf_some hw, Index.keyOf_none]
    simp only [deleteWithdrawerMap, deleteDeployerMap, entryKey, keyPrefixFeeShare, keyPrefixDeployer,
      keyPrefixWithdrawer, get_delete]
    by_cases hkey : w.bytes ++ c.bytes = key <;> simp [hkey]

theorem InStep.update {w w' : AccAddress} (hw : f.getWithdrawerAddr k.codec.toBech32 = some w) {text : Bytes}
    (hread : k.codec.accAddressFromBech32 text = some w') :
    InStep k ((setWithdrawerMap (deleteWithdrawerMap s w.bytes c) w'.bytes c).set
      (keyPrefixFeeShare ++ c.bytes) (.feeShare { f with withdrawerAddress := k.codec.string w' })) := by
  have hw' : FeeShare.getWithdrawerAddr k.codec.toBech32 { f with withdrawerAddress := k.codec.string w' } = some w' :=
    k.codec.reads_string hread
  obtain ⟨d, hd⟩ := Option.isSome_iff_exists.mp (h.deployer c f hf)
  have hd' : FeeShare.getDeployerAddr k.codec.toBech32 { f with withdrawerAddress := k.codec.string w' } = some d := hd
  refine h.replace (r := some { f with withdrawerAddress := k.codec.string w' }) hdeployers hwithdrawers ?_ ?_ ?_ ?_
  · rintro _ ⟨⟩
    exact ⟨h.contract c f hf, h.deployer c f hf, by rw [hw']; rfl⟩
  · simp [setWithdrawerMap, deleteWithdrawerMap, entryKey, keyPrefixFeeShare, keyPrefixWithdrawer,
      get_set, get_delete, AccAddress.ext_iff]
  · intro key
    -- the entry of the deployer is there already
    have hentry : (s.get (keyPrefixDeployer ++ (d.bytes ++ c.bytes))).isSome :=
      (h.deployers _).mpr ⟨d, c, ⟨f, hf, hd⟩, rfl⟩
    rw [hf, Index.keyOf_some hd, Index.keyOf_some hd']
    simp only [setWithdrawerMap, deleteWithdrawerMap, entryKey, keyPrefixFeeShare, keyPrefixDeployer,
      keyPrefixWithdrawer, get_set, get_delete] at hentry ⊢
    by_cases hkey : d.bytes ++ c.bytes = key
    · subst hkey
      simpa using hentry
    · simp [hkey]
  · intro key
    rw [hf, Index.keyOf_some (i := k.withdrawers) hw, Index.keyOf_some hw']
    simp only [setWithdrawerMap, deleteWithdrawerMap, entryKey, keyPrefixFeeShare, keyPrefixWithdrawer,
      get_set, get_delete]
    by_cases hkey : w.bytes ++ c.bytes = key <;> by_cases hkey' : w'.bytes ++ c.bytes = key <;> simp [hkey, hkey']

end replace

/-! ## Messages -/

section messages

variable {k : Keeper} {s t : Store} {contracts : Keeper.Contracts}

theorem setFeeShare_eq {f : FeeShare} {c : AccAddress} (hc : f.getContractAddr k.codec.toBech32 = some c) :
    k.setFeeShare s f = .ok (s.set (keyPrefixFeeShare ++ c.bytes) (.feeShare f)) := by
  rw [Keeper.setFeeShare, hc]
  rfl

theorem getContractAddr_newFeeShare {codec : Bech32} {text : Bytes} {c : AccAddress}
    (hc : codec.accAddressFromBech32 text = some c) (d w : AccAddress) :
    (newFeeShare codec c d w).getContractAddr codec = some c := codec.reads_string hc

theorem getContractAdminOrCreatorAddress_read {c a : AccAddress} {deployer : Bytes}
    (h : k.getContractAdminOrCreatorAddress contracts c deployer = .ok a) :
    ∃ text, k.codec.accAddressFromBech32 text = some a := by
  obtain ⟨_, -, h⟩ := bind_eq_ok.mp h
  obtain ⟨info, -, h⟩ := bind_eq_ok.mp h
  split_ifs at h <;> obtain ⟨_, -, h⟩ := bind_eq_ok.mp h <;> exact ⟨_, demand_eq_ok.mp h⟩

/-- Every deployer is read from a text. -/
theorem deployerOf_read {c a : AccAddress} {contractAddress deployer withdrawer : Bytes}
    (h : k.deployerOf contracts c contractAddress deployer withdrawer = .ok a) :
    ∃ text, k.codec.accAddressFromBech32 text = some a := by
  obtain ⟨info, -, h⟩ := bind_eq_ok.mp h
  split_ifs at h
  · obtain ⟨_, -, h⟩ := bind_eq_ok.mp h
    exact ⟨_, demand_eq_ok.mp h⟩
  · exact getContractAdminOrCreatorAddress_read h

theorem getFeeShare_eq_none {c : AccAddress} (h : isFeeShareRegistered s c = false) : getFeeShare s c = none := by
  cases hf : getFeeShare s c with
  | none => rfl
  | some f =>
    rw [getFeeShare_eq_some] at hf
    simp [isFeeShareRegistered, KVStore.has, hf] at h

variable {contractAddress deployerAddress : Bytes}

variable (hs : InStep k s)

include hs

theorem registerFeeShare_inStep {withdrawerAddress : Bytes}
    (h : k.registerFeeShare contracts s contractAddress deployerAddress withdrawerAddress = .ok t) : InStep k t := by
  obtain ⟨_, -, h⟩ := bind_eq_ok.mp h
  obtain ⟨contract, hcontract, h⟩ := bind_eq_ok.mp h
  obtain ⟨_, hnew, h⟩ := bind_eq_ok.mp h
  obtain ⟨withdrawer, hwithdrawer, h⟩ := bind_eq_ok.mp h
  obtain ⟨deployer, hdeployer, h⟩ := bind_eq_ok.mp h
  rw [demand_eq_ok] at hcontract hwithdrawer
  rw [setFeeShare_eq (getContractAddr_newFeeShare hcontract ..)] at h
  cases h
  have hnew : isFeeShareRegistered s contract = false := by simpa using hnew
  obtain ⟨text, hread⟩ := deployerOf_read hdeployer
  exact hs.insert (getFeeShare_eq_none hnew) (getContractAddr_newFeeShare hcontract ..)
    (k.codec.reads_string hread) (k.codec.reads_string hwithdrawer)

theorem updateFeeShare_inStep {withdrawerAddress : Bytes} (hdeployers : Apart k.deployers s)
    (hwithdrawers : Apart k.withdrawers s)
    (h : k.updateFeeShare contracts s contractAddress deployerAddress withdrawerAddress = .ok t) : InStep k t := by
  obtain ⟨_, -, h⟩ := bind_eq_ok.mp h
  obtain ⟨contract, -, h⟩ := bind_eq_ok.mp h
  obtain ⟨f, hf, h⟩ := bind_eq_ok.mp h
  obtain ⟨_, -, h⟩ := bind_eq_ok.mp h
  obtain ⟨_, -, h⟩ := bind_eq_ok.mp h
  obtain ⟨withdrawAddr, hw, h⟩ := bind_eq_ok.mp h
  obtain ⟨newWithdrawAddr, hnew, h⟩ := bind_eq_ok.mp h
  rw [demand_eq_ok] at hf hw hnew
  have hcontract : FeeShare.getContractAddr k.codec.toBech32
      { f with withdrawerAddress := k.codec.string newWithdrawAddr } = some contract := hs.contract contract f hf
  rw [setFeeShare_eq hcontract] at h
  cases h
  exact hs.update (hdeployers contract) (hwithdrawers contract) hf hw hnew

theorem cancelFeeShare_inStep (hdeployers : Apart k.deployers s) (hwithdrawers : Apart k.withdrawers s)
    (h : k.cancelFeeShare contracts s contractAddress deployerAddress = .ok t) : InStep k t := by
  obtain ⟨_, -, h⟩ := bind_eq_ok.mp h
  obtain ⟨contract, -, h⟩ := bind_eq_ok.mp h
  obtain ⟨f, hf, h⟩ := bind_eq_ok.mp h
  obtain ⟨_, -, h⟩ := bind_eq_ok.mp h
  rw [demand_eq_ok] at hf
  obtain ⟨d, hd⟩ := Option.isSome_iff_exists.mp (hs.deployer contract f hf)
  obtain ⟨w, hw⟩ := Option.isSome_iff_exists.mp (hs.withdrawer contract f hf)
  rw [Keeper.deleteFeeShare, hs.contract contract f hf] at h
  simp only [hd, hw, ofOption, ok_bind, pure_eq, ok.injEq] at h
  rw [← h]
  exact hs.erase (hdeployers contract) (hwithdrawers contract) hf hd hw

theorem InStep.params (v : Value) : InStep k (s.set paramsKey v) := by
  have hrecords : ∀ c, getFeeShare (s.set paramsKey v) c = getFeeShare s c := fun c =>
    getFeeShare_congr (get_set_of_ne _ _ (by simp [paramsKey, keyPrefixFeeShare]))
  have howns : ∀ (i : Index) o c, i.Owns (s.set paramsKey v) o c ↔ i.Owns s o c := by
    intro i o c
    rw [Index.Owns, hrecords, ← Index.Owns]
  refine ⟨?_, ?_, ?_, ?_, ?_, ?_⟩
  · intro c hc
    rw [hrecords]
    refine hs.registered c ?_
    rwa [isFeeShareRegistered, has, get_set_of_ne _ _ (by simp [paramsKey, keyPrefixFeeShare])] at hc
  · intro c f hf
    exact hs.contract c f (by rwa [hrecords] at hf)
  · intro c f hf
    exact hs.deployer c f (by rwa [hrecords] at hf)
  · intro c f hf
    exact hs.withdrawer c f (by rwa [hrecords] at hf)
  · intro key
    have hentry := hs.deployers key
    simp only [howns] at hentry ⊢
    rwa [get_set_of_ne _ _ (by simp [paramsKey, Keeper.deployers, keyPrefixDeployer])]
  · intro key
    have hentry := hs.withdrawers key
    simp only [howns] at hentry ⊢
    rwa [get_set_of_ne _ _ (by simp [paramsKey, Keeper.withdrawers, keyPrefixWithdrawer])]

theorem step_inStep (hdeployers : Apart k.deployers s) (hwithdrawers : Apart k.withdrawers s)
    (op : Op) : InStep k (k.step s op) := by
  refine orElse_elim hs fun t h => ?_
  obtain ⟨contracts, msg⟩ := op
  cases msg with
  | registerFeeShare => exact registerFeeShare_inStep hs h
  | updateFeeShare => exact updateFeeShare_inStep hs hdeployers hwithdrawers h
  | cancelFeeShare => exact cancelFeeShare_inStep hs hdeployers hwithdrawers h
  | updateParams =>
    obtain ⟨_, -, h⟩ := bind_eq_ok.mp h
    obtain ⟨_, -, h⟩ := bind_eq_ok.mp h
    cases h
    exact hs.params _

end messages

/-! ## Genesis -/

section genesis

variable {k : Keeper}

theorem checkFeeShares_valid {codec : Bech32} : ∀ {fs : List FeeShare} {seen : List Bytes},
    checkFeeShares codec seen fs = .ok () → ∀ f ∈ fs, f.validate codec = .ok ()
  | [], _, _ => by simp
  | f :: fs, seen, h => by
    obtain ⟨_, -, h⟩ := bind_eq_ok.mp h
    obtain ⟨_, hf, h⟩ := bind_eq_ok.mp h
    exact forall_mem_cons.mpr ⟨hf, checkFeeShares_valid h⟩

theorem FeeShare.validate_eq_ok {codec : Bech32} {f : FeeShare} (h : f.validate codec = .ok ()) :
    ∃ c d w, f.getContractAddr codec = some c ∧ f.getDeployerAddr codec = some d ∧
      f.getWithdrawerAddr codec = some w := by
  obtain ⟨_, hc, h⟩ := bind_eq_ok.mp h
  obtain ⟨_, hd, h⟩ := bind_eq_ok.mp h
  obtain ⟨_, -, hw⟩ := bind_eq_ok.mp h
  obtain ⟨c, hc⟩ := Option.isSome_iff_exists.mp (require_eq_ok.mp hc)
  obtain ⟨d, hd⟩ := Option.isSome_iff_exists.mp (require_eq_ok.mp hd)
  obtain ⟨w, hw⟩ := Option.isSome_iff_exists.mp (require_eq_ok.mp hw)
  exact ⟨c, d, w, hc, hd, hw⟩

theorem initFeeShare_eq {s : Store} {f : FeeShare} {c d w : AccAddress}
    (hc : f.getContractAddr k.codec.toBech32 = some c) (hd : f.getDeployerAddr k.codec.toBech32 = some d)
    (hw : f.getWithdrawerAddr k.codec.toBech32 = some w) :
    k.initFeeShare s f = .ok (setWithdrawerMap (setDeployerMap
      (s.set (keyPrefixFeeShare ++ c.bytes) (.feeShare f)) d.bytes c) w.bytes c) := by
  rw [Keeper.initFeeShare, setFeeShare_eq hc, hc, hd, hw]
  rfl

theorem inStep_empty : InStep k .empty := by
  have hnone : ∀ c, getFeeShare .empty c = none := fun _ => rfl
  have hindex : ∀ i : Index, IndexOf i .empty := by
    intro i key
    simp [Index.Owns, hnone]
  exact ⟨by simp [isFeeShareRegistered, has], by simp [hnone], by simp [hnone], by simp [hnone], hindex _, hindex _⟩

/-- What is left of a genesis: valid records of different contracts that have none yet. -/
structure Importable (k : Keeper) (s : Store) (fs : List FeeShare) : Prop where
  inStep : InStep k s
  valid : ∀ f ∈ fs, f.validate k.codec.toBech32 = .ok ()
  distinct : (fs.map (FeeShare.getContractAddr k.codec.toBech32)).Nodup
  fresh : ∀ f ∈ fs, ∀ c, f.getContractAddr k.codec.toBech32 = some c → getFeeShare s c = none

theorem Importable.initFeeShare {s : Store} {f : FeeShare} {fs : List FeeShare} (h : Importable k s (f :: fs)) :
    ∃ t, k.initFeeShare s f = .ok t ∧ Importable k t fs := by
  obtain ⟨hin, hvalid, hdistinct, hfresh⟩ := h
  rw [forall_mem_cons] at hvalid hfresh
  rw [map_cons, nodup_cons] at hdistinct
  obtain ⟨c, d, w, hc, hd, hw⟩ := FeeShare.validate_eq_ok hvalid.1
  refine ⟨_, initFeeShare_eq hc hd hw, hin.insert (hfresh.1 c hc) hc hd hw, hvalid.2, hdistinct.2, ?_⟩
  intro g hg c' hc'
  have hne : c ≠ c' := by
    rintro rfl
    exact hdistinct.1 (mem_map.mpr ⟨g, hg, hc'.trans hc.symm⟩)
  refine (getFeeShare_congr ?_).trans (hfresh.2 g hg c' hc')
  simp [setWithdrawerMap, setDeployerMap, entryKey, keyPrefixFeeShare, keyPrefixDeployer, keyPrefixWithdrawer,
    get_set, ← AccAddress.ext_iff, hne]

/-- A valid genesis whose contracts are different addresses is imported with its indexes. -/
theorem initGenesis_inStep {gs : GenesisState} (hvalid : gs.validate k.codec.toBech32 = .ok ())
    (hdistinct : (gs.feeShare.map (FeeShare.getContractAddr k.codec.toBech32)).Nodup) :
    ∃ s, k.initGenesis gs = .ok s ∧ InStep k s := by
  obtain ⟨_, hshares, hparams⟩ := bind_eq_ok.mp hvalid
  have hset : setParams .empty gs.params = .ok (empty.set paramsKey (.params gs.params)) := by
    rw [setParams, hparams]
    rfl
  have hstart : Importable k (empty.set paramsKey (.params gs.params)) gs.feeShare :=
    ⟨inStep_empty.params _, checkFeeShares_valid hshares, hdistinct, fun _ _ _ _ => rfl⟩
  obtain ⟨s, hs, hin⟩ := forEach_returns (fun _ _ _ _ h => h.initFeeShare) gs.feeShare 0 _ hstart
  refine ⟨s, ?_, hin.inStep⟩
  rw [Keeper.initGenesis, hset]
  exact hs

end genesis

/-! ## Runs -/

/-- No two records share a key of an index. -/
def Unshared (k : Keeper) (s : Store) : Prop := Apart k.deployers s ∧ Apart k.withdrawers s

theorem run_inStep {k : Keeper} {ops : List Op} (hs : InStep k s)
    (h : ∀ before, before <+: ops → Unshared k (run k.step s before)) : InStep k (run k.step s ops) := by
  refine run_invariant (C := fun s _ => Unshared k s) (fun s op hs hapart => step_inStep hs hapart.1 hapart.2 op)
    s ops ?_ hs
  rw [along_iff_forall_before]
  rintro before op after rfl
  exact h before (prefix_append ..)

/-- After any messages from a valid genesis of different contracts, as long as no two records shared a key: the index
and the query of an owner are exact if and only if no other owner's key starts with the owner's address. -/
theorem indexes_exact (k : Keeper) (gs : GenesisState) (hvalid : gs.validate k.codec.toBech32 = .ok ())
    (hdistinct : (gs.feeShare.map (FeeShare.getContractAddr k.codec.toBech32)).Nodup) :
    ∃ s₀, k.initGenesis gs = .ok s₀ ∧ ∀ ops : List Op,
      (∀ before, before <+: ops → Unshared k (run k.step s₀ before)) → ∀ (limits : ℕ → ℕ) (o : AccAddress),
        (Exact k k.deployers (run k.step s₀ ops) (isDeployerMapSet (run k.step s₀ ops))
            (k.deployerFeeShares (run k.step s₀ ops) limits) o ↔ Clear k.deployers (run k.step s₀ ops) o) ∧
        (Exact k k.withdrawers (run k.step s₀ ops) (isWithdrawerMapSet (run k.step s₀ ops))
            (k.withdrawerFeeShares (run k.step s₀ ops) limits) o ↔ Clear k.withdrawers (run k.step s₀ ops) o) := by
  obtain ⟨s₀, hs₀, hin⟩ := initGenesis_inStep hvalid hdistinct
  refine ⟨s₀, hs₀, fun ops hapart limits o => ?_⟩
  have hrun := run_inStep hin hapart
  have hlast := hapart ops (prefix_refl ops)
  exact ⟨exact_iff (fun _ _ => rfl) (fun o => pages_eq k _ _ limits) hrun.deployers hlast.1 o,
    exact_iff (fun _ _ => rfl) (fun o => pages_eq k _ _ limits) hrun.withdrawers hlast.2 o⟩

/-! ## Addresses of one length -/

theorem apart_of_length {n : ℕ} (h : ∀ c f, getFeeShare s c = some f → c.bytes.length = n) : Apart i s := by
  rintro c o o' c' ⟨f, hf, -⟩ ⟨f', hf', -⟩ heq
  have hlength : c.bytes.length = c'.bytes.length := (h c f hf).trans (h c' f' hf').symm
  exact AccAddress.ext (append_inj_right' heq hlength).symm

theorem clear_of_length {o : AccAddress}
    (h : ∀ c f o', getFeeShare s c = some f → i.owner f = some o' → o'.bytes.length = o.bytes.length) :
    Clear i s o := by
  rintro o' c ⟨f, hf, ho⟩ ⟨rest, heq⟩
  exact AccAddress.ext (append_inj_left heq (h c f o' hf ho).symm).symm

theorem mem_of_getFeeShare {f : FeeShare} (h : getFeeShare s c = some f) :
    (c.bytes, .feeShare f) ∈ s.iterator keyPrefixFeeShare := by
  rw [mem_iterator]
  exact (getFeeShare_eq_some s c).mp h

namespace Sample

/-- The address of an account. -/
def account (b : UInt8) : AccAddress := ⟨b :: List.replicate 19 b, by simp, by simp⟩

/-- The address of a contract. -/
def contract (b : UInt8) : AccAddress := ⟨List.replicate 32 b, by simp, by simp⟩

/-- How an address is written. -/
def text : AccAddress → Bytes := Bech32Text.tagged.string

/-- A keeper whose authority is the account `7`. -/
def keeper : Keeper := ⟨.tagged, account 7, text (account 7)⟩

/-- Three contracts of one creator, without an admin. -/
def madeBy (creator : AccAddress) : Keeper.Contracts := fun c =>
  if c ∈ [contract 3, contract 4, contract 5] then some ⟨text creator, []⟩ else none

/-- A genesis that enables the module. -/
def start : GenesisState := ⟨⟨true, some ⟨0⟩, []⟩, []⟩

/-- The store that a genesis gives. -/
def chain (gs : GenesisState) : Store := (keeper.initGenesis gs).orElse .empty

theorem initGenesis_start : keeper.initGenesis start = .ok (chain start) := rfl

/-- Registers a contract for its creator, who also is to be paid. -/
def register (c creator : AccAddress) : Op := ⟨madeBy creator, .registerFeeShare (text c) (text creator) (text creator)⟩

/-- Two contracts of the account `1`, and one of the account `2`. -/
def registrations : List Op :=
  [register (contract 3) (account 1), register (contract 4) (account 2), register (contract 5) (account 1)]

/-- The first 32 bytes of the entry of the contract `3`. -/
def spanning : AccAddress := ⟨List.replicate 20 1 ++ List.replicate 12 3, by simp, by simp⟩

end Sample

open Sample in
/-- The contracts of the account `1`. -/
theorem contract_of_one :
    let s := run keeper.step (chain start) registrations
    start.validate keeper.codec.toBech32 = .ok () ∧
    keeper.deployerFeeShares s (fun _ => 1) (account 1) = some [text (contract 3), text (contract 5)] ∧
    Exact keeper keeper.deployers s (isDeployerMapSet s) (keeper.deployerFeeShares s fun _ => 1) (account 1) := by
  intro s
  have hvalid : start.validate keeper.codec.toBech32 = .ok () := by decide +kernel
  refine ⟨hvalid, by decide +kernel, ?_⟩
  obtain ⟨s₀, hs₀, hexact⟩ := indexes_exact keeper start hvalid nodup_nil
  cases initGenesis_start.symm.trans hs₀
  refine ((hexact registrations ?_ (fun _ => 1) (account 1)).1).mpr (clear_of_length ?_)
  · intro before hbefore
    have hrows : ∀ ops ∈ registrations.inits, ∀ r ∈ (run keeper.step (chain start) ops).iterator keyPrefixFeeShare,
        r.1.length = 32 := by decide +kernel
    have hlength : ∀ c f, getFeeShare (run keeper.step (chain start) before) c = some f → c.bytes.length = 32 :=
      fun c f hf => hrows before ((mem_inits _ _).mpr hbefore) _ (mem_of_getFeeShare hf)
    exact ⟨apart_of_length hlength, apart_of_length hlength⟩
  · intro c f o hf ho
    have hrows : (s.iterator keyPrefixFeeShare).map Prod.snd =
        [.feeShare ⟨text (contract 3), text (account 1), text (account 1)⟩,
          .feeShare ⟨text (contract 4), text (account 2), text (account 2)⟩,
          .feeShare ⟨text (contract 5), text (account 1), text (account 1)⟩] := by decide +kernel
    have hrow := mem_map_of_mem (f := Prod.snd) (mem_of_getFeeShare hf)
    rw [hrows] at hrow
    simp only [mem_cons, not_mem_nil, or_false, Value.feeShare.injEq] at hrow
    rcases hrow with rfl | rfl | rfl <;> exact congrArg (fun a => a.bytes.length) (Option.some.inj ho).symm

open Sample in
/-- The 20 bytes of account `1` and the 32 of its contract `3` are also 32 and 20: the entry is found for another
owner. -/
theorem found_for_another :
    let s := run keeper.step (chain start) registrations
    start.validate keeper.codec.toBech32 = .ok () ∧ keeper.initGenesis start = .ok (chain start) ∧
      isDeployerMapSet s spanning (account 3) = true ∧ getFeeShare s (account 3) = none ∧
      keeper.deployerFeeShares s (fun _ => 0) spanning = some [text (account 3)] :=
  ⟨by decide +kernel, rfl, by decide +kernel, by decide +kernel, by decide +kernel⟩

open Sample in
/-- A genesis names one contract in its two spellings, and leaves the entry of the first. -/
example :
    let gs : GenesisState := ⟨start.params, [⟨text (contract 3), text (account 1), text (account 1)⟩,
      ⟨1 :: (contract 3).bytes, text (account 2), text (account 2)⟩]⟩
    gs.validate keeper.codec.toBech32 = .ok () ∧ isDeployerMapSet (chain gs) (account 1) (contract 3) = true ∧
      (getFeeShare (chain gs) (contract 3)).map FeeShare.deployerAddress = some (text (account 2)) := by
  decide +kernel

end Feeshare
