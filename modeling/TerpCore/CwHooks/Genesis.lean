/-
  The genesis of x/cw-hooks: exporting a chain and importing the export gives the same store back.
-/
import TerpCore.CwHooks.Removal

namespace CwHooks

open Lib Outcome KVStore List

/-- The genesis of the module: parameters and the contracts of both hooks. -/
structure GenesisState where
  params : Params
  stakingContractAddresses : List Bytes
  govContractAddresses : List Bytes
  deriving DecidableEq

namespace Keeper

variable (k : Keeper)

/-- Whether every address can be read; all parameters are valid. -/
def validateGenesis (data : GenesisState) : Bool :=
  (data.stakingContractAddresses ++ data.govContractAddresses).all fun v => (k.codec.accAddressFromBech32 v).isSome

/-- The loop of `InitGenesis` over the addresses of one hook; an unreadable one panics. -/
def initContracts (keyPrefix : Bytes) (s : Store) : List Bytes → Outcome Err Store
  | [] => .ok s
  | v :: rest => do
    let accAddr ← .ofOption (k.codec.accAddressFromBech32 v)
    initContracts keyPrefix (setContract s keyPrefix accAddr) rest

/-- What cannot be read halts the chain. -/
def initGenesis (s : Store) (data : GenesisState) : Outcome Err Store :=
  if k.validateGenesis data then do
    let s ← k.initContracts Hook.staking.keyPrefix (setParams s data.params) data.stakingContractAddresses
    k.initContracts Hook.governance.keyPrefix s data.govContractAddresses
  else .panicked

/-- Bytes that are no address are never registered; here they are written as nothing. -/
def getAllContractsBech32 (s : Store) (keyPrefix : Bytes) : List Bytes :=
  (getAllContracts s keyPrefix).map fun c => (AccAddress.ofBytes c).elim [] k.codec.string

/-- `ExportGenesis`: the addresses are exported as text. -/
def exportGenesis (s : Store) : GenesisState :=
  ⟨getParams s, k.getAllContractsBech32 s Hook.staking.keyPrefix, k.getAllContractsBech32 s Hook.governance.keyPrefix⟩

end Keeper

/-- A row: the parameters, or the registration of a contract whose address can be read. -/
inductive Row (k : Keeper) : Bytes × Value → Prop
  | params (p : Params) : Row k (paramsKey, .params p)
  | contract (hook : Hook) {c : AccAddress} (hread : k.codec.accAddressFromBech32 (k.codec.string c) = some c) :
      Row k (hook.keyPrefix ++ c.bytes, .entry)

/-- The parameters are there, and every other row registers a contract. -/
structure Formed (k : Keeper) (s : Store) : Prop where
  params : (s.get paramsKey).isSome
  rows : ∀ key v, s.get key = some v → Row k (key, v)

section formed

variable {k : Keeper} {s t : Store} {hook : Hook} {c : AccAddress} {b : Bytes} {v : Value}

theorem paramsKey_ne : hook.keyPrefix ++ b ≠ paramsKey := by
  cases hook <;> simp [paramsKey, Hook.keyPrefix]

theorem Formed.set (hs : Formed k s) {row : Bytes × Value} (h : Row k row) : Formed k (s.set row.1 row.2) := by
  refine ⟨?_, fun key v hget => ?_⟩
  · rw [get_set]
    split_ifs
    · rfl
    · exact hs.params
  · rw [get_set] at hget
    split_ifs at hget with hkey
    · cases hget
      exact hkey ▸ h
    · exact hs.rows key v hget

theorem step_formed (s : State) (msg : Msg) (hs : Formed k s.store) : Formed k (k.step s msg).store := by
  refine orElse_elim (P := fun t : State => Formed k t.store) hs fun t h => ?_
  cases handle_effect h with
  | @registered c hook hnot sender hread => exact hs.set (.contract hook hread)
  | removed =>
    refine ⟨(get_delete_of_ne _ paramsKey_ne).symm ▸ hs.params, fun key v hget => ?_⟩
    rw [deleteContract, get_delete] at hget
    split_ifs at hget
    exact hs.rows key v hget
  | @params p => exact hs.set (.params p)
  | admin => exact hs

theorem initContracts_formed : ∀ {addresses : List Bytes} {s : Store},
    k.initContracts hook.keyPrefix s addresses = .ok t → Formed k s → Formed k t
  | [], _, h, hs => ok.inj h ▸ hs
  | _ :: _, _, h, hs => by
    obtain ⟨c, hc, h⟩ := bind_eq_ok.mp h
    exact initContracts_formed h (hs.set (.contract hook (k.codec.reads_string (ofOption_eq_ok.mp hc))))

theorem initGenesis_formed {data : GenesisState} (h : k.initGenesis .empty data = .ok t) : Formed k t := by
  rw [Keeper.initGenesis] at h
  split_ifs at h
  obtain ⟨s, hstaking, hgov⟩ := bind_eq_ok.mp h
  refine initContracts_formed hgov (initContracts_formed hstaking ⟨by simp [setParams], fun key v hget => ?_⟩)
  rw [setParams, get_set, get_empty] at hget
  split_ifs at hget with hkey
  cases hget
  exact hkey ▸ .params _

theorem Formed.get_paramsKey (hs : Formed k s) : s.get paramsKey = some (.params (getParams s)) := by
  obtain ⟨v, hv⟩ := Option.isSome_iff_exists.mp hs.params
  generalize hkey : paramsKey = key at hv
  cases hs.rows key v hv with
  | params p => rw [getParams, hv]
  | contract => exact absurd hkey.symm paramsKey_ne

theorem Formed.contract_of_get (hs : Formed k s) (hget : s.get (hook.keyPrefix ++ b) = some v) :
    v = .entry ∧ ∃ c, c.bytes = b ∧ k.codec.accAddressFromBech32 (k.codec.string c) = some c := by
  generalize hkey : hook.keyPrefix ++ b = key at hget
  cases hs.rows key v hget with
  | params => exact absurd hkey paramsKey_ne
  | @contract hook' c hread =>
    refine ⟨rfl, c, ?_, hread⟩
    cases hook <;> cases hook' <;> simp [Hook.keyPrefix] at hkey <;> exact hkey.symm

theorem initContracts_rows : ∀ {rows : List (Bytes × Value)} (t : Store),
    (∀ r ∈ rows, r.2 = .entry ∧ ∃ c, c.bytes = r.1 ∧ k.codec.accAddressFromBech32 (k.codec.string c) = some c) →
      k.initContracts hook.keyPrefix t
          ((rows.map Prod.fst).map fun c => (AccAddress.ofBytes c).elim [] k.codec.string) =
        .ok (t.setRows (rows.map fun r => (hook.keyPrefix ++ r.1, r.2)))
  | [], _, _ => rfl
  | (b, v) :: rows, t, h => by
    obtain ⟨⟨rfl, c, rfl, hread⟩, hrest⟩ := forall_mem_cons.mp h
    rw [map_cons, map_cons, AccAddress.ofBytes_bytes, Option.elim, Keeper.initContracts, hread]
    exact initContracts_rows _ hrest

end formed

/-- **Export and import**: from any genesis and after any messages, the import of the export into an empty store is
the store that was exported. -/
theorem initGenesis_exportGenesis (k : Keeper) (contracts : Wasm.Contracts) (data : GenesisState) (s₀ : Store)
    (hinit : k.initGenesis .empty data = .ok s₀) (msgs : List Msg) :
    let s := (run k.step ⟨s₀, contracts⟩ msgs).store
    k.initGenesis .empty (k.exportGenesis s) = .ok s := by
  intro s
  have hs : Formed k s :=
    run_preserves step_formed _ msgs (initGenesis_formed hinit)
  have hrows : ∀ hook : Hook, ∀ r ∈ s.iterator hook.keyPrefix,
      r.2 = .entry ∧ ∃ c, c.bytes = r.1 ∧ k.codec.accAddressFromBech32 (k.codec.string c) = some c :=
    fun hook r hr => hs.contract_of_get (mem_iterator.mp hr)
  have hread : ∀ hook : Hook, ∀ v ∈ k.getAllContractsBech32 s hook.keyPrefix,
      (k.codec.accAddressFromBech32 v).isSome := by
    intro hook v hv
    obtain ⟨b, hb, rfl⟩ := mem_map.mp hv
    obtain ⟨r, hr, rfl⟩ := mem_map.mp hb
    obtain ⟨-, c, hc, hread⟩ := hrows hook r hr
    simp [← hc, AccAddress.ofBytes_bytes, hread]
  have hvalid : k.validateGenesis (k.exportGenesis s) = true :=
    all_eq_true.mpr fun v hv => (mem_append.mp hv).elim (hread .staking v) (hread .governance v)
  rw [Keeper.initGenesis, if_pos hvalid]
  refine bind_eq_ok.mpr ⟨_, initContracts_rows _ (hrows .staking), ?_⟩
  refine (initContracts_rows _ (hrows .governance)).trans (congrArg ok ?_)
  rw [← setRows_append]
  -- the parameters, then the rows of either hook
  change empty.setRows ((paramsKey, Value.params (getParams s)) :: _) = s
  refine setRows_of_rows fun key v => ?_
  rw [mem_cons, mem_append, mem_map, mem_map]
  constructor
  · rintro (hrow | ⟨r, hr, hrow⟩ | ⟨r, hr, hrow⟩) <;> obtain ⟨rfl, rfl⟩ := Prod.mk.inj hrow
    · exact hs.get_paramsKey
    · exact mem_iterator.mp hr
    · exact mem_iterator.mp hr
  · intro hget
    cases hs.rows key v hget with
    | params p => exact .inl (congrArg _ (Option.some.inj (hget.symm.trans hs.get_paramsKey)))
    | contract hook =>
      have hmem := mem_iterator.mpr hget
      cases hook with
      | staking => exact .inr (.inl ⟨_, hmem, rfl⟩)
      | governance => exact .inr (.inr ⟨_, hmem, rfl⟩)

open Sample in
/-- The admin registers its contract for both hooks and removes it from one. -/
theorem registrations_exported :
    let s := (run keeper.step ⟨setParams .empty ⟨5⟩, contracts⟩
      [registration, .registerGovernance (account 1) contractText, .unregisterStaking (account 1) contractText]).store
    keeper.exportGenesis s = ⟨⟨5⟩, [], [contractText]⟩ ∧ keeper.initGenesis .empty (keeper.exportGenesis s) = .ok s :=
  ⟨by decide +kernel, initGenesis_exportGenesis keeper contracts ⟨⟨5⟩, [], []⟩ _ rfl _⟩

end CwHooks
