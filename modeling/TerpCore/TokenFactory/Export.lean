/-
  Export of the application state and a new chain from it.
-/
import TerpCore.TokenFactory.Supply

namespace TokenFactory

open Lib Outcome KVStore List

variable {β : Type} {k : Keeper β}

/-! ## Export and import -/

structure Exported where
  bankMetadata : List Metadata
  tokenFactory : GenesisState

/-- `ExportAppStateAndValidators`, as far as the bank's metadata and the module go. -/
def exportAppStateAndValidators (s : State β) : Outcome Err Exported := do
  let store ← setParams s.store defaultParams
  let genState ← exportGenesis store
  return ⟨getAllDenomMetaData s.metadata, genState⟩

/-- A new chain, the bank first. -/
def Keeper.initChain (k : Keeper β) (bank : β) (e : Exported) : Outcome Err (State β) :=
  k.initGenesis (.fresh e.bankMetadata bank) e.tokenFactory

/-- Two chains with the same factory tokens. -/
structure SameTokens (s s' : State β) : Prop where
  params : getParams s'.store = getParams s.store
  admin : ∀ d, getAuthorityMetadata s'.store d = getAuthorityMetadata s.store d
  metadata : ∀ d, s'.metadata.get d = s.metadata.get d
  denoms : ∀ creator, getDenomsFromCreator s'.store creator = getDenomsFromCreator s.store creator

/-- The parameters are the default ones, and every denomination has the metadata it was created with and is in the
index of the creator it is read as. -/
def AsCreated (codec : Bech32) (s : State β) : Prop :=
  getParams s.store = .ok defaultParams ∧
    ∀ c d, s.store.get (creatorKey c d) = some (.denom d) →
      s.metadata.get d = some (newMetadata d) ∧ c = creatorOf codec d

/-! ## The bank's metadata -/

theorem initDenomMetaData_eq (ms : List Metadata) :
    initDenomMetaData ms = empty.setRows (ms.map fun m => (m.base, m)) := by
  rw [setRows_map]
  rfl

theorem initDenomMetaData_getAll {s : KVStore Metadata} (hbased : ∀ d m, s.get d = some m → m.base = d) :
    initDenomMetaData (getAllDenomMetaData s) = s := by
  have hrows : ∀ d m, (d, m) ∈ (getAllDenomMetaData s).map (fun m => (m.base, m)) ↔ s.get d = some m := by
    intro d m
    simp only [getAllDenomMetaData, map_map, mem_map, Function.comp_apply, Prod.mk.injEq]
    constructor
    · rintro ⟨⟨d', m'⟩, hmem, hbase, rfl⟩
      rw [mem_iterator] at hmem
      rwa [← hbase, hbased d' m' hmem]
    · intro hget
      exact ⟨(d, m), by rwa [mem_iterator], hbased d m hget, rfl⟩
  ext1 d
  rw [initDenomMetaData_eq]
  cases hget : s.get d with
  | some m =>
    refine get_setRows_of_mem ?_ ((hrows d m).mpr hget)
    rintro ⟨d', m'⟩ hmem rfl
    rw [hrows, hget] at hmem
    exact (Option.some.inj hmem).symm
  | none =>
    rw [get_setRows_of_ne, get_empty]
    rintro ⟨d', m'⟩ hmem rfl
    simp [hrows, hget] at hmem

/-! ## What is exported -/

def exported (s : KVStore Value) : Value → GenesisDenom
  | .denom d => ⟨d, (recorded s d).getD ⟨[]⟩⟩
  | _ => ⟨[], ⟨[]⟩⟩

def exportedDenoms (s : KVStore Value) : List GenesisDenom :=
  (s.iterator getCreatorsPrefix).map fun e => exported s e.2

section consistent

variable {s : State β} (h : Consistent k s)
include h

theorem Consistent.getAuthorityMetadata_eq (d : Bytes) :
    getAuthorityMetadata s.store d = .ok ((recorded s.store d).getD ⟨[]⟩) := by
  unfold getAuthorityMetadata recorded
  cases hget : s.store.get (authorityKey d) with
  | none => rfl
  | some v =>
    obtain ⟨m, rfl⟩ := h.authority hget
    rfl

theorem Consistent.exportGenesis_eq {p : Params} (hp : getParams s.store = .ok p) :
    exportGenesis s.store = .ok ⟨p, exportedDenoms s.store⟩ := by
  have hbody : ∀ e ∈ s.store.iterator getCreatorsPrefix, exportDenom s.store e.2 = .ok (exported s.store e.2) := by
    rintro ⟨rest, v⟩ hmem
    obtain ⟨creator, d, -, rfl, -⟩ := h.index (mem_iterator.mp hmem)
    rw [exportDenom, h.getAuthorityMetadata_eq d]
    rfl
  rw [exportGenesis, forEach_collect _ 0 [] hbody, hp]
  rfl

theorem Consistent.mem_exportedDenoms {g : GenesisDenom} :
    g ∈ exportedDenoms s.store ↔ recorded s.store g.denom = some g.authorityMetadata := by
  rw [exportedDenoms, mem_map]
  constructor
  · rintro ⟨⟨rest, v⟩, hmem, rfl⟩
    obtain ⟨creator, d, -, rfl, hd⟩ := h.index (mem_iterator.mp hmem)
    obtain ⟨m, hm⟩ := Option.isSome_iff_exists.mp hd
    simp only [exported, hm, Option.getD_some]
  · intro hg
    obtain ⟨creator, hcreator⟩ := h.indexed (by rw [hg]; rfl)
    refine ⟨_, mem_iterator.mpr hcreator, ?_⟩
    simp only [exported, hg, Option.getD_some]

theorem Consistent.exported_valid {g : GenesisDenom} (hg : g ∈ exportedDenoms s.store) : g.Valid k.codec := by
  rw [h.mem_exportedDenoms] at hg
  exact ⟨h.factory (by rw [hg]; rfl), h.admin hg⟩

end consistent

/-! ## What a new chain has -/

/-- The state of a chain that starts with the exported state of another. -/
def State.reborn (codec : Bech32) (s : State β) (bank : β) : State β where
  store := (empty.set paramsKey (.params defaultParams)).setRows
    ((exportedDenoms s.store).flatMap (GenesisDenom.rows codec))
  metadata := s.metadata.setRows ((exportedDenoms s.store).map fun g => (g.denom, newMetadata g.denom))
  bank := bank

section reborn

variable {s : State β} (h : Consistent k s)
include h

theorem Consistent.exportAppStateAndValidators_eq : exportAppStateAndValidators s =
    .ok ⟨getAllDenomMetaData s.metadata, ⟨defaultParams, exportedDenoms s.store⟩⟩ := by
  have hparams := h.withParams validate_defaultParams
  have hget : getParams (s.store.set paramsKey (.params defaultParams)) = .ok defaultParams := by
    rw [getParams, get_set_self]
  have hdenoms : exportedDenoms (s.store.set paramsKey (.params defaultParams)) = exportedDenoms s.store := by
    have hexported : exported (s.store.set paramsKey (.params defaultParams)) = exported s.store := by
      funext v
      cases v <;> simp [exported]
    rw [exportedDenoms, exportedDenoms, hexported, iterator_set_of_ne paramsKey_ne_creators]
  rw [exportAppStateAndValidators, setParams_of validate_defaultParams, ok_bind, hparams.exportGenesis_eq hget, hdenoms]
  rfl

theorem Consistent.initChain_eq (bank : β) :
    k.initChain bank ⟨getAllDenomMetaData s.metadata, ⟨defaultParams, exportedDenoms s.store⟩⟩ =
      .ok (s.reborn k.codec bank) := by
  rw [Keeper.initChain, initGenesis_eq _ validate_defaultParams fun _ hg => h.exported_valid hg]
  simp only [State.fresh, State.reborn, initDenomMetaData_getAll fun d m => h.based]

theorem Consistent.reborn (bank : β) : Consistent k (s.reborn k.codec bank) :=
  initGenesis_consistent validate_defaultParams (fun _ hg => h.exported_valid hg) (h.initChain_eq bank)

omit h in
theorem getParams_reborn (codec : Bech32) (bank : β) : getParams (s.reborn codec bank).store = .ok defaultParams := by
  have hget : (s.reborn codec bank).store.get paramsKey = some (.params defaultParams) := by
    rw [State.reborn, get_setRows_of_ne, get_set_self]
    intro r hr
    obtain ⟨g, -, hg⟩ := mem_flatMap.mp hr
    simp only [GenesisDenom.rows, mem_cons, not_mem_nil, or_false] at hg
    rcases hg with rfl | rfl
    · rw [creatorKey_eq]
      exact (paramsKey_ne_creators _).symm
    · exact (paramsKey_ne_authorityKey _).symm
  rw [getParams, hget]

theorem Consistent.recorded_reborn (bank : β) (d : Bytes) :
    recorded (s.reborn k.codec bank).store d = recorded s.store d := by
  cases hd : recorded s.store d with
  | none =>
    rw [← Option.not_isSome_iff_eq_none, State.reborn, isSome_recorded_setRows, recorded_set_paramsKey]
    rintro (hmem | hnone)
    · obtain ⟨g, hg, rfl⟩ := mem_map.mp hmem
      simp [h.mem_exportedDenoms, hd] at hg
    · simp [recorded] at hnone
  | some m =>
    have hg : (⟨d, m⟩ : GenesisDenom) ∈ exportedDenoms s.store := h.mem_exportedDenoms.mpr hd
    rw [recorded_eq_some]
    refine get_setRows_of_mem ?_ (mem_flatMap.mpr ⟨_, hg, by simp [GenesisDenom.rows]⟩)
    rintro r hr hkey
    obtain ⟨g, hg, hr⟩ := mem_flatMap.mp hr
    simp only [GenesisDenom.rows, mem_cons, not_mem_nil, or_false] at hr
    rcases hr with rfl | rfl
    · exact absurd hkey.symm (authorityKey_ne_creators _ _)
    · have hrecorded := h.mem_exportedDenoms.mp hg
      rw [authorityKey_injective hkey, hd] at hrecorded
      exact congrArg Value.authority (Option.some.inj hrecorded).symm

theorem Consistent.metadata_reborn (bank : β) (d : Bytes) : (s.reborn k.codec bank).metadata.get d =
    if (recorded s.store d).isSome then some (newMetadata d) else s.metadata.get d := by
  cases hd : recorded s.store d with
  | none =>
    refine get_setRows_of_ne ?_
    rintro r hr rfl
    obtain ⟨g, hg, rfl⟩ := mem_map.mp hr
    simp [h.mem_exportedDenoms, hd] at hg
  | some m =>
    refine get_setRows_of_mem ?_ (mem_map.mpr ⟨⟨d, m⟩, h.mem_exportedDenoms.mpr hd, rfl⟩)
    rintro r hr rfl
    obtain ⟨g, hg, rfl⟩ := mem_map.mp hr
    rfl

theorem Consistent.get_creators_reborn (bank : β) {rest : Bytes} {v : Value} :
    (s.reborn k.codec bank).store.get (getCreatorsPrefix ++ rest) = some v ↔
      ∃ d, (recorded s.store d).isSome ∧ rest = creatorOf k.codec d ++ keySeparator :: d ∧ v = .denom d := by
  constructor
  · intro hget
    rcases mem_of_get_setRows hget with hmem | hnone
    · obtain ⟨g, hg, hr⟩ := mem_flatMap.mp hmem
      simp only [GenesisDenom.rows, mem_cons, not_mem_nil, or_false, Prod.mk.injEq] at hr
      rcases hr with ⟨hkey, rfl⟩ | ⟨hkey, -⟩
      · rw [creatorKey_eq, append_cancel_left_eq] at hkey
        exact ⟨g.denom, by rw [h.mem_exportedDenoms.mp hg]; rfl, hkey, rfl⟩
      · exact absurd hkey.symm (authorityKey_ne_creators _ _)
    · cases hnone
  · rintro ⟨d, hd, rfl, rfl⟩
    obtain ⟨m, hm⟩ := Option.isSome_iff_exists.mp hd
    have hg : (⟨d, m⟩ : GenesisDenom) ∈ exportedDenoms s.store := h.mem_exportedDenoms.mpr hm
    rw [← creatorKey_eq]
    refine get_setRows_of_mem ?_ (mem_flatMap.mpr ⟨_, hg, by simp [GenesisDenom.rows]⟩)
    rintro r hr hkey
    obtain ⟨g, hg, hr⟩ := mem_flatMap.mp hr
    simp only [GenesisDenom.rows, mem_cons, not_mem_nil, or_false] at hr
    rcases hr with rfl | rfl
    · have hsep := h.keySeparator_not_mem_of_recorded (by rw [h.mem_exportedDenoms.mp hg]; rfl)
      rw [((creatorKey_inj hsep (h.keySeparator_not_mem_of_recorded hd)).mp hkey).2]
    · exact absurd hkey (authorityKey_ne_creators _ _)

theorem Consistent.denoms_reborn_iff (bank : β) :
    (∀ creator, getDenomsFromCreator (s.reborn k.codec bank).store creator = getDenomsFromCreator s.store creator) ↔
      ∀ c d, s.store.get (creatorKey c d) = some (.denom d) → c = creatorOf k.codec d := by
  constructor
  · intro hsame c d hget
    have hmem : d ∈ getDenomsFromCreator (s.reborn k.codec bank).store c := by
      rw [hsame c]
      exact mem_map.mpr ⟨(d, .denom d), mem_iterator.mpr hget, rfl⟩
    obtain ⟨⟨d₁, v⟩, hentry, hd₁⟩ := mem_map.mp hmem
    obtain rfl : d₁ = d := hd₁
    rw [mem_iterator, ← creatorKey, creatorKey_eq, h.get_creators_reborn] at hentry
    obtain ⟨d₂, hd₂, hrest, -⟩ := hentry
    have hd₁ := (h.isSome_iff d₁).mpr ⟨c, hget⟩
    obtain ⟨rfl, rfl⟩ := append_sep_inj_right (h.keySeparator_not_mem_of_recorded hd₁)
      (h.keySeparator_not_mem_of_recorded hd₂) hrest
    rfl
  · intro hread creator
    have hrows : ∀ rest, (s.reborn k.codec bank).store.get (getCreatorsPrefix ++ rest) =
        s.store.get (getCreatorsPrefix ++ rest) := by
      intro rest
      refine Option.ext fun v => ?_
      rw [h.get_creators_reborn]
      constructor
      · rintro ⟨d, hd, rfl, rfl⟩
        obtain ⟨c, hc⟩ := h.indexed hd
        rw [← creatorKey_eq, ← hread c d hc, hc]
      · intro hget
        obtain ⟨c, d, rfl, rfl, hd⟩ := h.index hget
        rw [← creatorKey_eq] at hget
        exact ⟨d, hd, by rw [← hread c d hget], rfl⟩
    have hunder : ∀ rest, getCreatorPrefix creator ++ rest = getCreatorsPrefix ++ (creator ++ keySeparator :: rest) :=
      fun rest => creatorKey_eq creator rest
    refine congrArg (List.map Prod.fst) (iterator_congr fun rest => ?_)
    rw [hunder, hrows]

theorem Consistent.sameTokens_iff (bank : β) : SameTokens s (s.reborn k.codec bank) ↔ AsCreated k.codec s := by
  constructor
  · intro hsame
    have hread := (h.denoms_reborn_iff bank).mp hsame.denoms
    refine ⟨by rw [← hsame.params, getParams_reborn], fun c d hget => ⟨?_, hread c d hget⟩⟩
    rw [← hsame.metadata, h.metadata_reborn, if_pos ((h.isSome_iff d).mpr ⟨c, hget⟩)]
  · rintro ⟨hparams, hcreated⟩
    have hdenoms := (h.denoms_reborn_iff bank).mpr fun c d hget => (hcreated c d hget).2
    refine ⟨by rw [hparams, getParams_reborn], ?_, ?_, hdenoms⟩
    · intro d
      rw [(h.reborn bank).getAuthorityMetadata_eq, h.recorded_reborn, h.getAuthorityMetadata_eq]
    · intro d
      rw [h.metadata_reborn]
      split
      · next hd =>
          obtain ⟨c, hc⟩ := h.indexed hd
          exact (hcreated c d hc).1.symm
      · rfl

end reborn

/-- The tokens of a chain survive its export and import. -/
def Survives (k : Keeper β) (s : State β) (bank : β) : Prop :=
  ∃ e s', exportAppStateAndValidators s = .ok e ∧ k.initChain bank e = .ok s' ∧ SameTokens s s'

theorem Consistent.survives_iff {s : State β} (h : Consistent k s) (bank : β) :
    Survives k s bank ↔ AsCreated k.codec s := by
  rw [← h.sameTokens_iff bank]
  constructor
  · rintro ⟨e, s', hexport, hinit, hsame⟩
    cases hexport.symm.trans h.exportAppStateAndValidators_eq
    cases hinit.symm.trans (h.initChain_eq bank)
    exact hsame
  · intro hsame
    exact ⟨_, _, h.exportAppStateAndValidators_eq, h.initChain_eq bank, hsame⟩

/-- From any accepted genesis and after any messages, none of the empty account, a new chain can be started from the
export; it has the same factory tokens if and only if the parameters are the default ones, no metadata was changed,
and every denomination was created by the creator it is read as. -/
theorem export_preserves_iff (k : Keeper β) (metadata : List Metadata) (bank bank' : β) (gs : GenesisState)
    (hgs : gs.validate k.codec = .ok ()) (s₀ : State β) (hinit : k.initGenesis (.fresh metadata bank) gs = .ok s₀)
    (msgs : List Msg) (hsenders : ∀ msg ∈ msgs, msg.sender ≠ []) :
    Survives k (run k.step s₀ msgs) bank' ↔ AsCreated k.codec (run k.step s₀ msgs) := by
  obtain ⟨hparams, hdenoms⟩ := GenesisState.valid_of_validate hgs
  have hs₀ := initGenesis_consistent hparams hdenoms hinit
  exact (run_consistent hs₀ hsenders).survives_iff bank'

namespace Sample

/-- bob's silver, which alice administers, on a chain with the default parameters. -/
def silverGenesis : GenesisState := ⟨defaultParams, [⟨silver, ⟨alice⟩⟩]⟩

def silverChain : State Bank := (keeper.initGenesis start silverGenesis).orElse start

theorem initGenesis_silver : keeper.initGenesis (.fresh [] noCoins) silverGenesis = .ok silverChain := by
  obtain ⟨s, hs⟩ := isOk_iff.mp (show (keeper.initGenesis start silverGenesis).isOk = true by decide +kernel)
  rw [silverChain, hs]
  exact hs

/-- The metadata of silver, with a name and a symbol. -/
def polished : Metadata := { newMetadata silver with name := ascii "Silver", symbol := ascii "SLV" }

theorem index_silver {s : State Bank}
    (hindex : s.store.iterator getCreatorsPrefix = [(bob ++ keySeparator :: silver, .denom silver)]) {c d : Bytes}
    (hget : s.store.get (creatorKey c d) = some (.denom d)) : c = bob ∧ d = silver := by
  rw [creatorKey_eq, ← mem_iterator, hindex, mem_singleton, Prod.mk.injEq] at hget
  obtain ⟨hrest, hd⟩ := hget
  cases hd
  exact ⟨append_cancel_right hrest, rfl⟩

end Sample

open Sample in
/-- Minting does not stand in the way. -/
theorem minted_silver_survives : (run keeper.step silverChain [.mint alice ⟨silver, 5⟩ bob]).bank.supply silver = 5 ∧
      Survives keeper (run keeper.step silverChain [.mint alice ⟨silver, 5⟩ bob]) noCoins := by
  have hvalid : silverGenesis.validate codec = .ok () := by decide +kernel
  refine ⟨by decide +kernel, (export_preserves_iff keeper [] noCoins noCoins silverGenesis hvalid silverChain
    initGenesis_silver _ (by decide +kernel)).mpr ⟨by decide +kernel, ?_⟩⟩
  intro c d hget
  obtain ⟨rfl, rfl⟩ := index_silver (by decide +kernel) hget
  exact ⟨by decide +kernel, by decide +kernel⟩

open Sample in
/-- The name that alice gives to silver is lost. -/
theorem polished_silver_lost :
    silverGenesis.validate codec = .ok () ∧ keeper.initGenesis (.fresh [] noCoins) silverGenesis = .ok silverChain ∧
      (run keeper.step silverChain [.setDenomMetadata alice polished]).metadata.get silver = some polished ∧
      ¬ Survives keeper (run keeper.step silverChain [.setDenomMetadata alice polished]) noCoins := by
  have hvalid : silverGenesis.validate codec = .ok () := by decide +kernel
  have hpolished : (run keeper.step silverChain [.setDenomMetadata alice polished]).metadata.get silver =
      some polished := by decide +kernel
  refine ⟨hvalid, initGenesis_silver, hpolished, fun hsurvives => ?_⟩
  obtain ⟨hparams, hdenoms⟩ := GenesisState.valid_of_validate hvalid
  have hchain : Consistent keeper silverChain := initGenesis_consistent hparams hdenoms initGenesis_silver
  have hs : Consistent keeper (run keeper.step silverChain [.setDenomMetadata alice polished]) :=
    run_consistent hchain (by decide +kernel)
  have hcreated := ((hs.survives_iff noCoins).mp hsurvives).2 bob silver (by decide +kernel)
  exact absurd hcreated.1 (by decide +kernel)

end TokenFactory
