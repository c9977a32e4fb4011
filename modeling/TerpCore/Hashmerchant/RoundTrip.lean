/-
  A genesis exported from a state and imported into an empty store.

  The table of oracle sources is not exported, but made from the chain records.
-/
import TerpCore.Hashmerchant.Binding
import TerpCore.Hashmerchant.Genesis

namespace Hashmerchant

open Lib Outcome KVStore List

variable {β : Type}

/-! ## What an import writes -/

section rows

variable (k : Keeper β)

def Keeper.chainRows (c : RegisteredChain) : List (Bytes × Value) :=
  (keyRegisteredChain c.chainUid, .chain c) ::
    if c.oracleSources = [] then []
    else [(oracleSourcesKey c.chainUid, .raw (k.marshalSources (c.oracleSources.filterMap id)))]

/-- The rows of a genesis state but for the prune epoch, which comes last. -/
def Keeper.genesisRows (gs : GenesisState) : List (Bytes × Value) :=
  (keyPrefixParams, .params gs.params) :: (gs.registeredChains.flatMap k.chainRows ++
    gs.registeredContracts.map (fun c => (keyRegisteredContract c.contractAddr, .contract c)) ++
    gs.escrowRecords.map (fun r => (keyEscrow r.contractAddr, .escrow r)) ++
    gs.hashRoots.map (fun r => (keyHashRoot r.chainUid r.algo, .hashRoot r)))

theorem foldl_initChain : ∀ (chains : List RegisteredChain) (s : Store),
    chains.foldl k.initChain s = s.setRows (chains.flatMap k.chainRows)
  | [], _ => rfl
  | c :: chains, s => by
    have hchain : k.initChain s c = s.setRows (k.chainRows c) := by
      unfold Keeper.initChain Keeper.chainRows
      split_ifs <;> rfl
    rw [foldl_cons, foldl_initChain chains, hchain, flatMap_cons, setRows_append]

theorem initGenesis_eq (s : Store) (gs : GenesisState) :
    k.initGenesis s gs = setPruneEpoch (s.setRows (k.genesisRows gs)) gs.pruneEpoch := by
  simp only [Keeper.initGenesis, Keeper.genesisRows, setRows_cons, setRows_append, foldl_initChain, setRows_map]
  rfl

end rows

/-! ## What an export reads -/

section records

variable {s : Store} (hs : WellKeyed s)
include hs

theorem mem_records {α : Type} {p : Bytes} {read : Bytes × Value → Option α} (write : α → Value)
    (name : α → Bytes) (hread : ∀ e a, read e = some a ↔ e.2 = write a)
    (hname : ∀ a key, (write a).Keyed key ↔ key = p ++ name a) (a : α) :
    a ∈ (s.iterator p).filterMap read ↔ s.get (p ++ name a) = some (write a) := by
  rw [mem_filterMap]
  constructor
  · rintro ⟨⟨key, v⟩, hmem, ha⟩
    obtain rfl : v = write a := (hread _ a).mp ha
    have hget := mem_iterator.mp hmem
    rwa [(hname a _).mp (hs _ _ hget)] at hget
  · intro hget
    exact ⟨(name a, write a), mem_iterator.mpr hget, (hread _ a).mpr rfl⟩

theorem mem_registeredChains (c : RegisteredChain) :
    c ∈ registeredChains s ↔ s.get (keyRegisteredChain c.chainUid) = some (.chain c) :=
  mem_records hs .chain RegisteredChain.chainUid
    (fun e a => by obtain ⟨_, v⟩ := e; cases v <;> simp) (fun _ _ => Iff.rfl) c

theorem mem_registeredContracts (c : RegisteredContract) :
    c ∈ registeredContracts s ↔ s.get (keyRegisteredContract c.contractAddr) = some (.contract c) :=
  mem_records hs .contract RegisteredContract.contractAddr
    (fun e a => by obtain ⟨_, v⟩ := e; cases v <;> simp) (fun _ _ => Iff.rfl) c

theorem mem_escrowRecords (r : EscrowRecord) :
    r ∈ escrowRecords s ↔ s.get (keyEscrow r.contractAddr) = some (.escrow r) :=
  mem_records hs .escrow EscrowRecord.contractAddr
    (fun e a => by obtain ⟨_, v⟩ := e; cases v <;> simp) (fun _ _ => Iff.rfl) r

theorem mem_allHashRoots (r : HashRoot) :
    r ∈ allHashRoots s ↔ s.get (keyHashRoot r.chainUid r.algo) = some (.hashRoot r) := by
  have hname : ∀ r : HashRoot, keyHashRoot r.chainUid r.algo =
      keyPrefixHashRoots ++ (r.chainUid ++ ascii "|" ++ r.algo) := by
    simp [keyHashRoot]
  exact mem_records hs .hashRoot (fun r => r.chainUid ++ ascii "|" ++ r.algo)
    (fun e a => by obtain ⟨_, v⟩ := e; cases v <;> simp)
    (fun r key => by rw [← hname]; exact Iff.rfl) r

end records

/-! ## The store after the import -/

section restored

variable {k : Keeper β} {s : Store} {gs : GenesisState}

theorem exportGenesis_eq_ok (h : exportGenesis s = .ok gs) :
    (∀ params, getParams s = .ok params → gs.params = params) ∧
      gs.registeredChains = registeredChains s ∧ gs.registeredContracts = registeredContracts s ∧
      gs.escrowRecords = escrowRecords s ∧ gs.hashRoots = allHashRoots s ∧
      getPruneEpoch s = .ok gs.pruneEpoch := by
  obtain ⟨epoch, hepoch, h⟩ := bind_eq_ok.mp h
  cases h
  refine ⟨fun params hparams => ?_, rfl, rfl, rfl, rfl, hepoch⟩
  simp only [hparams]

theorem exists_params (hs : WellKeyed s) : ∃ params, getParams s = .ok params := by
  rw [getParams]
  cases hget : s.get keyPrefixParams with
  | none => exact ⟨_, rfl⟩
  | some v =>
    have hkeyed := hs _ v hget
    cases v with
    | params p => exact ⟨p, rfl⟩
    | raw b => cases hkeyed.choose_spec
    | _ => cases hkeyed

variable (hs : WellKeyed s) (h : exportGenesis s = .ok gs)
include hs h

/-- What the rows of an export are: the parameters, the sources of a chain, or a row of the store. -/
theorem mem_genesisRows {key : Bytes} {v : Value} (hmem : (key, v) ∈ k.genesisRows gs) :
    (key, v) = (keyPrefixParams, .params gs.params) ∨
    (∃ c, s.get (keyRegisteredChain c.chainUid) = some (.chain c) ∧ c.oracleSources ≠ [] ∧
      (key, v) = (oracleSourcesKey c.chainUid, .raw (k.marshalSources (c.oracleSources.filterMap id)))) ∨
    s.get key = some v ∧ ∀ chainUID, key ≠ oracleSourcesKey chainUID := by
  obtain ⟨-, hchains, hcontracts, hescrow, hroots, -⟩ := exportGenesis_eq_ok h
  simp only [Keeper.genesisRows, hchains, hcontracts, hescrow, hroots, mem_cons, mem_append,
    mem_flatMap, mem_map] at hmem
  rcases hmem with hparams | ((⟨c, hc, hrow⟩ | ⟨c, hc, hrow⟩) | ⟨r, hr, hrow⟩) | ⟨r, hr, hrow⟩
  · exact .inl hparams
  · have hget := (mem_registeredChains hs c).mp hc
    rcases mem_cons.mp hrow with hrow | hrow
    · cases hrow
      exact .inr (.inr ⟨hget, fun _ => nofun⟩)
    · split_ifs at hrow with hnil
      · cases hrow
      · exact Or.inr (Or.inl ⟨c, hget, hnil, mem_singleton.mp hrow⟩)
  · cases hrow
    exact .inr (.inr ⟨(mem_registeredContracts hs c).mp hc, fun _ => nofun⟩)
  · cases hrow
    exact .inr (.inr ⟨(mem_escrowRecords hs r).mp hr, fun _ => nofun⟩)
  · cases hrow
    exact .inr (.inr ⟨(mem_allHashRoots hs r).mp hr, fun _ => nofun⟩)

theorem mem_genesisRows_of_get {key : Bytes} {v : Value} (hget : s.get key = some v)
    (hparams : key ≠ keyPrefixParams) (hraw : ∀ chainUID, key ≠ oracleSourcesKey chainUID) :
    (key, v) ∈ k.genesisRows gs := by
  obtain ⟨-, hchains, hcontracts, hescrow, hroots, -⟩ := exportGenesis_eq_ok h
  have hkeyed := hs key v hget
  simp only [Keeper.genesisRows, hchains, hcontracts, hescrow, hroots, mem_cons, mem_append, mem_flatMap, mem_map]
  cases v with
  | params p => exact absurd hkeyed hparams
  | raw b => exact absurd hkeyed.choose_spec (hraw _)
  | chain c =>
    obtain rfl : key = keyRegisteredChain c.chainUid := hkeyed
    exact .inr (.inl (.inl (.inl ⟨c, (mem_registeredChains hs c).mpr hget, mem_cons_self ..⟩)))
  | contract c =>
    obtain rfl : key = keyRegisteredContract c.contractAddr := hkeyed
    exact .inr (.inl (.inl (.inr ⟨c, (mem_registeredContracts hs c).mpr hget, rfl⟩)))
  | escrow r =>
    obtain rfl : key = keyEscrow r.contractAddr := hkeyed
    exact .inr (.inl (.inr ⟨r, (mem_escrowRecords hs r).mpr hget, rfl⟩))
  | hashRoot r =>
    obtain rfl : key = keyHashRoot r.chainUid r.algo := hkeyed
    exact .inr (.inr ⟨r, (mem_allHashRoots hs r).mpr hget, rfl⟩)

theorem get_restored {key : Bytes} (hparams : key ≠ keyPrefixParams)
    (hraw : ∀ chainUID, key ≠ oracleSourcesKey chainUID) :
    (k.initGenesis .empty gs).get key = s.get key := by
  have hrow : ∀ r ∈ k.genesisRows gs, r.1 = key → s.get key = some r.2 := by
    rintro ⟨key', v⟩ hmem rfl
    rcases mem_genesisRows hs h hmem with hrow | ⟨c, -, -, hrow⟩ | ⟨hget, -⟩
    · exact absurd (Prod.mk.inj hrow).1 hparams
    · exact absurd (Prod.mk.inj hrow).1 (hraw _)
    · exact hget
  have hepoch : keyPrefixPruneEpoch ≠ key := (hraw []).symm
  rw [initGenesis_eq, setPruneEpoch, get_set_of_ne _ _ hepoch]
  cases hget : s.get key with
  | none =>
    rw [get_setRows_of_ne, get_empty]
    intro r hr heq
    simp [hrow r hr heq] at hget
  | some v =>
    refine get_setRows_of_mem (fun r hr heq => ?_) (mem_genesisRows_of_get hs h hget hparams hraw)
    rw [hrow r hr heq] at hget
    exact Option.some.inj hget

theorem getParams_restored : getParams (k.initGenesis .empty gs) = getParams s := by
  obtain ⟨params, hp⟩ := exists_params hs
  have hgs := (exportGenesis_eq_ok h).1 params hp
  have hget : (k.initGenesis .empty gs).get keyPrefixParams = some (.params params) := by
    rw [initGenesis_eq, setPruneEpoch, get_set_of_ne _ _ (by decide)]
    refine get_setRows_of_mem ?_ (by simp [Keeper.genesisRows, hgs])
    rintro ⟨key, v⟩ hmem rfl
    rcases mem_genesisRows hs h hmem with hrow | ⟨c, -, -, hrow⟩ | ⟨hget, -⟩
    · rw [(Prod.mk.inj hrow).2, hgs]
    · cases (Prod.mk.inj hrow).1
    · rw [getParams, hget] at hp
      cases v <;> first
        | exact congrArg Value.params (ok.inj hp)
        | cases hp
  rw [hp, getParams, hget]

omit hs in
theorem get_pruneEpoch_restored :
    (k.initGenesis .empty gs).get keyPrefixPruneEpoch = some (.raw (be64 gs.pruneEpoch)) ∧
      getPruneEpoch (k.initGenesis .empty gs) = getPruneEpoch s := by
  have hget : (k.initGenesis .empty gs).get keyPrefixPruneEpoch = some (.raw (be64 gs.pruneEpoch)) := by
    rw [initGenesis_eq, setPruneEpoch, get_set_self]
  refine ⟨hget, ?_⟩
  obtain ⟨-, -, -, -, -, hepoch⟩ := exportGenesis_eq_ok h
  rw [hepoch, getPruneEpoch, hget]
  simp only [getBE64_be64]
  rfl

theorem get_sources_restored {chainUID : Bytes} (hne : chainUID ≠ []) :
    (k.initGenesis .empty gs).get (oracleSourcesKey chainUID) =
      match getRegisteredChain s chainUID with
      | .ok c => if c.oracleSources = [] then none
          else some (.raw (k.marshalSources (c.oracleSources.filterMap id)))
      | _ => none := by
  have hepoch : keyPrefixPruneEpoch ≠ oracleSourcesKey chainUID := by
    simpa [keyPrefixPruneEpoch, oracleSourcesKey, oracleSourcesKeyPrefix] using hne.symm
  -- a row for the sources comes from the record of the chain
  have hrow : ∀ r ∈ k.genesisRows gs, r.1 = oracleSourcesKey chainUID →
      ∃ c, s.get (keyRegisteredChain chainUID) = some (.chain c) ∧ c.oracleSources ≠ [] ∧
        r.2 = .raw (k.marshalSources (c.oracleSources.filterMap id)) := by
    rintro ⟨key, v⟩ hmem rfl
    rcases mem_genesisRows hs h hmem with hrow | ⟨c, hc, hnil, hrow⟩ | ⟨-, hraw⟩
    · cases (Prod.mk.inj hrow).1
    · obtain ⟨hkey, rfl⟩ := Prod.mk.inj hrow
      obtain rfl : chainUID = c.chainUid := by simpa [oracleSourcesKey] using hkey
      exact ⟨c, hc, hnil, rfl⟩
    · exact absurd rfl (hraw chainUID)
  have hnone : (∀ c, s.get (keyRegisteredChain chainUID) = some (.chain c) → c.oracleSources = []) →
      (empty.setRows (k.genesisRows gs)).get (oracleSourcesKey chainUID) = none := by
    intro hall
    rw [get_setRows_of_ne, get_empty]
    intro r hr heq
    obtain ⟨c, hc, hnil, -⟩ := hrow r hr heq
    exact hnil (hall c hc)
  rw [initGenesis_eq, setPruneEpoch, get_set_of_ne _ _ hepoch, getRegisteredChain]
  cases hget : s.get (keyRegisteredChain chainUID) with
  | none => exact hnone fun c hc => by simp [hget] at hc
  | some v =>
    cases v with
    | chain c =>
      have hkeyed : keyRegisteredChain chainUID = keyRegisteredChain c.chainUid := hs _ _ hget
      obtain rfl : chainUID = c.chainUid := by simpa [keyRegisteredChain] using hkeyed
      by_cases hnil : c.oracleSources = []
      · simp only [if_pos hnil]
        refine hnone fun c' hc' => ?_
        rw [hget] at hc'
        cases hc'
        exact hnil
      · simp only [if_neg hnil]
        refine get_setRows_of_mem (fun r hr heq => ?_) ?_
        · obtain ⟨c', hc', -, hr⟩ := hrow r hr heq
          rw [hget] at hc'
          cases hc'
          exact hr
        · simp only [Keeper.genesisRows, (exportGenesis_eq_ok h).2.1, mem_cons, mem_append, mem_flatMap]
          refine .inr (.inl (.inl (.inl ⟨c, (mem_registeredChains hs c).mpr hget, ?_⟩)))
          simp [Keeper.chainRows, hnil]
    | _ => exact hnone fun c hc => by simp [hget] at hc

end restored

/-! ## Answers -/

/-- Both stores answer all queries alike. -/
structure SameAnswers (k : Keeper β) (s t : Store) : Prop where
  oracleSources : ∀ chainUID, k.getOracleSources t chainUID = k.getOracleSources s chainUID
  registeredChain : ∀ chainUID, getRegisteredChain t chainUID = getRegisteredChain s chainUID
  registeredContract : ∀ addr, getRegisteredContract t addr = getRegisteredContract s addr
  escrowRecord : ∀ addr, getEscrowRecord t addr = getEscrowRecord s addr
  hashRoot : ∀ chainUID algo, getHashRoot t chainUID algo = getHashRoot s chainUID algo
  params : getParams t = getParams s
  pruneEpoch : getPruneEpoch t = getPruneEpoch s

/-- The export of a store, imported into an empty one, answers alike. -/
def Keeper.RoundTrips (k : Keeper β) (s : Store) : Prop :=
  ∃ gs, exportGenesis s = .ok gs ∧ SameAnswers k s (k.initModule .empty ⟨gs, []⟩)

def Keeper.decodeSources (k : Keeper β) (b : Bytes) : Outcome Err (List OracleSource) :=
  match k.unmarshalSources b with
  | some sources => .ok sources
  | none => .error (.decode "oracle sources")

/-- The sources that the record of a chain has, as they are read back from the table. -/
def Keeper.recordedSources (k : Keeper β) (s : Store) (chainUID : Bytes) : Outcome Err (List OracleSource) :=
  match getRegisteredChain s chainUID with
  | .ok c => if c.oracleSources = [] then .ok []
      else k.decodeSources (k.marshalSources (c.oracleSources.filterMap id))
  | _ => .ok []

/-- The table of sources says what the records say.  The key of the empty identifier is that of the prune
epoch, and has to hold one. -/
structure InStep (k : Keeper β) (s : Store) : Prop where
  epoch : ∃ height, getPruneEpoch s = .ok height ∧
    k.getOracleSources s [] = k.decodeSources (be64 height)
  sources : ∀ chainUID, chainUID ≠ [] → k.getOracleSources s chainUID = k.recordedSources s chainUID

section answers

variable {k : Keeper β} {s : Store} {gs : GenesisState}

theorem sources_restored (hs : WellKeyed s) (h : exportGenesis s = .ok gs) {chainUID : Bytes} (hne : chainUID ≠ []) :
    k.getOracleSources (k.initGenesis .empty gs) chainUID = k.recordedSources s chainUID := by
  rw [Keeper.getOracleSources, get_sources_restored hs h hne, Keeper.recordedSources]
  cases getRegisteredChain s chainUID with
  | ok c =>
    by_cases hnil : c.oracleSources = []
    · simp only [if_pos hnil]
    · simp only [if_neg hnil]
      rfl
  | error | panicked => rfl

theorem roundTrips_iff_inStep (hs : WellKeyed s) : k.RoundTrips s ↔ InStep k s := by
  have hempty : ∀ {gs}, exportGenesis s = .ok gs →
      k.getOracleSources (k.initGenesis .empty gs) [] = k.decodeSources (be64 gs.pruneEpoch) := by
    intro gs h
    have hget : (k.initGenesis .empty gs).get (oracleSourcesKey []) = some (.raw (be64 gs.pruneEpoch)) :=
      (get_pruneEpoch_restored h).1
    rw [Keeper.getOracleSources, hget]
    rfl
  constructor
  · rintro ⟨gs, h, hsame⟩
    obtain ⟨-, -, -, -, -, hepoch⟩ := exportGenesis_eq_ok h
    refine ⟨⟨gs.pruneEpoch, hepoch, ?_⟩, fun chainUID hne => ?_⟩
    · rw [← hsame.oracleSources, ← hempty h]
      rfl
    · rw [← hsame.oracleSources, ← sources_restored hs h hne]
      rfl
  · rintro ⟨⟨height, hepoch, hzero⟩, hsources⟩
    obtain ⟨gs, h⟩ : ∃ gs, exportGenesis s = .ok gs := by
      rw [exportGenesis, hepoch]
      exact ⟨_, rfl⟩
    obtain rfl : gs.pruneEpoch = height := by
      have := (exportGenesis_eq_ok h).2.2.2.2.2
      rw [hepoch] at this
      exact (ok.inj this).symm
    have hget : ∀ key, key ≠ keyPrefixParams → (∀ chainUID, key ≠ oracleSourcesKey chainUID) →
        (k.initGenesis .empty gs).get key = s.get key := fun key => get_restored hs h
    refine ⟨gs, h, ?_⟩
    change SameAnswers k s (k.initGenesis .empty gs)
    refine ⟨fun chainUID => ?_, fun chainUID => ?_, fun addr => ?_, fun addr => ?_, fun chainUID algo => ?_,
      getParams_restored hs h, (get_pruneEpoch_restored h).2⟩
    · by_cases hne : chainUID = []
      · rw [hne, hempty h, hzero]
      · rw [sources_restored hs h hne, hsources chainUID hne]
    · rw [getRegisteredChain, hget (keyRegisteredChain _) nofun fun _ => nofun, getRegisteredChain]
    · rw [getRegisteredContract, hget (keyRegisteredContract _) nofun fun _ => nofun, getRegisteredContract]
    · rw [getEscrowRecord, hget (keyEscrow _) nofun fun _ => nofun, getEscrowRecord]
    · rw [getHashRoot, hget (keyHashRoot _ _) nofun fun _ => nofun, getHashRoot]

/-- The round trip of a reachable state: records and parameters come back, and the sources exactly if the table was in
step with the records. -/
theorem roundTrips_iff (hsudo : SudoKeyed k) (file : GenesisFile) (app : β) (events : List Event) :
    k.RoundTrips (run k.advance ⟨k.initModule .empty file, app⟩ events).store ↔
      InStep k (run k.advance ⟨k.initModule .empty file, app⟩ events).store :=
  roundTrips_iff_inStep (run_wellKeyed hsudo file app events)

end answers

/-! A chain `c` with one source, registered by a message or in the genesis. -/

def registryKeeper : Keeper Unit :=
  { attestedKeeper with
    authority := sampleSender
    accAddressFromBech32 := fun a => if a = sampleSender then some (List.replicate 20 1) else none }

def sampleChain : RegisteredChain := ⟨ascii "c", ascii "C", [], [], true, [some sampleSource]⟩

/-- A genesis with these chains and nothing else. -/
def chainsGenesis (chains : List RegisteredChain) : GenesisFile where
  state := ⟨defaultParams, chains, [], [], [], 0⟩

def registerSampleChain : Op := .registerChain ⟨sampleSender, sampleChain⟩

theorem registryKeeper_sudoKeyed : SudoKeyed registryKeeper := by
  intro s contract payload limit s' h hs
  cases h
  exact hs

/-- A registered chain has no sources in the table, and the import makes them from its record. -/
theorem registered_sources_not_roundTrips :
    let s := (run registryKeeper.advance ⟨registryKeeper.initModule .empty (chainsGenesis []), ()⟩
      [.op registerSampleChain]).store
    registryKeeper.getOracleSources s (ascii "c") = .ok [] ∧
      (exportGenesis s >>= fun gs => registryKeeper.getOracleSources
        (registryKeeper.initModule .empty ⟨gs, []⟩) (ascii "c")) = .ok [sampleSource] ∧
      ¬ registryKeeper.RoundTrips s := by
  intro s
  have hbefore : registryKeeper.getOracleSources s (ascii "c") = .ok [] := by decide
  have hafter : (exportGenesis s >>= fun gs => registryKeeper.getOracleSources
      (registryKeeper.initModule .empty ⟨gs, []⟩) (ascii "c")) = .ok [sampleSource] := by decide
  refine ⟨hbefore, hafter, ?_⟩
  rintro ⟨gs, h, hsame⟩
  rw [h, ok_bind, hsame.oracleSources] at hafter
  cases hafter

/-- Chain `c` of the genesis cannot be registered again; a chain `d` without sources is, and the parameters are
changed. -/
def laterEvents : List Event :=
  [.op registerSampleChain, .op (.registerChain ⟨sampleSender, ⟨ascii "d", ascii "D", [], [], true, []⟩⟩),
    .updateParams ⟨sampleSender, { defaultParams with pruneInterval := 10 }⟩]

theorem genesis_sources_roundTrips :
    let s := (run registryKeeper.advance ⟨registryKeeper.initModule .empty (chainsGenesis [sampleChain]), ()⟩
      laterEvents).store
    registryKeeper.getOracleSources s (ascii "c") = .ok [sampleSource] ∧ hasRegisteredChain s (ascii "d") = true ∧
      getParams s = .ok { defaultParams with pruneInterval := 10 } ∧ InStep registryKeeper s ∧
      registryKeeper.RoundTrips s := by
  intro s
  have hc : registryKeeper.getOracleSources s (ascii "c") = .ok [sampleSource] := by decide +kernel
  have hstep : InStep registryKeeper s := by
    refine ⟨⟨0, by decide +kernel, by decide +kernel⟩, fun chainUID hne => ?_⟩
    by_cases hlisted : chainUID ∈ [ascii "c", ascii "d"]
    · rcases (by simpa using hlisted : chainUID = ascii "c" ∨ chainUID = ascii "d") with rfl | rfl <;> decide +kernel
    · -- no row is written for another chain
      have hkeys : ∀ r ∈ s.iterator [], r.1 ∈ keyPrefixPruneEpoch :: keyPrefixParams ::
          [ascii "c", ascii "d"].flatMap fun uid => [keyRegisteredChain uid, oracleSourcesKey uid] := by decide +kernel
      have hnone : ∀ key, key ∉ keyPrefixPruneEpoch :: keyPrefixParams ::
          [ascii "c", ascii "d"].flatMap (fun uid => [keyRegisteredChain uid, oracleSourcesKey uid]) →
          s.get key = none := by
        intro key hkey
        cases hget : s.get key with
        | none => rfl
        | some v => exact absurd (hkeys (key, v) (mem_iterator.mpr hget)) hkey
      simp only [mem_cons, not_mem_nil, or_false, not_or] at hlisted
      have hsources : s.get (oracleSourcesKey chainUID) = none := hnone _ (by
        simpa [oracleSourcesKey, oracleSourcesKeyPrefix, keyPrefixPruneEpoch, keyPrefixParams, keyRegisteredChain,
          keyPrefixRegisteredChains] using ⟨hne, hlisted⟩)
      have hchain : s.get (keyRegisteredChain chainUID) = none := hnone _ (by
        simpa [oracleSourcesKey, oracleSourcesKeyPrefix, keyPrefixPruneEpoch, keyPrefixParams, keyRegisteredChain,
          keyPrefixRegisteredChains] using hlisted)
      rw [Keeper.getOracleSources, hsources, Keeper.recordedSources, getRegisteredChain, hchain]
  exact ⟨hc, by decide +kernel, by decide +kernel, hstep,
    (roundTrips_iff registryKeeper_sudoKeyed _ () laterEvents).mpr hstep⟩

end Hashmerchant
